import Cassobee.ConcurrentDoubleBuffer
import Cassobee.Support.Refinement

/-! The values that `concurrent_double_buffer` takes never reach its reader. -/

namespace Cassobee.Proofs
open Support ConcurrentDoubleBuffer

variable {τ : Type} {db : ConcurrentDoubleBuffer τ} {waiting : List τ} {grown : Nat → Nat} {action : DeliveryAction τ}

/-- What the operations are for: each consume hands over all values that wait, and a reserve none. -/
def handOver (waiting : List τ) : DeliveryAction τ → List τ × List τ
  | .emplace value => ([], waiting ++ [value])
  | .reserve _ => ([], waiting)
  | .consume => (waiting, [])

/-- The buffers have the values that wait. -/
def NothingDropped (db : ConcurrentDoubleBuffer τ) (waiting : List τ) : Prop := db.front.data ++ db.back.data = waiting

/-- A value waits neither when the reader comes, nor when the vector has to become larger. -/
def NoneWaits (db : ConcurrentDoubleBuffer τ) : DeliveryAction τ → Prop
  | .emplace _ => True
  | .reserve newCapacity => db.back.data = [] ∨ newCapacity ≤ db.back.capacity
  | .consume => db.back.data = []

/-- Nobody holds the back buffer, which therefore never becomes the front. -/
structure Behind (db : ConcurrentDoubleBuffer τ) (waiting : List τ) : Prop where
  front : db.front.data = []
  back : db.back.data = waiting
  unread : db.back.refCount = 0

namespace Behind

theorem new (reserveSize : Nat) : Behind (.new reserveSize : ConcurrentDoubleBuffer τ) [] := ⟨rfl, rfl, rfl⟩

theorem keeps (behind : Behind db waiting) : NothingDropped db waiting := by
  rw [NothingDropped, behind.front, behind.back, List.nil_append]

theorem emplace (behind : Behind db waiting) (grown : Nat → Nat) (value : τ) :
    Behind (db.emplace grown value) (waiting ++ [value]) := by
  have stays : ¬ db.back.refCount > 0 := by simp [behind.unread]
  rw [ConcurrentDoubleBuffer.emplace, if_neg stays]
  exact ⟨behind.front, congrArg (· ++ [value]) behind.back, behind.unread⟩

/-- The reader finds nothing, and leaves the back buffer as it is. -/
theorem consume (behind : Behind db waiting) : db.consume.1 = [] ∧ Behind db.consume.2 waiting := by
  rw [ConcurrentDoubleBuffer.consume]
  dsimp only
  split
  next => exact ⟨behind.front, rfl, behind.back, behind.unread⟩
  next => exact ⟨rfl, behind.front, behind.back, behind.unread⟩

theorem reserve (behind : Behind db waiting) {newCapacity : Nat} (fits : waiting = [] ∨ newCapacity ≤ db.back.capacity) :
    Behind (db.reserve newCapacity) waiting := by
  rw [ConcurrentDoubleBuffer.reserve]
  split
  next small =>
    obtain rfl := fits.resolve_right (Nat.not_le_of_lt small)
    exact ⟨behind.front, rfl, rfl⟩
  next => exact behind

theorem perform (behind : Behind db waiting) (meets : NoneWaits db action) :
    ∃ next, db.perform grown action = some ((handOver waiting action).1, next) ∧ Behind next (handOver waiting action).2 := by
  cases action with
  | emplace value => exact ⟨_, rfl, behind.emplace grown value⟩
  | reserve newCapacity =>
    rw [NoneWaits, behind.back] at meets
    exact ⟨_, rfl, behind.reserve meets⟩
  | consume =>
    obtain ⟨nothing, after⟩ := behind.consume
    obtain rfl : waiting = [] := behind.back.symm.trans meets
    exact ⟨_, congrArg (fun handed => some (handed, _)) nothing, after⟩

theorem needs (behind : Behind db waiting)
    (after : ∀ answer next, db.perform grown action = some (answer, next) → NothingDropped next (handOver waiting action).2) :
    NoneWaits db action := by
  cases action with
  | emplace => trivial
  | reserve newCapacity =>
    have kept : NothingDropped (db.reserve newCapacity) waiting := after _ _ rfl
    rw [NoneWaits, behind.back]
    by_cases small : db.back.capacity < newCapacity
    · rw [NothingDropped, ConcurrentDoubleBuffer.reserve, if_pos small, behind.front] at kept
      exact .inl kept.symm
    · exact .inr (Nat.le_of_not_lt small)
  | consume =>
    have kept : NothingDropped db.consume.2 [] := after _ _ rfl
    have still := behind.consume.2
    rw [NothingDropped, still.front, still.back, List.nil_append] at kept
    exact behind.back.trans kept

end Behind

end Cassobee.Proofs
