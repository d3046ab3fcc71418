import Cassobee.Reactor
import Cassobee.Support.Run

/-! When the loop sleeps on an event. `_wakeup` is cleared after the changelist has been loaded, and
the eventfd has been drained before, so a writer that passes between the two finds the flag still
set and leaves its event without a wakeup. -/

namespace Cassobee
open Support

variable {ω ε : Type}

namespace Reactor

/-- Whenever the loop is blocked and no writer is on its way to `wakeup`, nothing waits for it. -/
def NothingLost (reactor : Reactor ω ε) : Prop :=
  reactor.pc = .wait → reactor.eventfd = 0 → (∀ writer, reactor.between writer = false) → reactor.changelist = []

/-- The flag is not cleared over an event that nobody will announce. -/
def ClearsSafely (reactor : Reactor ω ε) : ReactorAction ω ε → Prop
  | .clearWakeup => reactor.pc = .clear →
    reactor.changelist = [] ∨ 0 < reactor.eventfd ∨ ∃ writer, reactor.between writer = true
  | _ => True

end Reactor

namespace Proofs
open Reactor

structure Announced (reactor : Reactor ω ε) : Prop where
  flag (blocked : reactor.pc = .wait) (set : reactor.wakeup = true) : 0 < reactor.eventfd
  event (blocked : reactor.pc = .wait) :
    reactor.changelist = [] ∨ 0 < reactor.eventfd ∨ ∃ writer, reactor.between writer = true

theorem Announced.nothingLost {reactor : Reactor ω ε} (announced : Announced reactor) : reactor.NothingLost := by
  intro blocked unreadable idle
  rcases announced.event blocked with empty | readable | ⟨writer, busy⟩
  · exact empty
  · omega
  · rw [idle writer] at busy
    cases busy

theorem initial_announced : Announced (initial : Reactor ω ε) := by
  constructor <;> intro blocked <;> cases blocked

private theorem wake_spec (reactor : Reactor ω ε) : reactor.wake.pc = reactor.pc ∧ reactor.wake.wakeup = true ∧
    reactor.wake.changelist = reactor.changelist ∧ (reactor.wakeup = false → 0 < reactor.wake.eventfd) ∧
    reactor.eventfd ≤ reactor.wake.eventfd := by
  unfold Reactor.wake
  split
  next set => exact ⟨rfl, set, rfl, fun clear => by simp [clear] at set, Nat.le_refl _⟩
  next => exact ⟨rfl, rfl, rfl, fun _ => Nat.succ_pos _, Nat.le_succ _⟩

variable [DecidableEq ω]

theorem step_announced {before after : Reactor ω ε} {action : ReactorAction ω ε} (announced : Announced before)
    (safely : before.ClearsSafely action) (stepped : before.step action = some after) : Announced after := by
  cases action with
  | loadEvent =>
    simp only [Reactor.step, Option.ite_none_right_eq_some, Option.some.injEq] at stepped
    obtain ⟨-, rfl⟩ := stepped
    constructor <;> intro blocked <;> cases blocked
  | clearWakeup =>
    simp only [Reactor.step, Option.ite_none_right_eq_some, Option.some.injEq] at stepped
    obtain ⟨here, rfl⟩ := stepped
    refine ⟨fun _ set => ?_, fun _ => safely here⟩
    cases set
  | epollWait =>
    simp only [Reactor.step, Option.ite_none_right_eq_some, Option.some.injEq] at stepped
    obtain ⟨-, rfl⟩ := stepped
    constructor <;> intro blocked <;> cases blocked
  | drainEventfd =>
    simp only [Reactor.step, Option.ite_none_right_eq_some, Option.some.injEq] at stepped
    obtain ⟨-, rfl⟩ := stepped
    constructor <;> intro blocked <;> cases blocked
  | write writer event =>
    simp only [Reactor.step, Option.ite_none_left_eq_some, Option.some.injEq] at stepped
    obtain ⟨-, rfl⟩ := stepped
    exact ⟨announced.flag, fun _ => .inr (.inr ⟨writer, by simp⟩)⟩
  | wake writer =>
    simp only [Reactor.step, Option.ite_none_right_eq_some, Option.some.injEq] at stepped
    obtain ⟨-, rfl⟩ := stepped
    obtain ⟨pc, flag, list, raised, grown⟩ := wake_spec before
    have readable (blocked : before.wake.pc = .wait) : 0 < before.wake.eventfd := by
      cases set : before.wakeup with
      | false => exact raised set
      | true => exact Nat.lt_of_lt_of_le (announced.flag (pc ▸ blocked) set) grown
    exact ⟨fun blocked _ => readable blocked, fun blocked => .inr (.inl (readable blocked))⟩

/-- A run loses nothing exactly when the flag is never cleared over an unannounced event. -/
theorem nothingLost_iff_clearsSafely (actions : List (ReactorAction ω ε)) :
    Throughout Reactor.step NothingLost initial actions ↔ EachStep Reactor.step ClearsSafely initial actions := by
  constructor
  · apply eachStep_of_throughout
    intro reactor action next
    cases action with
    | clearWakeup =>
      intro here
      apply Classical.byContradiction
      intro unannounced
      simp only [not_or, not_exists, Bool.not_eq_true, Nat.not_lt, Nat.le_zero] at unannounced
      obtain ⟨waiting, unreadable, idle⟩ := unannounced
      exact waiting (next { reactor with pc := .wait, wakeup := false } (by simp [Reactor.step, here]) rfl unreadable idle)
    | loadEvent | epollWait | drainEventfd | write | wake => trivial
  · exact throughout_of_eachStep Announced.nothingLost step_announced initial_announced

/-- The first writer wakes the loop; the second comes after the changelist has been loaded and before
the flag is cleared. -/
def lostActions : List (ReactorAction Bool Nat) :=
  [.loadEvent, .clearWakeup, .write false 1, .wake false, .epollWait, .drainEventfd, .loadEvent,
    .write true 2, .wake true, .clearWakeup]

theorem lostActions_lose :
    ∃ reactor, lostActions.foldlM Reactor.step initial = some reactor ∧ reactor.pc = .wait ∧ reactor.eventfd = 0 ∧
      (∀ writer, reactor.between writer = false) ∧ reactor.changelist = [2] ∧
      ¬ Throughout Reactor.step NothingLost initial lostActions := by
  obtain ⟨reactor, computed, blocked, unreadable, idle, waiting⟩ : ∃ reactor,
      lostActions.foldlM Reactor.step initial = some reactor ∧ reactor.pc = .wait ∧ reactor.eventfd = 0 ∧
      (∀ writer, reactor.between writer = false) ∧ reactor.changelist = [2] :=
    ⟨_, rfl, rfl, rfl, by decide, rfl⟩
  refine ⟨reactor, computed, blocked, unreadable, idle, waiting, fun every => ?_⟩
  have empty := every.last computed blocked unreadable idle
  rw [waiting] at empty
  cases empty

end Proofs
end Cassobee
