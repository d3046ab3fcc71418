import Mathlib.Data.List.Basic

/-! A queue of bounded size. What does not fit is not written. -/

namespace Cassobee.Support

variable {α : Type} {capacity : Nat}

structure BoundedQueue (α : Type) (capacity : Nat) where
  items : List α
  bounded : items.length ≤ capacity

/-- Two ways to read differ in where the items go. -/
inductive QueueAction (α : Type) where
  | write (source : List α)
  | read (length : Nat)
  | readStream (stream : List α) (length : Nat)
  | reset

/-- How many were written, or how many were read and what is at the place they go to. -/
inductive QueueAnswer (α : Type) where
  | written (count : Nat)
  | read (count : Nat) (items : List α)
  | done
  deriving DecidableEq

namespace BoundedQueue

def empty : BoundedQueue α capacity := ⟨[], Nat.zero_le _⟩

def write (queue : BoundedQueue α capacity) (source : List α) : BoundedQueue α capacity where
  items := queue.items ++ source.take (capacity - queue.items.length)
  bounded := by
    have before := queue.bounded
    rw [List.length_append, List.length_take]
    omega

def read (queue : BoundedQueue α capacity) (length : Nat) : BoundedQueue α capacity where
  items := queue.items.drop length
  bounded := by
    rw [List.length_drop]
    exact Nat.le_trans (Nat.sub_le ..) queue.bounded

@[simp] theorem items_empty : (empty : BoundedQueue α capacity).items = [] := rfl

@[simp] theorem items_write (queue : BoundedQueue α capacity) (source : List α) :
    (queue.write source).items = queue.items ++ source.take (capacity - queue.items.length) := rfl

@[simp] theorem items_read (queue : BoundedQueue α capacity) (length : Nat) :
    (queue.read length).items = queue.items.drop length := rfl

def perform (queue : BoundedQueue α capacity) : QueueAction α → QueueAnswer α × BoundedQueue α capacity
  | .write source => (.written (min source.length (capacity - queue.items.length)), queue.write source)
  | .read length => (.read (min length queue.items.length) (queue.items.take length), queue.read length)
  | .readStream stream length =>
    (.read (min length queue.items.length) (stream ++ queue.items.take length), queue.read length)
  | .reset => (.done, empty)

end BoundedQueue
end Cassobee.Support
