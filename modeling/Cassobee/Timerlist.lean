import Cassobee.Varint
import Mathlib.Logic.Function.Basic

/-! The `timerlist` of `common/timewheel.h`. A node is its index in the timer pool. The wheel's code
is written against the operations of `TimerLists`; `Links` has them as the source does, through the
fields of the nodes, and `Sequences` has each list as the sequence of its nodes. -/

namespace Cassobee

/-- `active` is the local list of `handle_timer`. -/
inductive ListName where
  | near (slot : Nat)
  | hanging
  | change (index : Bool)
  | active
  deriving DecidableEq, Repr

/-- `C` is what a loop over a list goes on from; `next` gives the node it has arrived at and where it
goes from there. `none` stands for an assertion that fails or a null pointer that is followed. -/
class TimerLists (S : Type) (C : outParam Type) where
  assign : Nat → S → S
  pushBack : ListName → Nat → S → Option S
  pop : ListName → Nat → S → Option S
  clear : ListName → S → S
  swap : ListName → ListName → S → S
  count : ListName → S → Nat
  head : ListName → S → C
  next : C → S → Option (Nat × C)

/-- `_prev` and `_next` of every node, `head` and `count` of every list. -/
structure Links where
  prev : Nat → Option Nat
  next : Nat → Option Nat
  head : ListName → Option Nat
  count : ListName → Nat

namespace Links

def new : Links := ⟨fun _ => none, fun _ => none, fun _ => none, fun _ => 0⟩

def assign (t : Nat) (links : Links) : Links :=
  { links with prev := Function.update links.prev t none, next := Function.update links.next t none }

def pushBack (name : ListName) (t : Nat) (links : Links) : Option Links :=
  let count := Function.update links.count name (links.count name + 1)
  match links.head name with
  | some head => do
    let tail ← links.prev head
    return { links with
      prev := Function.update (Function.update links.prev t (some tail)) head (some t)
      next := Function.update (Function.update links.next t (some head)) tail (some t)
      count }
  | none =>
    some {
      prev := Function.update links.prev t (some t)
      next := Function.update links.next t (some t)
      head := Function.update links.head name (some t)
      count }

/-- A list of one node leaves the node's links as they are. -/
def pop (name : ListName) (t : Nat) (links : Links) : Option Links := do
  let head ← links.head name
  if t = head ∧ links.count name = 1 then
    return { links with
      head := Function.update links.head name none
      count := Function.update links.count name 0 }
  else
    let after ← links.next t
    let before ← links.prev t
    return {
      prev := Function.update (Function.update links.prev after (some before)) t none
      next := Function.update (Function.update links.next before (some after)) t none
      head := if t = head then Function.update links.head name (some after) else links.head
      count := Function.update links.count name ((links.count name + wordSize - 1) % wordSize) }

def clear (name : ListName) (links : Links) : Links :=
  { links with
    head := Function.update links.head name none
    count := Function.update links.count name 0 }

def swap (one two : ListName) (links : Links) : Links :=
  { links with
    head := Function.update (Function.update links.head one (links.head two)) two (links.head one)
    count := Function.update (Function.update links.count one (links.count two)) two (links.count one) }

instance : TimerLists Links (Option Nat) where
  assign := assign
  pushBack := pushBack
  pop := pop
  clear := clear
  swap := swap
  count name links := links.count name
  head name links := links.head name
  next cursor links := cursor.map fun t => (t, links.next t)

end Links

abbrev Sequences : Type := ListName → List Nat

namespace Sequences

def new : Sequences := fun _ => []

def pushBack (name : ListName) (t : Nat) (lists : Sequences) : Sequences :=
  Function.update lists name (lists name ++ [t])

def pop (name : ListName) (t : Nat) (lists : Sequences) : Option Sequences :=
  if lists name = [] then none else some (Function.update lists name ((lists name).erase t))

def clear (name : ListName) (lists : Sequences) : Sequences := Function.update lists name []

def swap (one two : ListName) (lists : Sequences) : Sequences :=
  Function.update (Function.update lists one (lists two)) two (lists one)

instance : TimerLists Sequences (List Nat) where
  assign _ lists := lists
  pushBack name t lists := some (lists.pushBack name t)
  pop := pop
  clear := clear
  swap := swap
  count name lists := (lists name).length
  head name lists := lists name
  next
    | [], _ => none
    | t :: rest, _ => some (t, rest)

end Sequences
end Cassobee
