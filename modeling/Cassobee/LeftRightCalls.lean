import Cassobee.LeftRight
import Cassobee.Support.Linearizable

/-! `apply_read` and `apply_write` of `thread/left_right.h` with the two instances and the functions that
are applied to them. Any thread may call either; writers wait for `_writer_lock`. A function does the
same each time it is applied to the same content. -/

namespace Cassobee
open Support

/-- A function that is passed, and what it does to an instance. -/
inductive LeftRightOp (γ β : Type) where
  | read (func : γ → β)
  | write (func : γ → β × γ)

/-- What a function does to one content that nobody else sees. -/
def LeftRightOp.apply {γ β : Type} : LeftRightOp γ β → γ → Option β × γ
  | .read func, content => (some (func content), content)
  | .write func, content => (some (func content).1, (func content).2)

/-- What a thread is in. `answer` is what the function of `apply_read` has returned. -/
inductive LeftRightCall (γ β : Type) where
  | outside
  | reading (func : γ → β) (answer : Option (Option β))
  | waiting (func : γ → β × γ)
  | writing (func : γ → β × γ)

structure LeftRightObject (ρ : Type) (n : Nat) (γ β : Type) where
  control : LeftRight ρ n
  inst : Side → γ
  calls : ρ → LeftRightCall γ β

inductive LeftRightMove (ρ γ β : Type) where
  | call (thread : ρ) (op : LeftRightOp γ β)
  | advance (thread : ρ)

namespace LeftRightObject
variable {ρ : Type} [DecidableEq ρ] {n : Nat} {γ β : Type} (slot : ρ → Fin n)

/-- Both instances are constructed from the same arguments. -/
def new (content : γ) : LeftRightObject ρ n γ β := ⟨.initial, fun _ => content, fun _ => .outside⟩

def setCall (object : LeftRightObject ρ n γ β) (thread : ρ) (call : LeftRightCall γ β) : LeftRightObject ρ n γ β :=
  { object with calls := Function.update object.calls thread call }

/-- The function of `apply_write` has come to its end on one instance. -/
def mutate (object : LeftRightObject ρ n γ β) (side : Side) (func : γ → β × γ) : LeftRightObject ρ n γ β :=
  { object with inst := Function.update object.inst side (func (object.inst side)).2 }

/-- The function of `apply_read` reads no content of an instance that is being mutated. -/
def view (object : LeftRightObject ρ n γ β) (side : Side) (func : γ → β) : Option β :=
  if object.control.writer.mutates = some side then none else some (func (object.inst side))

/-- A reader arrives and loads `_left_right`, applies its function, and departs. -/
def readerStep (object : LeftRightObject ρ n γ β) (thread : ρ) (func : γ → β) (answer : Option (Option β)) :
    LeftRightObject ρ n γ β :=
  match object.control.readers thread, answer with
  | .reading _ side, none => object.setCall thread (.reading func (some (object.view side func)))
  | .reading _ _, some _ => { object with control := object.control.readerStep slot thread }.setCall thread .outside
  | _, _ => { object with control := object.control.readerStep slot thread }

def writerStep (object : LeftRightObject ρ n γ β) (thread : ρ) (func : γ → β × γ) : LeftRightObject ρ n γ β :=
  match object.control.writer with
  | .mutating read => { object.mutate read.other func with control := object.control.writerStep }
  | .mutatingOther read => { object.mutate read func with control := object.control.writerStep }.setCall thread .outside
  | _ => { object with control := object.control.writerStep }

def step (object : LeftRightObject ρ n γ β) : LeftRightMove ρ γ β → Option (LeftRightObject ρ n γ β)
  | .call thread op =>
    match object.calls thread, op with
    | .outside, .read func => some (object.setCall thread (.reading func none))
    | .outside, .write func => some (object.setCall thread (.waiting func))
    | _, _ => none
  | .advance thread =>
    match object.calls thread with
    | .outside => none
    | .reading func answer => some (object.readerStep slot thread func answer)
    | .waiting func =>
      if object.control.writer = .idle then
        some ({ object with control := object.control.writerStep }.setCall thread (.writing func))
      else
        none
    | .writing func => some (object.writerStep thread func)

/-- The calls and what they return. -/
def seen (object : LeftRightObject ρ n γ β) : LeftRightMove ρ γ β → List (Observation ρ (LeftRightOp γ β) (Option β))
  | .call thread op => [.call thread op]
  | .advance thread =>
    match object.calls thread with
    | .reading _ (some answer) => [.answer thread answer]
    | .writing func =>
      match object.control.writer with
      | .mutatingOther read => [.answer thread (some (func (object.inst read)).1)]
      | _ => []
    | _ => []

end LeftRightObject
end Cassobee
