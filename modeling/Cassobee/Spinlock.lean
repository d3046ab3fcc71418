import Cassobee.DoubleBuffer
import Cassobee.Support.Linearizable

/-! `spinlock` and `atomic_spinlock` of `thread/lock.h`, and `one_reader_double_buffer` of
`thread/double_buffer.h` with its lock taken apart: any number of threads write, and one reads. -/

namespace Cassobee
open Support

/-- Where a thread spins in `lock`. `pausing` is the inner loop of `spinlock`, which only loads. -/
inductive SpinStage where
  | exchanging
  | pausing
  deriving DecidableEq, Repr

/-- One access in `lock`: `none` is that the lock is taken. `pauses` tells `spinlock` from
`atomic_spinlock`. -/
def lockStep (pauses flag : Bool) : SpinStage → Option SpinStage
  | .exchanging => if flag then some (if pauses then .pausing else .exchanging) else none
  | .pausing => some (if flag then .pausing else .exchanging)

/-- How far a call of `write` or `read` has come. -/
inductive BufferStage (γ τ : Type) where
  | outside
  | writeLocking (value : τ) (spin : SpinStage)
  | writeLocked (value : τ)
  | inserting (value : τ) (idx : Bool)
  | writeUnlocking
  | readLocking (spin : SpinStage)
  | readLocked
  | flipping (idx : Bool)
  | readUnlocking (idx : Bool)
  | reading (idx : Bool)
  | clearing (idx : Bool) (shown : γ)

inductive BufferOp (τ : Type) where
  | write (value : τ)
  | read
  deriving DecidableEq, Repr

structure LockedBuffer (ρ γ τ : Type) where
  flag : Bool
  writeidx : Bool
  buffer : Bool → γ
  stages : ρ → BufferStage γ τ

inductive LockedBufferAction (ρ τ : Type) where
  | call (thread : ρ) (op : BufferOp τ)
  | advance (thread : ρ)
  deriving DecidableEq, Repr

namespace LockedBuffer
variable {ρ γ τ : Type} [DecidableEq ρ] (methods : BufferMethods γ τ) (pauses : Bool) (reader : ρ)

def initial : LockedBuffer ρ γ τ := ⟨false, false, fun _ => methods.empty, fun _ => .outside⟩

def set (db : LockedBuffer ρ γ τ) (thread : ρ) (stage : BufferStage γ τ) : LockedBuffer ρ γ τ :=
  { db with stages := Function.update db.stages thread stage }

def setBuffer (db : LockedBuffer ρ γ τ) (idx : Bool) (content : γ) : LockedBuffer ρ γ τ :=
  { db with buffer := Function.update db.buffer idx content }

def advance (db : LockedBuffer ρ γ τ) (thread : ρ) : Option (LockedBuffer ρ γ τ) :=
  match db.stages thread with
  | .outside => none
  | .writeLocking value spin =>
    match lockStep pauses db.flag spin with
    | some spin => some (db.set thread (.writeLocking value spin))
    | none => some ({ db with flag := true }.set thread (.writeLocked value))
  | .writeLocked value => some (db.set thread (.inserting value db.writeidx))
  | .inserting value idx => some ((db.setBuffer idx (methods.insert (db.buffer idx) value)).set thread .writeUnlocking)
  | .writeUnlocking => some ({ db with flag := false }.set thread .outside)
  | .readLocking spin =>
    match lockStep pauses db.flag spin with
    | some spin => some (db.set thread (.readLocking spin))
    | none => some ({ db with flag := true }.set thread .readLocked)
  | .readLocked => some (db.set thread (.flipping db.writeidx))
  | .flipping idx => some ({ db with writeidx := !db.writeidx }.set thread (.readUnlocking idx))
  | .readUnlocking idx => some ({ db with flag := false }.set thread (.reading idx))
  | .reading idx => some (db.set thread (.clearing idx (db.buffer idx)))
  | .clearing idx _ => some ((db.setBuffer idx methods.empty).set thread .outside)

/-- Only `reader` calls `read`. -/
def step (db : LockedBuffer ρ γ τ) : LockedBufferAction ρ τ → Option (LockedBuffer ρ γ τ)
  | .call thread op =>
    match db.stages thread, op with
    | .outside, .write value => some (db.set thread (.writeLocking value .exchanging))
    | .outside, .read => if thread = reader then some (db.set thread (.readLocking .exchanging)) else none
    | _, _ => none
  | .advance thread => db.advance methods pauses thread

/-- The calls, and for `read` what the callback was shown. -/
def seen (db : LockedBuffer ρ γ τ) : LockedBufferAction ρ τ → List (Observation ρ (BufferOp τ) (Option γ))
  | .call thread op => [.call thread op]
  | .advance thread =>
    match db.stages thread with
    | .writeUnlocking => [.answer thread none]
    | .clearing _ shown => [.answer thread (some shown)]
    | _ => []

end LockedBuffer
end Cassobee
