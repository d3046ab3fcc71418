import Mathlib.Logic.Function.Basic

/-! `left_right` of `thread/left_right.h`, one atomic step after the other: any number of readers, and
one writer at a time. A reader counts itself on a counter of its own thread, of which each of the two
indicators has `n`; there are fewer threads than a counter can count. -/

namespace Cassobee

/-- `LEFT_RIGHT`, and the instance that it names. -/
inductive Side where
  | left | right
  deriving DecidableEq, Repr

def Side.other : Side → Side
  | .left => .right
  | .right => .left

/-- How far `apply_read` has come. -/
inductive ReaderStage where
  | idle
  | loaded (version : Bool)
  | arrived (version : Bool)
  | reading (version : Bool) (side : Side)
  deriving DecidableEq, Repr

/-- How far `apply_write` has come: `read` is what it has found in `_left_right`, and `version` what
`toggle_version_and_wait` has found in `_version_index`. -/
inductive WriterStage where
  | idle
  | mutating (read : Side)
  | stored (read : Side)
  | scanningNext (read : Side) (version : Bool) (idx : Nat)
  | scanningPrevious (read : Side) (version : Bool) (idx : Nat)
  | mutatingOther (read : Side)
  deriving DecidableEq, Repr

/-- The instance that the writer's function is applied to. -/
def WriterStage.mutates : WriterStage → Option Side
  | .mutating read => some read.other
  | .mutatingOther read => some read
  | _ => none

structure LeftRight (ρ : Type) (n : Nat) where
  leftRight : Side
  versionIndex : Bool
  counters : Bool → Fin n → Nat
  readers : ρ → ReaderStage
  writer : WriterStage

inductive LeftRightAction (ρ : Type) where
  | reader (thread : ρ)
  | writer
  deriving DecidableEq, Repr

namespace LeftRight
variable {ρ : Type} [DecidableEq ρ] {n : Nat} (slot : ρ → Fin n)

def initial : LeftRight ρ n := ⟨.left, false, fun _ _ => 0, fun _ => .idle, .idle⟩

def setCounter (lr : LeftRight ρ n) (version : Bool) (idx : Fin n) (value : Nat) : LeftRight ρ n :=
  { lr with counters := Function.update lr.counters version (Function.update (lr.counters version) idx value) }

def setReader (lr : LeftRight ρ n) (thread : ρ) (stage : ReaderStage) : LeftRight ρ n :=
  { lr with readers := Function.update lr.readers thread stage }

def readerStep (lr : LeftRight ρ n) (thread : ρ) : LeftRight ρ n :=
  match lr.readers thread with
  | .idle => lr.setReader thread (.loaded lr.versionIndex)
  | .loaded version =>
    (lr.setCounter version (slot thread) (lr.counters version (slot thread) + 1)).setReader thread (.arrived version)
  | .arrived version => lr.setReader thread (.reading version lr.leftRight)
  | .reading version _ =>
    (lr.setCounter version (slot thread) (lr.counters version (slot thread) - 1)).setReader thread .idle

/-- One counter of `is_empty`: the next index, or the first one again. -/
def scan (lr : LeftRight ρ n) (version : Bool) (idx : Fin n) : Nat :=
  if lr.counters version idx > 0 then 0 else idx + 1

def writerStep (lr : LeftRight ρ n) : LeftRight ρ n :=
  match lr.writer with
  | .idle => { lr with writer := .mutating lr.leftRight }
  | .mutating read => { lr with leftRight := read.other, writer := .stored read }
  | .stored read => { lr with writer := .scanningNext read lr.versionIndex 0 }
  | .scanningNext read version idx =>
    if more : idx < n then
      { lr with writer := .scanningNext read version (lr.scan (!version) ⟨idx, more⟩) }
    else
      { lr with versionIndex := !version, writer := .scanningPrevious read version 0 }
  | .scanningPrevious read version idx =>
    if more : idx < n then
      { lr with writer := .scanningPrevious read version (lr.scan version ⟨idx, more⟩) }
    else
      { lr with writer := .mutatingOther read }
  | .mutatingOther _ => { lr with writer := .idle }

def step (lr : LeftRight ρ n) : LeftRightAction ρ → LeftRight ρ n
  | .reader thread => lr.readerStep slot thread
  | .writer => lr.writerStep

end LeftRight
end Cassobee
