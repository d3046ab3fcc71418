import Cassobee.Octets
import Mathlib.Logic.Function.Basic

/-! The life of `octets` objects, each under a name: constructors, assignments, moves and the destructor of
`common/octets.h`, and the methods that change an object. -/

namespace Cassobee

/-- Bytes with their number, or a string up to its zero. -/
inductive CharData where
  | sized (data : List UInt8)
  | terminated (text : List UInt8)
  deriving DecidableEq, Repr

def CharData.bytes : CharData → List UInt8
  | .sized data => data
  | .terminated text => text.takeWhile fun byte => byte ≠ 0

/-- The objects that there are. -/
abbrev OctetsObjects (ι : Type) := ι → Option Octets

inductive OctetsAction (ι : Type) where
  | construct (self : ι)
  | constructFrom (self : ι) (data : CharData)
  | constructCopy (self oct : ι)
  | constructPrefix (self oct : ι) (len : Nat)
  | constructMove (self oct : ι)
  | destruct (self : ι)
  | assign (self : ι) (data : CharData)
  | assignCopy (self rhs : ι)
  | assignMove (self rhs : ι)
  | swap (self rhs : ι)
  | append (self : ι) (data : CharData)
  | appendByte (self : ι) (ch : UInt8)
  | insert (self : ι) (pos : Nat) (data : List UInt8)
  | replace (self : ι) (pos : Nat) (data : List UInt8)
  | erase (self : ι) (pos len : Nat)
  | reserve (self : ι) (cap : Nat)
  | clear (self : ι)
  deriving DecidableEq, Repr

namespace OctetsObjects
variable {ι : Type} [DecidableEq ι] (objects : OctetsObjects ι)

/-- The object is there with this block. -/
def set (self : ι) (oct : Octets) : OctetsObjects ι := Function.update objects self (some oct)

def create (self : ι) (oct : Octets) : Option (OctetsObjects ι) :=
  match objects self with
  | none => some (objects.set self oct)
  | some _ => none

/-- An exception leaves the object as it was. -/
def modify (self : ι) (method : Octets → Except Thrown Octets) : Option (OctetsObjects ι) :=
  match objects self with
  | none => none
  | some oct =>
    match method oct with
    | .ok oct => some (objects.set self oct)
    | .error .abort => none
    | .error _ => some objects

def swap (self rhs : ι) : Option (OctetsObjects ι) := do
  let one ← objects self
  let other ← objects rhs
  return (objects.set self other).set rhs one

/-- A step on an object that is not there, or that is there already, is none, and so is one that reads bytes which its
source does not have, or that ends the process. -/
def perform : OctetsAction ι → Option (OctetsObjects ι)
  | .construct self => objects.create self .new
  | .constructFrom self data => objects.create self (.create data.bytes data.bytes.length data.bytes.length)
  | .constructCopy self oct => do
    let oct ← objects oct
    objects.create self (.create oct.buf oct.len oct.cap)
  | .constructPrefix self oct len => do
    let oct ← objects oct
    if len ≤ oct.len then objects.create self (.create oct.buf len len) else none
  | .constructMove self oct => do
    -- The new object has no block yet, and swaps with the other one.
    let objects ← objects.create self ⟨[], 0⟩
    objects.swap self oct
  | .destruct self => do
    let _ ← objects self
    return Function.update objects self none
  | .assign self data => objects.modify self fun _ => .ok (.create data.bytes data.bytes.length data.bytes.length)
  | .assignCopy self rhs => do
    let oct ← objects rhs
    objects.modify self fun lhs => .ok (if rhs = self then lhs else .create oct.buf oct.len oct.cap)
  | .assignMove self rhs => if rhs = self then objects.modify self .ok else objects.swap self rhs
  | .swap self rhs => objects.swap self rhs
  | .append self data => objects.modify self fun oct => oct.append data.bytes
  | .appendByte self ch => objects.modify self fun oct => oct.appendByte ch
  | .insert self pos data => objects.modify self fun oct => oct.insert pos data
  | .replace self pos data => objects.modify self fun oct => oct.replace pos data
  | .erase self pos len => objects.modify self fun oct => .ok (oct.erase pos len)
  | .reserve self cap => objects.modify self fun oct => oct.reserve cap
  | .clear self => objects.modify self fun oct => .ok oct.clear

end OctetsObjects
end Cassobee
