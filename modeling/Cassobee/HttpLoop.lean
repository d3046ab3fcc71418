import Cassobee.HttpProtocol

/-! The loop of `httpprotocol::unpack` over any way of reading lines, so that what it does with lines
can be told from what `getline` makes of them. -/

namespace Cassobee.HttpM

def nextLineWith (getline : HttpM (Option (List UInt8))) : HttpM (Option (List UInt8)) := do
  match (← get).message.parseState with
  | .body | .chunkedData => return some []
  | _ => getline

def unpackLinesWith (getline : HttpM (Option (List UInt8))) : Nat → HttpM Unit
  | 0 => throw .noFuel
  | fuel + 1 => do
    match ← nextLineWith getline with
    | none => return
    | some line =>
      unpackLine line
      unpackLinesWith getline fuel

/-- The loop as it is. -/
theorem unpackLines_eq (fuel : Nat) : unpackLines fuel = unpackLinesWith (getline 10) fuel := by
  induction fuel with
  | zero => rfl
  | succ fuel ih =>
    rw [unpackLines, unpackLinesWith, ih]
    rfl

end Cassobee.HttpM
