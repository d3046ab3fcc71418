import Cassobee.Marshal

/-! Code that reads from a stream under a transaction: an `unpack`, or what stands between a `BEGIN` and
its `ROLLBACK`. An exception in it ends it, and the rollback follows all the same. -/

namespace Cassobee

/-- The stream that a call leaves, whether it returns or throws. -/
def left {α : Type} : EStateM.Result Thrown Octetsstream α → Octetsstream
  | .ok _ os => os
  | .error _ os => os

/-- Code that uses the stream for nothing but pops. It may throw at any point. -/
inductive PopsOnly : {α : Type} → StreamM α → Prop where
  | pure {α : Type} (value : α) : PopsOnly (pure value)
  | throw {α : Type} (thrown : Thrown) : PopsOnly (throw thrown : StreamM α)
  | pop {b : Bool} {α : Type} (type : Ty b α) (destination : α) : PopsOnly (type.pop destination)
  | bind {α β : Type} {first : StreamM α} {next : α → StreamM β} (start : PopsOnly first)
      (rest : ∀ value, PopsOnly (next value)) : PopsOnly (first >>= next)

inductive StreamAction where
  | pop (call : { call : StreamM Unit // PopsOnly call })
  | transaction (kind : Transaction)

def StreamAction.perform : StreamAction → StreamM Unit
  | .pop call => call.val
  | .transaction kind => popTransaction kind

def performAll : List StreamAction → StreamM Unit
  | [] => pure ()
  | action :: actions => do
    action.perform
    performAll actions

/-- Every `BEGIN` has its `COMMIT` or `ROLLBACK`. -/
inductive Nested : List StreamAction → Prop where
  | nil : Nested []
  | pop (call : { call : StreamM Unit // PopsOnly call }) {rest : List StreamAction} (next : Nested rest) :
      Nested (.pop call :: rest)
  | commit {body rest : List StreamAction} (inner : Nested body) (next : Nested rest) :
      Nested (.transaction .begin :: body ++ .transaction .commit :: rest)
  | rollback {body rest : List StreamAction} (inner : Nested body) (next : Nested rest) :
      Nested (.transaction .begin :: body ++ .transaction .rollback :: rest)

/-- What `BEGIN`, the actions and `ROLLBACK` leave. -/
def attempt (os : Octetsstream) (actions : List StreamAction) : Octetsstream :=
  left (popTransaction .rollback (left (performAll actions { os with transpos := os.pos })))

end Cassobee
