import Mathlib.Logic.Function.Basic

/-! The wakeup handshake of `io/reactor.cpp` and `io/demultiplexer.cpp`. One thread runs the loop;
any number of threads add events. Every access to `_changelist`, `_wakeup` or the eventfd is one
step. -/

namespace Cassobee

/-- Where the loop stands: before `load_event`, before the store to `_wakeup`, in `epoll_wait`, or
before the eventfd's handler. -/
inductive LoopPc where
  | load | clear | wait | handle
  deriving DecidableEq, Repr

/-- `between` holds of a writer that has written its event and has not yet called `wakeup`. -/
structure Reactor (ω ε : Type) where
  pc : LoopPc
  wakeup : Bool
  eventfd : Nat
  changelist : List ε
  between : ω → Bool

inductive ReactorAction (ω ε : Type) where
  | loadEvent
  | clearWakeup
  | epollWait
  | drainEventfd
  | write (writer : ω) (event : ε)
  | wake (writer : ω)

namespace Reactor
variable {ω ε : Type}

def initial : Reactor ω ε := ⟨.load, false, 0, [], fun _ => false⟩

/-- `epoller::wakeup`. -/
def wake (reactor : Reactor ω ε) : Reactor ω ε :=
  if reactor.wakeup then reactor else { reactor with wakeup := true, eventfd := reactor.eventfd + 1 }

def step [DecidableEq ω] (reactor : Reactor ω ε) : ReactorAction ω ε → Option (Reactor ω ε)
  | .loadEvent => if reactor.pc = .load then some { reactor with pc := .clear, changelist := [] } else none
  | .clearWakeup => if reactor.pc = .clear then some { reactor with pc := .wait, wakeup := false } else none
  | .epollWait => if reactor.pc = .wait ∧ 0 < reactor.eventfd then some { reactor with pc := .handle } else none
  | .drainEventfd => if reactor.pc = .handle then some { reactor with pc := .load, eventfd := 0 } else none
  | .write writer event =>
    if reactor.between writer then
      none
    else
      some { reactor with
        changelist := reactor.changelist ++ [event]
        between := Function.update reactor.between writer true }
  | .wake writer =>
    if reactor.between writer then
      some { reactor.wake with between := Function.update reactor.between writer false }
    else
      none

end Reactor
end Cassobee
