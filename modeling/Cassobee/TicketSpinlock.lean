import Mathlib.Algebra.Group.Nat.Defs
import Mathlib.Logic.Function.Basic

/-! `ticket_spinlock` of `thread/lock.h`, one atomic access after the other. -/

namespace Cassobee

structure TicketSpinlock where
  serving : UInt32 := 0
  nextTicket : UInt32 := 0
  deriving DecidableEq, Repr

/-- How far a thread has come: `waiting` in `lock` with its ticket, `trying` in `try_lock` with what it has read of
`_next_ticket`. It is `holding` once `lock` has returned, or `try_lock` with `true`. -/
inductive TicketStage where
  | idle
  | waiting (ticket : UInt32)
  | trying (ticket : UInt32)
  | holding
  deriving DecidableEq, Repr

/-- The lock and its threads. `released` counts the calls of `unlock`; `admitted` has the ticket of each admission by
`lock`, with the count at that time. -/
structure TicketThreads (ρ : Type) where
  lock : TicketSpinlock
  threads : ρ → TicketStage
  released : Nat
  admitted : List (UInt32 × Nat)

/-- The accesses: `fetch_add` and one load of the loop in `lock`, the two loads of `try_lock`, and `unlock`. -/
inductive TicketAction (ρ : Type) where
  | lock (thread : ρ)
  | spin (thread : ρ)
  | tryLoad (thread : ρ)
  | tryCompare (thread : ρ)
  | unlock (thread : ρ)
  deriving DecidableEq, Repr

namespace TicketThreads
variable {ρ : Type} [DecidableEq ρ]

def initial : TicketThreads ρ := ⟨{}, fun _ => .idle, 0, []⟩

def setThread (state : TicketThreads ρ) (thread : ρ) (stage : TicketStage) : TicketThreads ρ :=
  { state with threads := Function.update state.threads thread stage }

theorem setThread_self (state : TicketThreads ρ) (thread : ρ) (stage : TicketStage) :
    (state.setThread thread stage).threads thread = stage := Function.update_self ..

theorem setThread_of_ne {thread other : ρ} (away : other ≠ thread) (state : TicketThreads ρ) (stage : TicketStage) :
    (state.setThread thread stage).threads other = state.threads other := Function.update_of_ne away ..

/-- A step that the thread cannot take now is none. -/
def step (state : TicketThreads ρ) : TicketAction ρ → Option (TicketThreads ρ)
  | .lock thread =>
    match state.threads thread with
    | .idle =>
      let ticket := state.lock.nextTicket
      some (setThread { state with lock.nextTicket := ticket + 1 } thread (.waiting ticket))
    | _ => none
  | .spin thread =>
    match state.threads thread with
    | .waiting ticket =>
      if state.lock.serving ≠ ticket then some state
      else some (setThread { state with admitted := state.admitted ++ [(ticket, state.released)] } thread .holding)
    | _ => none
  | .tryLoad thread =>
    match state.threads thread with
    | .idle => some (state.setThread thread (.trying state.lock.nextTicket))
    | _ => none
  | .tryCompare thread =>
    match state.threads thread with
    | .trying ticket => some (state.setThread thread (if state.lock.serving = ticket then .holding else .idle))
    | _ => none
  | .unlock thread =>
    match state.threads thread with
    | .holding =>
      let state := { state with lock.serving := state.lock.serving + 1, released := state.released + 1 }
      some (state.setThread thread .idle)
    | _ => none

end TicketThreads
end Cassobee
