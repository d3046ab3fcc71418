/-! `async_threadpool` of `thread/async_threadpool.h`. What is done under `_queue_lock` is one step, and so is
the test of a `_cond.wait` with the sleep that follows it. Everybody sleeps on the one `_cond`. -/

namespace Cassobee

/-- Where a worker is: at the lock, asleep, with a task before and behind `++_busy`, before `--_busy`, before
the lock behind it, or out of its loop. -/
inductive AsyncWorker (τ : Type) where
  | ready
  | asleep
  | taken (task : τ)
  | running (task : τ)
  | ended
  | leaving
  | exited
  deriving DecidableEq, Repr

/-- A call of `wait_for_all_done`, and what it has returned. -/
inductive AsyncCaller where
  | asleep (timed : Bool)
  | woken (timed : Bool)
  | returned (all : Bool)
  deriving DecidableEq, Repr

/-- How far `stop` is: `_stop` is set in `signalling`, and `joining` counts the threads that are joined. -/
inductive AsyncStopping where
  | notCalled
  | signalling
  | joining (joined : Nat)
  | returned
  deriving DecidableEq, Repr

/-- `notifies` counts the calls of `add_task` before their `notify_one`. `accepted`, `started` and `ran` record
the tasks that got into the queue, left it, and were over. -/
structure AsyncThreadpool (τ : Type) where
  stop : Bool
  tasks : List τ
  busy : Nat
  workers : List (AsyncWorker τ)
  callers : List AsyncCaller
  notifies : Nat
  stopping : AsyncStopping
  accepted : List τ
  started : List τ
  ran : List τ
  deriving DecidableEq, Repr

inductive AsyncSleeper where
  | worker (idx : Nat)
  | caller (id : Nat)
  deriving DecidableEq, Repr

/-- `wake` is what `_cond` may do at any time, and `timeout` the end of a `wait_for`. -/
inductive AsyncThreadpoolAction (τ : Type) where
  | init
  | addTask (task : τ)
  | notifyOne (sleeper : Option AsyncSleeper)
  | wake (sleeper : AsyncSleeper)
  | work (idx : Nat)
  | waitForAllDone (timed : Bool)
  | resume (id : Nat)
  | timeout (id : Nat)
  | stop
  deriving DecidableEq, Repr

namespace AsyncWorker
variable {τ : Type}

def isAsleep : AsyncWorker τ → Bool
  | .asleep => true
  | _ => false

def isReady : AsyncWorker τ → Bool
  | .ready => true
  | _ => false

def rouse : AsyncWorker τ → AsyncWorker τ
  | .asleep => .ready
  | worker => worker

end AsyncWorker

namespace AsyncCaller

def isAsleep : AsyncCaller → Bool
  | .asleep _ => true
  | _ => false

def rouse : AsyncCaller → AsyncCaller
  | .asleep timed => .woken timed
  | caller => caller

end AsyncCaller

namespace AsyncThreadpool
variable {τ : Type}

/-- The constructor. -/
def new : AsyncThreadpool τ := ⟨true, [], 0, [], [], 0, .notCalled, [], [], []⟩

def setWorker (pool : AsyncThreadpool τ) (idx : Nat) (worker : AsyncWorker τ) : AsyncThreadpool τ :=
  { pool with workers := pool.workers.set idx worker }

def setCaller (pool : AsyncThreadpool τ) (id : Nat) (caller : AsyncCaller) : AsyncThreadpool τ :=
  { pool with callers := pool.callers.set id caller }

def notifyAll (pool : AsyncThreadpool τ) : AsyncThreadpool τ :=
  { pool with workers := pool.workers.map (·.rouse), callers := pool.callers.map (·.rouse) }

/-- One that sleeps wakes up. -/
def wake (pool : AsyncThreadpool τ) : AsyncSleeper → Option (AsyncThreadpool τ)
  | .worker idx =>
    match pool.workers[idx]? with
    | some .asleep => some (pool.setWorker idx .ready)
    | _ => none
  | .caller id =>
    match pool.callers[id]? with
    | some (.asleep timed) => some (pool.setCaller id (.woken timed))
    | _ => none

def nobodySleeps (pool : AsyncThreadpool τ) : Bool :=
  !pool.workers.any (·.isAsleep) && !pool.callers.any (·.isAsleep)

/-- `_cond.notify_one()`: nothing happens only if nobody sleeps. -/
def notifyOne (pool : AsyncThreadpool τ) (sleeper : Option AsyncSleeper) : Option (AsyncThreadpool τ) :=
  match pool.notifies, sleeper with
  | 0, _ => none
  | notifies + 1, none => if pool.nobodySleeps then some { pool with notifies } else none
  | notifies + 1, some sleeper => ({ pool with notifies } : AsyncThreadpool τ).wake sleeper

/-- The worker with the lock at the top of its loop. -/
def take (pool : AsyncThreadpool τ) (idx : Nat) : AsyncThreadpool τ :=
  match pool.tasks with
  | task :: tasks => { pool with tasks, started := pool.started ++ [task] }.setWorker idx (.taken task)
  | [] => pool.setWorker idx (if pool.stop then .exited else .asleep)

def work (pool : AsyncThreadpool τ) (idx : Nat) : Option (AsyncThreadpool τ) :=
  match pool.workers[idx]? with
  | some .ready => some (pool.take idx)
  | some (.taken task) => some ({ pool with busy := pool.busy + 1 }.setWorker idx (.running task))
  | some (.running task) => some ({ pool with ran := pool.ran ++ [task] }.setWorker idx .ended)
  | some .ended => some ({ pool with busy := pool.busy - 1 }.setWorker idx .leaving)
  | some .leaving =>
    let left := pool.setWorker idx .ready
    some (if pool.busy = 0 ∧ pool.tasks = [] then left.notifyAll else left)
  | _ => none

/-- The next step of `stop`, if it does not have to wait. -/
def stopStep (threads : Nat) (pool : AsyncThreadpool τ) : Option (AsyncThreadpool τ) :=
  match pool.stopping with
  | .notCalled => if pool.workers.length = threads then some { pool with stop := true, stopping := .signalling } else none
  | .signalling => some { pool.notifyAll with stopping := .joining 0 }
  | .joining joined =>
    if joined < threads then
      match pool.workers[joined]? with
      | some .exited => some { pool with stopping := .joining (joined + 1) }
      | _ => none
    else
      some { pool with workers := [], stopping := .returned }
  | .returned => none

/-- An `add_task` that finds `_stop` throws. `init` may come again when `stop` has returned. -/
def step (threads : Nat) (pool : AsyncThreadpool τ) : AsyncThreadpoolAction τ → Option (AsyncThreadpool τ)
  | .init =>
    if pool.workers = [] ∧ (pool.stopping = .notCalled ∨ pool.stopping = .returned) then
      some { pool with stop := false, workers := List.replicate threads .ready, stopping := .notCalled }
    else
      none
  | .addTask task =>
    some (if pool.stop then pool else
      { pool with
        tasks := pool.tasks ++ [task]
        notifies := pool.notifies + 1
        accepted := pool.accepted ++ [task] })
  | .notifyOne sleeper => pool.notifyOne sleeper
  | .wake sleeper => pool.wake sleeper
  | .work idx => pool.work idx
  | .waitForAllDone timed =>
    some { pool with callers := pool.callers ++ [if pool.tasks.isEmpty then .returned true else .asleep timed] }
  | .resume id =>
    match pool.callers[id]? with
    | some (.woken timed) => some (pool.setCaller id (if pool.tasks.isEmpty then .returned true else .asleep timed))
    | _ => none
  | .timeout id =>
    match pool.callers[id]? with
    | some (.asleep true) => some (pool.setCaller id (.returned pool.tasks.isEmpty))
    | _ => none
  | .stop => pool.stopStep threads

end AsyncThreadpool
end Cassobee
