import Mathlib.Logic.Function.Basic

/-! `threadpool` and `thread_group` of `thread/threadpool.cpp`. What is done under a `_queue_lock` is one
step; in between, the steps of all threads come in any order. A task is named by the number of tasks
before it. -/

namespace Cassobee

/-- The threads that a pool has started, and the others; `other 0` is the one that calls `stop`. -/
inductive TaskThread where
  | worker (group idx : Nat)
  | other (id : Nat)
  deriving DecidableEq, Repr

/-- Where a worker is in its loop: before it takes the lock, with groups left to steal from, in
`_cond.wait`, with a task, or out of it. -/
inductive WorkerAt where
  | ready
  | stealing (rest : List Nat)
  | blocked
  | running (task : Nat)
  | exited
  deriving DecidableEq, Repr

/-- What `stop` will do next. -/
inductive StopAt where
  | notCalled
  | waiting (group : Nat)
  | deleting (group : Nat)
  | joining (group : Nat)
  | returned
  deriving DecidableEq, Repr

/-- `maxsize` and `threadcnt` of each group. -/
structure PoolSetting where
  groups : List (Nat × Nat)
  steal : Bool

def PoolSetting.maxsize (setting : PoolSetting) (group : Nat) : Nat := (setting.groups[group]?.map Prod.fst).getD 0

def PoolSetting.threadcnt (setting : PoolSetting) (group : Nat) : Nat := (setting.groups[group]?.map Prod.snd).getD 0

/-- `adding` has the calls of `add_task` that have found `_stop` to be false. `accepted`, `refused` and
`ran` say what has come about; a task that was refused was destroyed. -/
structure Pool where
  stop : Bool
  groupStop : Nat → Bool
  deleted : Nat → Bool
  queue : Nat → List Nat
  essential : TaskThread → List Nat
  worker : Nat × Nat → WorkerAt
  adding : List (Nat × Nat)
  stopping : StopAt
  tasks : Nat
  accepted : List Nat
  refused : List Nat
  ran : List Nat

/-- `offset` is the random number of `try_steal_one`, and `owns` whether it gets the lock. -/
inductive ThreadpoolAction where
  | addTask (group : Nat)
  | push (task group : Nat)
  | addEssential (thread : TaskThread)
  | work (group idx offset : Nat) (owns : Bool)
  | stop
  deriving DecidableEq, Repr

namespace Pool

def initial : Pool :=
  ⟨false, fun _ => false, fun _ => false, fun _ => [], fun _ => [], fun _ => .ready, [], .notCalled, 0, [], [], []⟩

variable (setting : PoolSetting)

def refuse (pool : Pool) (task : Nat) : Pool := { pool with refused := task :: pool.refused }

/-- The first half of `threadpool::add_task`. -/
def addTask (pool : Pool) (group : Nat) : Pool :=
  if group < setting.groups.length then
    let pool' := { pool with tasks := pool.tasks + 1 }
    if pool.stop then pool'.refuse pool.tasks else { pool' with adding := (pool.tasks, group) :: pool.adding }
  else
    pool

/-- `thread_group::add_task`; `none` if the group is deleted. -/
def push (pool : Pool) (task group : Nat) : Option Pool :=
  if (task, group) ∈ pool.adding then
    let pool' := { pool with adding := pool.adding.erase (task, group) }
    if pool.deleted group then none
    else if (pool.queue group).length ≥ setting.maxsize group then some (pool'.refuse task)
    else if pool.groupStop group then some (pool'.refuse task)
    else some { pool' with
      queue := Function.update pool.queue group (pool.queue group ++ [task])
      accepted := task :: pool.accepted }
  else
    some pool

/-- A worker calls from the task that it runs. -/
def canCall (pool : Pool) : TaskThread → Bool
  | .worker group idx => match pool.worker (group, idx) with
    | .running _ => true
    | _ => false
  | .other _ => true

/-- The queue is the one of the thread that calls. -/
def addEssential (pool : Pool) (thread : TaskThread) : Pool :=
  if pool.canCall thread then
    let pool' := { pool with tasks := pool.tasks + 1 }
    if pool.stop then pool'.refuse pool.tasks
    else { pool' with
      essential := Function.update pool.essential thread (pool.essential thread ++ [pool.tasks])
      accepted := pool.tasks :: pool.accepted }
  else
    pool

def setWorker (pool : Pool) (group idx : Nat) (stage : WorkerAt) : Pool :=
  { pool with worker := Function.update pool.worker (group, idx) stage }

/-- What a worker does with the lock of its group: it takes a task, leaves, or goes on as `otherwise`. -/
def take (pool : Pool) (group idx : Nat) (otherwise : WorkerAt) : Pool :=
  match pool.essential (.worker group idx) with
  | task :: rest =>
    { pool with essential := Function.update pool.essential (.worker group idx) rest }.setWorker group idx (.running task)
  | [] => match pool.queue group with
    | task :: rest => { pool with queue := Function.update pool.queue group rest }.setWorker group idx (.running task)
    | [] => if pool.groupStop group then pool.setWorker group idx .exited else pool.setWorker group idx otherwise

/-- The groups in the order in which `try_steal_one` goes through them. -/
def stealOrder (group offset : Nat) : List Nat :=
  ((List.range setting.groups.length).map fun i => (offset + i) % setting.groups.length).filter fun idx => idx ≠ group

/-- `none` if the group is deleted or `front` is called on an empty queue. -/
def trySteal (pool : Pool) (group idx victim : Nat) (rest : List Nat) (owns : Bool) : Option Pool :=
  if pool.deleted victim then none
  else if owns ∧ (pool.essential (.worker group idx) ≠ [] ∨ pool.queue victim ≠ []) then
    match pool.queue victim with
    | task :: left => some ({ pool with queue := Function.update pool.queue victim left }.setWorker group idx (.running task))
    | [] => none
  else
    some (pool.setWorker group idx (.stealing rest))

def work (pool : Pool) (group idx offset : Nat) (owns : Bool) : Option Pool :=
  if idx < setting.threadcnt group then
    match pool.worker (group, idx) with
    | .ready => some (pool.take group idx (if setting.steal then .stealing (stealOrder setting group offset) else .blocked))
    | .stealing [] => some (pool.setWorker group idx .blocked)
    | .stealing (victim :: rest) => pool.trySteal group idx victim rest owns
    | .blocked => some (pool.take group idx .blocked)
    | .running task => some ({ pool with ran := task :: pool.ran }.setWorker group idx .ready)
    | .exited => some pool
  else
    some pool

/-- The next step of `threadpool::stop`, if it does not have to wait. -/
def stopStep (pool : Pool) : Pool :=
  match pool.stopping with
  | .notCalled => { pool with stop := true, stopping := .waiting 0 }
  | .waiting group =>
    if group < setting.groups.length then
      -- `wait_for_all_done` asks `has_task` on the thread that calls it
      if pool.essential (.other 0) = [] ∧ pool.queue group = [] then { pool with stopping := .deleting group } else pool
    else
      { pool with stopping := .returned }
  | .deleting group =>
    { pool with groupStop := Function.update pool.groupStop group true, stopping := .joining group }
  | .joining group =>
    if ∀ idx < setting.threadcnt group, pool.worker (group, idx) = .exited then
      { pool with deleted := Function.update pool.deleted group true, stopping := .waiting (group + 1) }
    else
      pool
  | .returned => pool

def step (pool : Pool) : ThreadpoolAction → Option Pool
  | .addTask group => some (pool.addTask setting group)
  | .push task group => pool.push setting task group
  | .addEssential thread => some (pool.addEssential thread)
  | .work group idx offset owns => pool.work setting group idx offset owns
  | .stop => some (pool.stopStep setting)

end Pool
end Cassobee
