import Cassobee.Threadpool

/-! Calls of `thread_group::wait_for_all_done` on the groups of a pool. A call is asked again whenever its
thread has the lock: at its beginning, and when it is notified. -/

namespace Cassobee

/-- A call, and the tasks that its group had accepted before it. -/
structure WaitCall where
  thread : TaskThread
  group : Nat
  before : List Nat
  deriving DecidableEq, Repr

/-- `homes` has every task that a group has accepted with its group. `stopBefore` belongs to the call that
`stop` makes, and `returned` has the calls that have returned true. -/
structure Draining where
  pool : Pool
  homes : List (Nat × Nat)
  waiting : List WaitCall
  stopBefore : List Nat
  returned : List WaitCall

/-- `wake` is a call that has the lock, and `timeout` one that returns false. -/
inductive DrainingAction where
  | pool (action : ThreadpoolAction)
  | wait (thread : TaskThread) (group : Nat)
  | wake (call : WaitCall)
  | timeout (call : WaitCall)
  deriving DecidableEq, Repr

/-- The queue of the thread that asks counts as well. -/
def Pool.hasTask (pool : Pool) (thread : TaskThread) (group : Nat) : Bool :=
  pool.essential thread ≠ [] ∨ pool.queue group ≠ []

/-- The tasks of one group. -/
def acceptedBy (homes : List (Nat × Nat)) (group : Nat) : List Nat :=
  (homes.filter fun home => home.2 = group).map Prod.fst

namespace Draining

def initial : Draining := ⟨.initial, [], [], [], []⟩

variable (setting : PoolSetting)

/-- What a step of the pool means to the groups and to the calls. -/
def follow (draining : Draining) (action : ThreadpoolAction) (pool : Pool) : Draining :=
  let homes := match action with
    | .push task group =>
      if draining.pool.accepted.length < pool.accepted.length then (task, group) :: draining.homes else draining.homes
    | _ => draining.homes
  { draining with
    pool, homes
    stopBefore := match pool.stopping with
      | .waiting group => if draining.pool.stopping = .waiting group then draining.stopBefore else acceptedBy homes group
      | _ => draining.stopBefore
    returned := match draining.pool.stopping, pool.stopping with
      | .waiting group, .deleting _ => ⟨.other 0, group, draining.stopBefore⟩ :: draining.returned
      | _, _ => draining.returned }

/-- `none` if the group is deleted. -/
def wait (draining : Draining) (thread : TaskThread) (group : Nat) : Option Draining :=
  if group < setting.groups.length ∧ draining.pool.canCall thread then
    if draining.pool.deleted group then none
    else some { draining with waiting := ⟨thread, group, acceptedBy draining.homes group⟩ :: draining.waiting }
  else
    some draining

def wake (draining : Draining) (call : WaitCall) : Option Draining :=
  if call ∈ draining.waiting then
    if draining.pool.deleted call.group then none
    else if draining.pool.hasTask call.thread call.group then some draining
    else some { draining with waiting := draining.waiting.erase call, returned := call :: draining.returned }
  else
    some draining

def timeout (draining : Draining) (call : WaitCall) : Option Draining :=
  if call ∈ draining.waiting then
    if draining.pool.deleted call.group then none
    else some { draining with waiting := draining.waiting.erase call }
  else
    some draining

def step (draining : Draining) : DrainingAction → Option Draining
  | .pool action => (draining.pool.step setting action).map (draining.follow action)
  | .wait thread group => draining.wait setting thread group
  | .wake call => draining.wake call
  | .timeout call => draining.timeout call

end Draining
end Cassobee
