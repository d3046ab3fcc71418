import Cassobee.Timerlist

/-! The timer wheel of `common/timewheel.cpp`. Calls of `add_timer` and `del_timer` and ticks are
atomic; handlers may call both. `_tickcount` counts without end here, and differences with it are
those of `uint64_t`. -/

namespace Cassobee

def nearSlots : Nat := 4096

inductive TimerState where
  | none | active | add | del | mod
  deriving DecidableEq, Repr

/-- A node of the pool. `uid` numbers the accepted timers, and so stands for the handler and its
parameter. -/
structure TimerNode where
  uid : Nat
  timeout : Int
  nexttime : Int
  repeats : Int
  state : TimerState
  deriving DecidableEq, Repr

structure AddRequest where
  delay : Bool
  timeout : Int
  repeats : Int
  lower : -2 ^ 63 ≤ timeout := by decide
  upper : timeout < 2 ^ 63 := by decide

/-- With a tick of one unit, this runs at every tick. -/
def everyTick : AddRequest := ⟨true, 1, -1, by decide, by decide⟩

inductive TimerCall where
  | add (request : AddRequest)
  | del (timerid : Nat)

/-- What a handler does when it is run, and what it returns. -/
structure HandlerOutcome where
  calls : List TimerCall
  result : Bool

/-- What has happened, for reasoning only. -/
inductive TimerEvent where
  | accepted (uid timerid tick : Nat) (timeout nexttime repeats : Int)
  | fired (uid tick : Nat) (result : Bool)
  | deleted (uid : Nat)
  | freed (uid : Nat)
  deriving DecidableEq, Repr

structure Wheel (S : Type) where
  ticktime : Int
  tickcount : Nat
  frontidx : Bool
  lists : S
  nodes : Nat → TimerNode
  pool : List Nat
  cap : Nat
  accepted : Nat
  log : List TimerEvent

namespace Wheel
variable {S C : Type} [TimerLists S C]

def init (ticktime : Int) (poolsize : Nat) (lists : S) : Wheel S :=
  ⟨ticktime, 0, false, lists, fun _ => ⟨0, 0, 0, 0, .none⟩, List.range poolsize, poolsize, 0, []⟩

def setNode (wheel : Wheel S) (t : Nat) (node : TimerNode) : Wheel S :=
  { wheel with nodes := Function.update wheel.nodes t node }

def record (wheel : Wheel S) (event : TimerEvent) : Wheel S := { wheel with log := event :: wheel.log }

def setState (wheel : Wheel S) (t : Nat) (state : TimerState) : Wheel S :=
  wheel.setNode t { wheel.nodes t with state }

def push (wheel : Wheel S) (name : ListName) (t : Nat) : Option (Wheel S) :=
  (TimerLists.pushBack name t wheel.lists).map fun lists => { wheel with lists }

def unlink (wheel : Wheel S) (name : ListName) (t : Nat) : Option (Wheel S) :=
  (TimerLists.pop name t wheel.lists).map fun lists => { wheel with lists }

/-- `t->_nexttime - _tickcount`. -/
def ticksLeft (wheel : Wheel S) (t : Nat) : Nat :=
  (((wheel.nodes t).nexttime - wheel.tickcount) % (wordSize : Int)).toNat

/-- The slot of `readd_timer` and `regroup_timers`. -/
def nearSlot (wheel : Wheel S) (t : Nat) : Nat :=
  if wheel.ticksLeft t > 0 then ((wheel.nodes t).nexttime % (nearSlots : Int)).toNat else wheel.tickcount % nearSlots

def readdTimer (wheel : Wheel S) (t : Nat) : Option (Wheel S) := do
  let wheel ← wheel.push (if wheel.ticksLeft t ≥ nearSlots then .hanging else .near (wheel.nearSlot t)) t
  return wheel.setState t .active

def freeTimer (wheel : Wheel S) (t : Nat) : Wheel S :=
  let wheel := (wheel.setState t .none).record (.freed (wheel.nodes t).uid)
  { wheel with pool := t :: wheel.pool }

/-- The slot is not the one of `readd_timer`. -/
def removeTimer (wheel : Wheel S) (t : Nat) : Option (Wheel S) := do
  let left := wheel.ticksLeft t
  let offset := if left > 0 then left % nearSlots else wheel.tickcount % nearSlots
  let wheel ← wheel.unlink (if left ≥ nearSlots then .hanging else .near offset) t
  return wheel.freeTimer t

def addToChangelist (wheel : Wheel S) (t : Nat) : Option (Wheel S) := wheel.push (.change !wheel.frontidx) t

/-- A call that finds the pool empty is refused. -/
def addTimer (wheel : Wheel S) (request : AddRequest) : Option (Wheel S) :=
  match wheel.pool with
  | [] => some wheel
  | t :: pool =>
    let timeout := request.timeout.tdiv wheel.ticktime
    let nexttime : Int := if request.delay then wheel.tickcount + timeout else wheel.tickcount
    let wheel := { wheel with
      pool
      lists := TimerLists.assign t wheel.lists
      accepted := wheel.accepted + 1
      log := .accepted wheel.accepted t wheel.tickcount timeout nexttime request.repeats :: wheel.log
      nodes := Function.update wheel.nodes t ⟨wheel.accepted, timeout, nexttime, request.repeats, .add⟩ }
    wheel.addToChangelist t

def delTimer (wheel : Wheel S) (timerid : Nat) : Option (Wheel S) :=
  if timerid < wheel.cap ∧ (wheel.nodes timerid).state = .active then
    ((wheel.setState timerid .del).record (.deleted (wheel.nodes timerid).uid)).addToChangelist timerid
  else
    some wheel

def call (wheel : Wheel S) : TimerCall → Option (Wheel S)
  | .add request => wheel.addTimer request
  | .del timerid => wheel.delTimer timerid

/-- `for(timer_node* t = list.head; i < count; ++i)` with `t->_next` read before the body. -/
def walk (body : Nat → Wheel S → Option (Wheel S)) : Nat → C → Wheel S → Option (Wheel S)
  | 0, _, wheel => some wheel
  | count + 1, cursor, wheel => do
    let (t, next) ← TimerLists.next cursor wheel.lists
    walk body count next (← body t wheel)

def forEach (name : ListName) (body : Nat → Wheel S → Option (Wheel S)) (wheel : Wheel S) : Option (Wheel S) :=
  walk body (TimerLists.count name wheel.lists) (TimerLists.head name wheel.lists) wheel

def clear (wheel : Wheel S) (name : ListName) : Wheel S :=
  { wheel with lists := TimerLists.clear name wheel.lists }

def loadTimer (t : Nat) (wheel : Wheel S) : Option (Wheel S) :=
  match (wheel.nodes t).state with
  | .add => wheel.readdTimer t
  | .del => wheel.removeTimer t
  | .mod => wheel.readdTimer t
  | .none => some wheel
  | .active => some wheel

def loadTimers (wheel : Wheel S) : Option (Wheel S) := do
  let wheel ← wheel.forEach (.change wheel.frontidx) loadTimer
  return wheel.clear (.change wheel.frontidx)

/-- What follows a handler that has returned true. -/
def rearm (t : Nat) (wheel : Wheel S) : Option (Wheel S) := do
  let wheel ← wheel.unlink .active t
  let node := wheel.nodes t
  let repeats := if node.repeats > 0 then node.repeats - 1 else node.repeats
  let wheel := wheel.setNode t { node with repeats }
  if repeats = 0 then
    return wheel.freeTimer t
  else
    (wheel.setNode t { node with repeats, nexttime := node.nexttime + node.timeout }).readdTimer t

def handleNode (script : Nat → HandlerOutcome) (t : Nat) (wheel : Wheel S) : Option (Wheel S) :=
  if (wheel.nodes t).state = .active then do
    let uid := (wheel.nodes t).uid
    let wheel ← (script uid).calls.foldlM call wheel
    let wheel := wheel.record (.fired uid wheel.tickcount (script uid).result)
    if (script uid).result then rearm t wheel else return wheel.freeTimer t
  else
    some wheel

/-- The local list starts empty, and goes out of scope at the end. -/
def handleTimer (script : Nat → HandlerOutcome) (wheel : Wheel S) : Option (Wheel S) := do
  let wheel := wheel.clear .active
  let wheel := { wheel with lists := TimerLists.swap .active (.near (wheel.tickcount % nearSlots)) wheel.lists }
  let wheel ← wheel.forEach .active (handleNode script)
  return wheel.clear .active

def switchChangelist (wheel : Wheel S) : Wheel S := { wheel with frontidx := !wheel.frontidx }

def regroupTimer (t : Nat) (wheel : Wheel S) : Option (Wheel S) :=
  if wheel.ticksLeft t < nearSlots then do
    let wheel ← wheel.unlink .hanging t
    wheel.push (.near (wheel.nearSlot t)) t
  else
    some wheel

def regroupTimers (wheel : Wheel S) : Option (Wheel S) := wheel.forEach .hanging regroupTimer

def tick (script : Nat → HandlerOutcome) (wheel : Wheel S) : Option (Wheel S) := do
  let wheel ← wheel.switchChangelist.loadTimers
  let wheel ← wheel.handleTimer script
  let wheel := { wheel with tickcount := wheel.tickcount + 1 }
  if wheel.tickcount % nearSlots = 0 then wheel.regroupTimers else return wheel

end Wheel

inductive WheelAction where
  | call (call : TimerCall)
  | tick (script : Nat → HandlerOutcome)

/-- What is done to the wheel from outside: calls between ticks, and ticks in which each timer's
handler behaves as the script says. -/
def Wheel.step {S C : Type} [TimerLists S C] (wheel : Wheel S) : WheelAction → Option (Wheel S)
  | .call call => wheel.call call
  | .tick script => wheel.tick script

end Cassobee
