import Cassobee.ReactorTimers
import Mathlib.Logic.Function.Basic

/-! The io events of `io/reactor.cpp` from `new` to `delete`: `_io_events`, `_changelist`, and what
`io/demultiplexer.cpp` has told epoll. One thread runs the loop and the handlers of `io/ioevent.cpp`. Other
threads open sockets, and ask the events of open sessions for `EVENT_SEND`. -/

namespace Cassobee
open ReactorTimers (EventStatus)

inductive IoEventKind where
  | sigio | control | passive | active | stream
  deriving DecidableEq, Repr

/-- The bits of `EVENT_MASK` that io events use. -/
structure EventMask where
  accept : Bool
  recv : Bool
  send : Bool
  hup : Bool
  wakeup : Bool
  deriving DecidableEq, Repr

structure EpollMask where
  epollin : Bool
  epollout : Bool
  epollhup : Bool
  deriving DecidableEq, Repr

def EventMask.isIoEvents (events : EventMask) : Bool :=
  events.accept || events.recv || events.send || events.hup || events.wakeup

def EventMask.toEpoll (events : EventMask) : EpollMask :=
  ⟨events.accept || events.recv || events.wakeup, events.send, events.hup⟩

/-- `set_events` in the constructors; that of a stream comes with `accept` and `connect`. -/
def IoEventKind.events : IoEventKind → EventMask
  | .sigio => ⟨false, true, false, false, false⟩
  | .control => ⟨false, false, false, false, true⟩
  | .passive => ⟨true, false, false, false, false⟩
  | .active => ⟨false, false, true, false, false⟩
  | .stream => ⟨false, true, true, false, false⟩

structure IoEvent where
  kind : IoEventKind
  fd : Int
  status : EventStatus
  events : EventMask
  hasBase : Bool
  deriving DecidableEq, Repr

/-- Where the loop stands; `loading` lasts until `epoll_wait` returns. -/
inductive LoopStage (ν : Type) where
  | start
  | loading
  | dispatching
  | handling (address : ν)
  deriving DecidableEq, Repr

/-- Addresses stand for pointers, and `heap` has what is alive. `loading` is what `load_event` has taken from
`_changelist` and not come to, `ready` what `epoll_wait` has returned. `permitting` has the events whose
`permit_write` has made its test, and `opening` the stream whose constructor has opened the session, before `set_events`
and `add_event`. `faulted` records that a dead object or a null pointer was used. -/
structure ReactorEvents (ν : Type) where
  heap : ν → Option IoEvent
  changelist : List ν
  loading : List ν
  ioEvents : Int → Option ν
  opened : Int → Bool
  epoll : Int → Option EpollMask
  ready : List Int
  stage : LoopStage ν
  permitting : List ν
  opening : Option ν
  faulted : Bool

inductive ReactorEventAction (ν : Type) where
  | create (address : ν) (kind : IoEventKind) (fd : Int)
  | permitWrite (address : ν)
  | addEvent (address : ν)
  | readChanges
  | loadEvent (address : ν)
  | epollWait (fds : List Int)
  | dispatch
  | setOpen (address : ν) (taken : Bool)
  | accept (address : ν) (fd : Int)
  | connected (address : ν)
  | permitSend
  | forbidSend
  | delEvent
  | handled
  deriving DecidableEq, Repr

namespace ReactorEvents
variable {ν : Type} [DecidableEq ν]

def initial : ReactorEvents ν := ⟨fun _ => none, [], [], fun _ => none, fun _ => false, fun _ => none, [], .start, [], none, false⟩

def fault (reactor : ReactorEvents ν) : ReactorEvents ν := { reactor with faulted := true }

def set (reactor : ReactorEvents ν) (address : ν) (event : IoEvent) : ReactorEvents ν :=
  { reactor with heap := Function.update reactor.heap address (some event) }

/-- `_changelist.write`: a `std::set` has no element twice. -/
def write (reactor : ReactorEvents ν) (address : ν) : ReactorEvents ν :=
  { reactor with changelist := reactor.changelist.insert address }

/-- `delete`. The destructor closes the descriptor, and with it goes what epoll knows of it. -/
def free (reactor : ReactorEvents ν) (address : ν) : ReactorEvents ν :=
  match reactor.heap address with
  | none => reactor.fault
  | some event =>
    let heap := Function.update reactor.heap address none
    if 0 ≤ event.fd then
      { reactor with
        heap
        opened := Function.update reactor.opened event.fd false
        epoll := Function.update reactor.epoll event.fd none }
    else
      { reactor with heap }

/-- `epoller::add_event` with what `add_event_inner` does behind it. `epoll_ctl` adds a descriptor that is
open and not there yet, and modifies one that is there. -/
def epollAdd (reactor : ReactorEvents ν) (address : ν) (event : IoEvent) : ReactorEvents ν :=
  let told := { reactor with epoll := Function.update reactor.epoll event.fd (some event.events.toEpoll) }
  match event.status with
  | .none =>
    if reactor.opened event.fd ∧ reactor.epoll event.fd = none then
      told.set address { event with status := .add, hasBase := true }
    else
      reactor.set address { event with status := .add }
  | .add => if (reactor.epoll event.fd).isSome then told.set address { event with hasBase := true } else reactor
  | .del => reactor

/-- What an event that is loaded takes the place of. -/
def substituted (reactor : ReactorEvents ν) (address : ν) (event : IoEvent) : Option ν :=
  (reactor.ioEvents event.fd).filter (· ≠ address)

def register (reactor : ReactorEvents ν) (address : ν) (event : IoEvent) : ReactorEvents ν :=
  { reactor with ioEvents := Function.update reactor.ioEvents event.fd (some address) }

def addEventInner (reactor : ReactorEvents ν) (address : ν) (event : IoEvent) : ReactorEvents ν :=
  if event.events.isIoEvents then
    let emptied := match reactor.substituted address event with
      | some old => reactor.free old
      | none => reactor
    (emptied.register address event).epollAdd address event
  else
    reactor

/-- `epoller::del_event` returns at once: the status is no more `EVENT_STATUS_ADD`. -/
def delEventInner (reactor : ReactorEvents ν) (event : IoEvent) : ReactorEvents ν :=
  if event.events.isIoEvents then
    match reactor.ioEvents event.fd with
    | some target => { reactor.free target with ioEvents := Function.update reactor.ioEvents event.fd none }
    | none => reactor
  else
    reactor

/-- What loading an event deletes. -/
def deletes (reactor : ReactorEvents ν) (address : ν) (event : IoEvent) : Option ν :=
  if event.status = .del then reactor.ioEvents event.fd else reactor.substituted address event

/-- The destructor closes the session, for which it needs the lock that a sender holds. -/
def load (reactor : ReactorEvents ν) (address : ν) : Option (ReactorEvents ν) :=
  let taken := { reactor with loading := reactor.loading.erase address }
  match reactor.heap address with
  | none => some taken.fault
  | some event =>
    if ∃ target ∈ reactor.deletes address event, target ∈ reactor.permitting then
      none
    else
      some (if event.status = .del then taken.delEventInner event else taken.addEventInner address event)

/-- The event whose handler runs. -/
def handling (reactor : ReactorEvents ν) : Option (ν × IoEvent) :=
  match reactor.stage with
  | .handling address => (reactor.heap address).map fun event => (address, event)
  | _ => none

def dispatch (reactor : ReactorEvents ν) : Option (ReactorEvents ν) :=
  match reactor.stage, reactor.ready with
  | .dispatching, [] => some { reactor with stage := .start }
  | .dispatching, fd :: ready =>
    match reactor.ioEvents fd with
    | none => some { reactor with ready }
    | some address =>
      match reactor.heap address with
      | none => some reactor.fault
      | some event =>
        if event.status = .add then
          -- an `activeio_event` that has given its session away would use it again
          if event.kind = .active ∧ event.fd < 0 then
            some reactor.fault
          else
            some { reactor with ready, stage := .handling address }
        else
          some { reactor with ready }
  | _, _ => none

/-- `permit_write` and `forbid_write` of an event that is not closed. -/
def setSend (reactor : ReactorEvents ν) (address : ν) (event : IoEvent) (send : Bool) : ReactorEvents ν :=
  if event.status = .del ∨ event.events.send = send then
    reactor
  else if event.hasBase then
    (reactor.set address { event with events := { event.events with send } }).write address
  else
    reactor.fault

/-- A session that senders find has its event, which is a stream. Senders and `forbid_send` hold its lock. After
`close_socket` an `activeio_event` does nothing more. `taken` says that the manager's table has the id of the session
that is opened. -/
def step (reactor : ReactorEvents ν) : ReactorEventAction ν → Option (ReactorEvents ν)
  | .create address kind fd =>
    if reactor.heap address = none ∧ reactor.opening ≠ some address ∧ 0 ≤ fd ∧ reactor.opened fd = false ∧ kind ≠ .stream then
      some (({ reactor with opened := Function.update reactor.opened fd true } : ReactorEvents ν).set address
        ⟨kind, fd, .none, kind.events, false⟩ |>.write address)
    else
      none
  | .permitWrite address =>
    -- its `_events` are empty, and its `_base` is null
    if reactor.opening = some address then some reactor.fault
    else match reactor.heap address with
      | none => none
      | some event =>
        if event.kind = .stream ∧ address ∉ reactor.permitting then
          some (if event.status = .del ∨ event.events.send then
            reactor
          else
            { reactor with permitting := address :: reactor.permitting })
        else
          none
  | .addEvent address =>
    if address ∈ reactor.permitting then
      let passed := { reactor with permitting := reactor.permitting.erase address }
      match reactor.heap address with
      | none => some passed.fault
      | some event =>
        some (if event.hasBase then
          (passed.set address { event with events := { event.events with send := true } }).write address
        else
          passed.fault)
    else
      none
  | .readChanges =>
    if reactor.stage = .start then
      some { reactor with loading := reactor.changelist, changelist := [], stage := .loading }
    else
      none
  | .loadEvent address => if reactor.stage = .loading ∧ address ∈ reactor.loading then reactor.load address else none
  | .epollWait fds =>
    if reactor.stage = .loading ∧ reactor.loading = [] ∧ fds.Nodup ∧ ∀ fd ∈ fds, (reactor.epoll fd).isSome then
      some { reactor with ready := fds, stage := .dispatching }
    else
      none
  | .dispatch => reactor.dispatch
  | .setOpen address taken => do
    let (_, event) ← reactor.handling
    if (event.kind = .passive ∨ event.kind = .active ∧ event.status = .add) ∧ reactor.heap address = none ∧
        reactor.opening = none then
      -- `add_session` deletes a session whose id is taken, and the session its event
      some (if taken then reactor.fault else { reactor with opening := some address })
    else
      none
  | .accept address fd => do
    let (_, listening) ← reactor.handling
    if listening.kind = .passive ∧ reactor.opening = some address ∧ reactor.heap address = none ∧ 0 ≤ fd ∧
        reactor.opened fd = false then
      some (({ reactor with
          opened := Function.update reactor.opened fd true
          stage := .dispatching
          opening := none } : ReactorEvents ν).set address
        ⟨.stream, fd, .none, IoEventKind.stream.events, false⟩ |>.write address)
    else
      none
  | .connected address => do
    let (old, event) ← reactor.handling
    if event.kind = .active ∧ event.status = .add ∧ reactor.opening = some address ∧ reactor.heap address = none then
      some ((({ reactor with stage := .dispatching, opening := none } : ReactorEvents ν).set old { event with fd := -1 }).set address
        ⟨.stream, event.fd, .add, ⟨false, true, true, true, false⟩, false⟩ |>.write address)
    else
      none
  | .permitSend => do
    let (address, event) ← reactor.handling
    if event.kind = .stream then some (reactor.setSend address event true) else none
  | .forbidSend => do
    let (address, event) ← reactor.handling
    if event.kind = .stream ∧ address ∉ reactor.permitting then some (reactor.setSend address event false) else none
  | .delEvent => do
    let (address, event) ← reactor.handling
    if (event.kind = .stream ∨ event.kind = .active) ∧ reactor.opening = none then
      some (if event.hasBase then (reactor.set address { event with status := .del }).write address else reactor)
    else
      none
  | .handled =>
    match reactor.stage, reactor.opening with
    | .handling _, none => some { reactor with stage := .dispatching }
    | _, _ => none

end ReactorEvents
end Cassobee
