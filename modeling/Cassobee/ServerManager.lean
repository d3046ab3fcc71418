import Cassobee.ReactorEvents
import Cassobee.SessionManager

/-! The client's end: `server_manager` of `client/network/server_manager.cpp` and `logserver_manager` of
`logclient/logserver_manager.cpp`. They open a connection, and when it is gone, or does not come about,
another one after five seconds. The reactor has events of other managers as well. -/

namespace Cassobee

/-- The two differ in `on_del_session`. -/
inductive ServerKind where
  | server | logserver
  deriving DecidableEq, Repr

/-- `ses` gives the session of an event, if it is one of this manager. `reconnects` counts the timers of `reconnect`
that have not run yet. -/
structure ServerManager (ν : Type) where
  kind : ServerKind
  reactor : ReactorEvents ν
  manager : SessionManager
  ses : ν → Option Nat
  localsid : Nat
  started : Bool
  reconnects : Nat

/-- `connect` is the call of `main`, and `reconnect` the timer. -/
inductive ServerManagerAction (ν : Type) where
  | connect (address : ν) (fd : Int)
  | reconnect (address : ν) (fd : Int)
  | react (action : ReactorEventAction ν)
  deriving DecidableEq, Repr

namespace ReactorEvents
variable {ν : Type} [DecidableEq ν]

/-- The event that a step deletes. -/
def deleted (reactor : ReactorEvents ν) : ReactorEventAction ν → Option ν
  | .loadEvent address => do
    let event ← reactor.heap address
    if event.events.isIoEvents then reactor.deletes address event else none
  | _ => none

end ReactorEvents

/-- What the reactor does. -/
def ServerManagerAction.toReactor {ν : Type} : ServerManagerAction ν → ReactorEventAction ν
  | .connect address fd | .reconnect address fd => .create address .active fd
  | .react action => action

namespace ServerManager
variable {ν : Type} [DecidableEq ν]

def new (kind : ServerKind) : ServerManager ν := ⟨kind, .initial, { kind := .plain }, fun _ => none, 0, false, 0⟩

def onAddSession (server : ServerManager ν) (sid : Nat) : ServerManager ν := { server with localsid := sid }

def onDelSession (server : ServerManager ν) (sid : Nat) : ServerManager ν :=
  { server with
    localsid := match server.kind with
      | .server => if sid = server.localsid then 0 else server.localsid
      | .logserver => 0
    reconnects := server.reconnects + 1 }

/-- `connect` with the constructor of `activeio_event`. -/
def openEvent (server : ServerManager ν) (address : ν) (reactor : ReactorEvents ν) : ServerManager ν :=
  { server with
    reactor
    manager := server.manager.createSession
    ses := Function.update server.ses address (some server.manager.made) }

/-- `session::set_open`. A session whose id is taken is deleted. -/
def setOpen (server : ServerManager ν) (session : Nat) : ServerManager ν :=
  match server.manager.objects session with
  | none => server
  | some object =>
    let added := { server with manager := server.manager.addSession session object }
    match server.manager.sessions object.sid with
    | none => added.onAddSession object.sid
    | some _ => added

/-- `session::close`, which asks the manager to delete it. -/
def closeSession (server : ServerManager ν) (session : Nat) : ServerManager ν :=
  match server.manager.objects session with
  | none => server
  | some object => { server with manager := server.manager.closeSession session object }.onDelSession object.sid

/-- An `activeio_event` gives its session to the new `streamio_event`. -/
def handOver (server : ServerManager ν) (old address : ν) : ServerManager ν :=
  match server.ses old with
  | none => server
  | some session => { server with ses := Function.update (Function.update server.ses old none) address (some session) }

/-- The destructor of an event closes the session that it has. -/
def freeEvent (server : ServerManager ν) (address : ν) : ServerManager ν :=
  match server.ses address with
  | none => server
  | some session => { server with ses := Function.update server.ses address none }.closeSession session

/-- The session of this manager that the handler may open. -/
def handled (server : ServerManager ν) : Option Nat := server.reactor.handling.bind fun handled => server.ses handled.1

/-- Its own table says whether an id is taken. -/
def tells (server : ServerManager ν) : ReactorEventAction ν → Bool
  | .setOpen _ taken =>
    match server.handled.bind server.manager.objects with
    | some object => taken == (server.manager.sessions object.sid).isSome
    | none => true
  | _ => true

/-- What a step of the reactor means for the manager. -/
def follow (server : ServerManager ν) (action : ReactorEventAction ν) (reactor : ReactorEvents ν) : ServerManager ν :=
  let next := { server with reactor }
  match action with
  | .setOpen .. =>
    match server.handled with
    | some session => next.setOpen session
    | none => next
  | .connected address =>
    match server.reactor.handling with
    | some handled => next.handOver handled.1 address
    | none => next
  | action =>
    match server.reactor.deleted action with
    | some address => next.freeEvent address
    | none => next

def step (server : ServerManager ν) (action : ServerManagerAction ν) : Option (ServerManager ν) := do
  let reactor ← server.reactor.step action.toReactor
  match action with
  | .connect address _ => if server.started then none else some ({ server with started := true }.openEvent address reactor)
  | .reconnect address _ =>
    if server.reconnects = 0 then none
    else some ({ server with reconnects := server.reconnects - 1 }.openEvent address reactor)
  | .react action => if server.tells action then some (server.follow action reactor) else none

end ServerManager
end Cassobee
