import Mathlib.Algebra.Group.Nat.Defs
import Mathlib.Logic.Function.Basic

/-! The session table of `io/session_manager.cpp`, with the ids that `create_session`, `session::dup`
and `httpsession::dup` give out. A session object is known by the order of its creation. -/

namespace Cassobee

/-- `session_manager` with `session`, or `httpsession_manager` with `httpsession`. -/
inductive ManagerKind where
  | plain | http
  deriving DecidableEq, Repr

inductive SessionPhase where
  | created | opened | gone
  deriving DecidableEq, Repr

/-- `accepted` tells whether the object comes from `dup`. -/
structure ManagedSession where
  sid : Nat
  accepted : Bool
  phase : SessionPhase
  deriving DecidableEq, Repr

/-- `clashed` is set when `add_session` finds an id taken. -/
structure SessionManager where
  kind : ManagerKind
  nextSessionid : Nat := 0
  sessions : Nat → Option Nat := fun _ => none
  objects : Nat → Option ManagedSession := fun _ => none
  made : Nat := 0
  clashed : Bool := false

inductive ManagerAction where
  | createSession
  | dup
  | setOpen (session : Nat)
  | close (session : Nat)
  deriving DecidableEq, Repr

namespace SessionManager

def getNextSessionid (manager : SessionManager) : Nat := (manager.nextSessionid + 1) % 2 ^ 64

/-- A session object with an id from the counter. -/
def makeNumbered (manager : SessionManager) (accepted : Bool) : SessionManager :=
  { manager with
    nextSessionid := manager.getNextSessionid
    objects := Function.update manager.objects manager.made (some ⟨manager.getNextSessionid, accepted, .created⟩)
    made := manager.made + 1 }

/-- `listen` and `connect` make their session this way. -/
def createSession (manager : SessionManager) : SessionManager := manager.makeNumbered false

/-- `passiveio_event::handle_event` duplicates the listening session. -/
def dup (manager : SessionManager) : SessionManager :=
  match manager.kind with
  | .plain => manager.makeNumbered true
  | .http =>
    { manager with
      objects := Function.update manager.objects manager.made (some ⟨0, true, .created⟩)
      made := manager.made + 1 }

/-- `add_session` deletes the new session when its id is in the table. -/
def addSession (manager : SessionManager) (session : Nat) (object : ManagedSession) : SessionManager :=
  match manager.sessions object.sid with
  | none =>
    { manager with
      sessions := Function.update manager.sessions object.sid (some session)
      objects := Function.update manager.objects session (some { object with phase := .opened }) }
  | some _ =>
    { manager with
      objects := Function.update manager.objects session (some { object with phase := .gone })
      clashed := true }

/-- `session::close`, after which the object is deleted. -/
def closeSession (manager : SessionManager) (session : Nat) (object : ManagedSession) : SessionManager :=
  { manager with
    sessions := Function.update manager.sessions object.sid none
    objects := Function.update manager.objects session (some ⟨0, object.accepted, .gone⟩) }

/-- A session is opened at most once, and closed once. -/
def step (manager : SessionManager) : ManagerAction → Option SessionManager
  | .createSession => some manager.createSession
  | .dup => some manager.dup
  | .setOpen session =>
    match manager.objects session with
    | none => none
    | some object => if object.phase = .created then some (manager.addSession session object) else none
  | .close session =>
    match manager.objects session with
    | none => none
    | some object => if object.phase = .gone then none else some (manager.closeSession session object)

end SessionManager
end Cassobee
