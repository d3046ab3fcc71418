import Cassobee.Octets
import Mathlib.Data.Finset.Max

/-! The requests and connections of `http/httpclient.cpp`. A step holds the lock of the manager from
its beginning to its end. -/

namespace Cassobee

/-- `request` counts the requests of the client: it names the task when its id has been given again. -/
structure HttpTask where
  taskid : Nat
  timeout : Int
  request : Nat
  keepalive : Bool
  deriving DecidableEq, Repr

/-- What `finish_task` is called for. -/
inductive Finish where
  | response (request sid : Nat)
  | timeout (request : Nat)
  deriving DecidableEq, Repr

def Finish.request : Finish → Nat
  | .response request _ | .timeout request => request

/-- `opened`, `written`, `responses` and `finished` say what has come about: the sessions that were
added, the requests written on each of them and the tasks that were finished, the last one first, and
how many responses have come. -/
structure HttpClient where
  clock : Int
  nextTaskid : Nat
  tasks : List HttpTask
  idle : Finset Nat
  busy : Nat → Option Nat
  pending : List Nat
  sessions : Finset Nat
  requests : Nat
  opened : Finset Nat
  written : Nat → List Nat
  responses : Nat → Nat
  finished : List Finish

/-- A `timeout` that is not positive stands for the configured one. -/
inductive HttpClientAction where
  | sendRequest (timeout : Int) (keepalive : Bool)
  | addSession (sid : Nat)
  | delSession (sid : Nat)
  | response (sid : Nat) (keepalive : Bool)
  | advance (seconds : Nat)
  deriving DecidableEq, Repr

/-- `room` says whether a request fits into the write buffer of its session. -/
structure HttpClientSetting where
  taskTimeout : Int
  room : Nat → Bool

namespace HttpClient

def initial (now : Int) : HttpClient :=
  ⟨now, 0, [], ∅, fun _ => none, [], ∅, 0, ∅, fun _ => [], fun _ => 0, []⟩

def findTask (client : HttpClient) (taskid : Nat) : Option HttpTask := client.tasks.find? fun task => task.taskid = taskid

def startTask (client : HttpClient) (timeout : Int) (keepalive : Bool) : HttpClient :=
  let taskid := (client.nextTaskid + 1) % wordSize
  let task : HttpTask := ⟨taskid, client.clock + timeout, client.requests, keepalive⟩
  { client with
    nextTaskid := taskid
    requests := client.requests + 1
    tasks := match client.findTask taskid with
      | some _ => client.tasks
      | none => task :: client.tasks
    pending := client.pending ++ [taskid] }

def finishTask (client : HttpClient) (task : HttpTask) (finish : Finish) : HttpClient :=
  { client with
    tasks := client.tasks.filter fun other => other.taskid ≠ task.taskid
    finished := finish :: client.finished }

def checkTimeouts (client : HttpClient) : HttpClient :=
  { client with
    tasks := client.tasks.filter fun task => client.clock < task.timeout
    finished := (client.tasks.filter fun task => task.timeout ≤ client.clock).map (.timeout ·.request) ++ client.finished }

def recycleConnection (client : HttpClient) (sid : Nat) (keepalive : Bool) : HttpClient :=
  if keepalive then { client with idle := insert sid client.idle } else client

variable (setting : HttpClientSetting)

/-- The body of the loop. `none` is a failed `ASSERT(task)`. -/
def send (client : HttpClient) (taskid sid : Nat) : Option HttpClient :=
  match client.findTask taskid with
  | none => none
  | some task =>
    if sid ∈ client.sessions then
      some { client with
        written := if setting.room task.request then
            Function.update client.written sid (task.request :: client.written sid)
          else client.written
        busy := Function.update client.busy sid (some taskid) }
    else
      some client

def advancePending : List Nat → HttpClient → Option HttpClient
  | [], client => some { client with pending := [] }
  | taskid :: pending, client =>
    if available : client.idle.Nonempty then
      let sid := client.idle.min' available
      ({ client with idle := client.idle.erase sid }.send setting taskid sid).bind (advancePending pending)
    else
      some { client with pending := taskid :: pending }

def advanceAll (client : HttpClient) : Option HttpClient :=
  client.checkTimeouts.advancePending setting client.pending

def handleResponse (client : HttpClient) (sid : Nat) (keepalive : Bool) : Option HttpClient :=
  match client.busy sid with
  | none => some client
  | some taskid =>
    let client := { client with busy := Function.update client.busy sid none }
    match client.findTask taskid with
    | none => some (client.recycleConnection sid keepalive)
    | some task =>
      ((client.finishTask task (.response task.request sid)).recycleConnection sid (task.keepalive && keepalive)).advanceAll setting

def step (client : HttpClient) : HttpClientAction → Option HttpClient
  | .sendRequest timeout keepalive =>
    (client.startTask (if timeout > 0 then timeout else setting.taskTimeout) keepalive).advanceAll setting
  | .addSession sid =>
    { client with
      sessions := insert sid client.sessions
      opened := insert sid client.opened
      idle := insert sid client.idle }.advanceAll setting
  | .delSession sid =>
    { client with
      sessions := client.sessions.erase sid
      idle := client.idle.erase sid
      busy := Function.update client.busy sid none }.advanceAll setting
  | .response sid keepalive =>
    { client with responses := Function.update client.responses sid (client.responses sid + 1) }.handleResponse setting sid keepalive
  | .advance seconds => some { client with clock := client.clock + seconds }

end HttpClient
end Cassobee
