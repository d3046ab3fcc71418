import Cassobee.HttpClient

/-! The end of `httpclient::advance_all`: whether it asks for a new connection. -/

namespace Cassobee

/-- A call of `advance_all` that has returned: the client as it left it, and whether it has called
`connect`. -/
structure Advanced where
  client : HttpClient
  connected : Bool

/-- The client, and the calls of `advance_all` that have returned, the last one first. -/
structure HttpConnections where
  client : HttpClient
  advanced : List Advanced

namespace HttpClient
variable (setting : HttpClientSetting) (maxConnections : Nat)

/-- `max_connections` may be 0, and then there is no limit. -/
def checkConnectionCount (client : HttpClient) : Bool :=
  if maxConnections ≠ 0 then client.sessions.card < maxConnections else true

/-- Whether `try_new_connection` calls `connect`. -/
def tryNewConnection (client : HttpClient) : Bool := if !client.checkConnectionCount maxConnections then false else true

/-- The condition behind the loop. It asks the queue twice. -/
def connectsAtEnd (client : HttpClient) : Bool :=
  if !client.pending.isEmpty && client.pending.isEmpty then client.tryNewConnection maxConnections else false

/-- The client as a step hands it to `advance_all`; `none` if the step does not call it. -/
def handedOver (client : HttpClient) : HttpClientAction → Option HttpClient
  | .sendRequest timeout keepalive =>
    some (client.startTask (if timeout > 0 then timeout else setting.taskTimeout) keepalive)
  | .addSession sid =>
    some { client with
      sessions := insert sid client.sessions
      opened := insert sid client.opened
      idle := insert sid client.idle }
  | .delSession sid =>
    some { client with
      sessions := client.sessions.erase sid
      idle := client.idle.erase sid
      busy := Function.update client.busy sid none }
  | .response sid keepalive =>
    (client.busy sid).bind fun taskid =>
      (client.findTask taskid).map fun task =>
        ({ client with
          responses := Function.update client.responses sid (client.responses sid + 1)
          busy := Function.update client.busy sid none }.finishTask task
            (.response task.request sid)).recycleConnection sid (task.keepalive && keepalive)
  | .advance _ => none

end HttpClient

namespace HttpConnections
variable (setting : HttpClientSetting) (maxConnections : Nat)

def initial (now : Int) : HttpConnections := ⟨.initial now, []⟩

def step (connections : HttpConnections) (action : HttpClientAction) : Option HttpConnections :=
  match connections.client.handedOver setting action with
  | some client =>
    (client.advanceAll setting).map fun after => ⟨after, ⟨after, after.connectsAtEnd maxConnections⟩ :: connections.advanced⟩
  | none => (connections.client.step setting action).map fun after => { connections with client := after }

end HttpConnections
end Cassobee
