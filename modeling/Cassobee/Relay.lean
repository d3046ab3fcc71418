import Cassobee.Rpc

/-! One process of `io/rpc.cpp` and what it sends: as a proxy, whose `server()` returns true, and as
an owner of objects. A session is named by its sid; 0 stands for the process itself. -/

namespace Cassobee

variable {δ : Type}

/-! ## A proxy, with rpc objects as values -/

/-- What has come about in a proxy: a request was registered and sent on, a call was made, a response
was run. -/
inductive RelayEvent (δ : Type) where
  | relayed (traceid : Nat) (request : Packet Nat δ)
  | called (traceid : Nat)
  | answered (traceid : Nat)
  deriving DecidableEq

structure Relay (δ : Type) where
  table : RpcTable Nat δ
  log : List (RelayEvent δ)

/-- `result` is what `server()` writes before it returns true, and `backend` the session on which the
registered request is sent on. -/
inductive RelayAction (δ : Type) where
  | call (rpc : Rpc Nat δ) (backend : Nat)
  | receive (packet : Packet Nat δ) (result : δ) (backend : Nat)

namespace Relay

def initial : Relay δ := ⟨.new, []⟩

/-- A step gives the packets that it has sent. -/
def request (relay : Relay δ) (rpc : Rpc Nat δ) (isProxy : Bool) (backend : Nat) (event : Nat → RelayEvent δ) :
    Option (Relay δ × List (Packet Nat δ)) := do
  let (table, rpc) := relay.table.setRequest rpc isProxy
  let packet ← rpc.pack 0 backend
  return (⟨table, event rpc.traceid :: relay.log⟩, [packet])

def runClient (relay : Relay δ) (rpc : Rpc Nat δ) : Option (Relay δ × List (Packet Nat δ)) :=
  let log := .answered rpc.traceid :: relay.log
  match relay.table.take rpc.traceid with
  | none => some ({ relay with log }, [])
  | some (prpc, table) =>
    let prpc := { prpc with result := rpc.result }
    if prpc.proxyTraceid > 0 then
      let prpc := prpc.clrRequest true
      match prpc.sid with
      | some (sid + 1) => (prpc.pack 0 (sid + 1)).map fun packet => (⟨table, log⟩, [packet])
      | _ => some (⟨table, log⟩, [])
    else
      some (⟨table, log⟩, [])

def step (stubs : RpcStubs Nat δ) (relay : Relay δ) : RelayAction δ → Option (Relay δ × List (Packet Nat δ))
  | .call rpc backend => relay.request { rpc with proxyTraceid := 0, result := none, sid := none } false backend .called
  | .receive packet result backend =>
    match stubs.find packet.type with
    | none => some (relay, [])
    | some stub =>
      let rpc := stub.unpack packet
      if rpc.isServer then
        relay.request { rpc with result := some result } true backend (.relayed · packet)
      else
        relay.runClient rpc

end Relay

/-! ## Objects -/

/-- `_rpcs` refers to objects by their number. `doomed` are the objects that a task or a handler will
still delete, and `deleted` those that were, the last one first. -/
structure RpcObjects where
  created : Nat
  nextTraceid : Nat
  rpcs : Nat → Option Nat
  doomed : List Nat
  deleted : List Nat

/-- A received rpc is decoded into a new object, which the task deletes when it has run; `more` is what
`server()` returns. A response, or a timer, deletes the object that it finds. -/
inductive ObjectAction where
  | call
  | serve (more : Bool)
  | respond (traceid : Nat)
  | timeout (traceid : Nat)
  | delete (object : Nat)
  deriving DecidableEq, Repr

namespace RpcObjects

def initial : RpcObjects := ⟨0, 0, fun _ => none, [], []⟩

def live (objects : RpcObjects) (object : Nat) : Prop := object < objects.created ∧ object ∉ objects.deleted

def setRequest (objects : RpcObjects) (object : Nat) : RpcObjects :=
  let traceid := (objects.nextTraceid + 1) % wordSize
  { objects with
    nextTraceid := traceid
    rpcs := match objects.rpcs traceid with
      | some _ => objects.rpcs
      | none => Function.update objects.rpcs traceid (some object) }

/-- What is found under the trace id is taken out and will be deleted. -/
def take (objects : RpcObjects) (traceid : Nat) : RpcObjects :=
  match objects.rpcs traceid with
  | some object => { objects with
      rpcs := Function.update objects.rpcs traceid none, doomed := object :: objects.doomed }
  | none => objects

/-- The object that a received rpc is decoded into. -/
def decoded (objects : RpcObjects) : RpcObjects :=
  { objects with created := objects.created + 1, doomed := objects.created :: objects.doomed }

def step (objects : RpcObjects) : ObjectAction → Option RpcObjects
  | .call => some ({ objects with created := objects.created + 1 }.setRequest objects.created)
  | .serve more => some (if more then objects.decoded.setRequest objects.created else objects.decoded)
  | .respond traceid => some (objects.decoded.take traceid)
  | .timeout traceid => some (objects.take traceid)
  | .delete object =>
    if object ∈ objects.doomed then
      some { objects with doomed := objects.doomed.erase object, deleted := object :: objects.deleted }
    else
      none

end RpcObjects
end Cassobee
