import Cassobee.Link
import Cassobee.Rpc

/-! Remote calls between two processes that share one connection. `rpc::pack` and `rpc::unpack` meet the
stream here. A decoded object waits in the thread pool for its `rpc::run`, and tasks run in any order. -/

namespace Cassobee

/-- What `rpc::pack` writes. `data` is behind `_result` or `_argument`. -/
structure RpcMessage (δ : Type) where
  type : ProtocolId
  traceid : Nat
  isServer : Bool
  data : Option δ
  deriving DecidableEq

/-- How a class marshals its result and its argument. -/
structure RpcData (δ : Type) where
  pack (type : ProtocolId) (isServer : Bool) (data : δ) : StreamM Unit
  unpack (type : ProtocolId) (isServer : Bool) : StreamM δ

variable {π δ : Type}

/-- The object read from has the role of the object that wrote; `Rpc.unpack` reverses it. -/
def RpcData.methods (data : RpcData δ) : ProtocolMethods (RpcMessage δ) where
  getType message := message.type
  pack message := do
    (Ty.scalar (.int false .w64)).push (BitVec.ofNat 64 message.traceid)
    Ty.bool.push message.isServer
    match message.data with
    | some value => data.pack message.type message.isServer value
    | none => throw .abort
  unpack stub := do
    let traceid ← (Ty.scalar (.int false .w64)).pop (BitVec.ofNat 64 stub.traceid)
    let isServer ← Ty.bool.pop stub.isServer
    let value ← data.unpack stub.type isServer
    return { stub with traceid := traceid.toNat, isServer, data := some value }

def RpcStubs.messages (stubs : RpcStubs π δ) : Stubs (RpcMessage δ) := fun id =>
  (stubs.find id).map fun stub => ⟨stub.type, stub.traceid, stub.isServer, stub.argument⟩

def Packet.message (packet : Packet π δ) : RpcMessage δ :=
  ⟨packet.type, packet.traceid, packet.isServer, some packet.data⟩

def RpcMessage.packet (message : RpcMessage δ) (src dst : π) : Option (Packet π δ) :=
  message.data.map fun data => ⟨src, dst, message.type, message.traceid, message.isServer, data⟩

/-- Between steps the network of `system` is empty: its packets go to `send_protocol` at once. -/
structure RpcLink (δ : Type) where
  link : Link (RpcMessage δ)
  system : RpcSystem Peer δ
  tasks : Peer → List (RpcMessage δ)

/-- `result` is what `server()` writes; it returns false. -/
inductive RpcLinkAction (δ : Type) where
  | call (peer : Peer) (rpc : Rpc Peer δ)
  | send (peer : Peer) (traceid : Nat) (stale : Nat → UInt8)
  | io (peer : Peer) (action : IoAction)
  | run (peer : Peer) (index : Nat) (result : δ) (stale : Nat → UInt8)
  | fire (peer : Peer) (traceid : Nat)

namespace RpcLink
variable (data : RpcData δ) (stubs : RpcStubs Peer δ)

def opened (link : Link (RpcMessage δ)) : RpcLink δ := ⟨link, .initial, fun _ => []⟩

def sendProtocol (rpcs : RpcLink δ) (peer : Peer) (stale : Nat → UInt8) (system : RpcSystem Peer δ) : Option (RpcLink δ) :=
  match system.network with
  | [] => some { rpcs with system }
  | packet :: _ =>
    (rpcs.link.step data.methods stubs.messages (.sendProtocol peer stale packet.message)).map fun link =>
      { rpcs with link, system := { system with network := [] } }

variable [DecidableEq δ]

def step (rpcs : RpcLink δ) : RpcLinkAction δ → Option (RpcLink δ)
  | .call peer rpc => (rpcs.system.step stubs (.call peer rpc)).map fun system => { rpcs with system }
  | .send peer traceid stale => do
    rpcs.sendProtocol data stubs peer stale (← rpcs.system.step stubs (.send peer traceid peer.other))
  | .io peer action =>
    (rpcs.link.step data.methods stubs.messages (.act peer action)).map fun link =>
      { rpcs with
        link
        tasks := Function.update rpcs.tasks peer
          (rpcs.tasks peer ++ (link.dispatched peer).drop (rpcs.link.dispatched peer).length) }
  | .run peer index result stale => do
    let message ← (rpcs.tasks peer)[index]?
    let stub ← stubs.find message.type
    let packet ← message.packet peer.other peer
    let rest := Function.update rpcs.tasks peer ((rpcs.tasks peer).eraseIdx index)
    ({ rpcs with tasks := rest } : RpcLink δ).sendProtocol data stubs peer stale
      (← rpcs.system.run peer (stub.unpack packet) result false)
  | .fire peer traceid => some { rpcs with system := rpcs.system.fire peer traceid }

end RpcLink
end Cassobee
