import Cassobee.SessionIo
import Mathlib.Logic.Function.Basic

/-! A connection: two sessions, one at each end, and the bytes on their way between them. The network
hands over what the kernel at the other end has taken, in its order and in any pieces; a connection
that breaks hands over no more. -/

namespace Cassobee

inductive Peer where
  | server | client
  deriving DecidableEq, Repr

def Peer.other : Peer → Peer
  | .server => .client
  | .client => .server

section
variable {μ : Type} (methods : ProtocolMethods μ) (stubs : Stubs μ)

namespace SessionIo

/-- What a call of `recv` hands over. Without room in `_readbuf` it is not called. -/
def arrived (io : SessionIo) : IoAction → List UInt8
  | .recv (.received chunk) => if io.session.readbuf.freeSpace = 0 then [] else chunk
  | _ => []

/-- The messages that `on_recv` hands to the thread pool. -/
def messages (io : SessionIo) : List μ :=
  match io.session.onRecv methods stubs (io.session.reados.size + io.session.readbuf.len + 1) with
  | .ok (some (messages, _)) => messages
  | _ => []

/-- `handle_read` calls `on_recv` at its end, and before it where `_readbuf` is full. -/
def dispatches (io : SessionIo) : IoAction → List μ
  | .beginRead => if io.session.readbuf.freeSpace = 0 then io.messages methods stubs else []
  | .onRecv => io.messages methods stubs
  | _ => []

end SessionIo

/-- `wire` is what is on its way to an end. -/
structure Link (μ : Type) where
  ends : Peer → SessionIo
  wire : Peer → List UInt8
  dispatched : Peer → List μ

inductive LinkAction (μ : Type) where
  | sendProtocol (peer : Peer) (stale : Nat → UInt8) (message : μ)
  | act (peer : Peer) (action : IoAction)

namespace Link

def create (sizes : Peer → Nat × Nat) : Except Thrown (Link μ) := do
  let server ← SessionIo.create (sizes .server).1 (sizes .server).2
  let client ← SessionIo.create (sizes .client).1 (sizes .client).2
  return ⟨fun | .server => server | .client => client, fun _ => [], fun _ => []⟩

def act (link : Link μ) (peer : Peer) (action : IoAction) : Option (Link μ) :=
  let io := link.ends peer
  let chunk := io.arrived action
  if chunk <+: link.wire peer then
    match io.step methods stubs action with
    | none => none
    | some next => some {
        ends := Function.update link.ends peer next
        wire := Function.update (Function.update link.wire peer ((link.wire peer).drop chunk.length)) peer.other
          (link.wire peer.other ++ next.kernel.drop io.kernel.length)
        dispatched := Function.update link.dispatched peer (link.dispatched peer ++ io.dispatches methods stubs action) }
  else
    none

/-- `session_manager::send_protocol` encodes into a stream of its own before it takes the lock. -/
def step (link : Link μ) : LinkAction μ → Option (Link μ)
  | .sendProtocol peer stale message =>
    match encode methods stale message Octetsstream.new with
    | .ok _ os => link.act methods stubs peer (.enter os.bytes)
    | .error _ _ => none
  | .act _ (.enter _) => none
  | .act peer action => link.act methods stubs peer action

end Link
end
end Cassobee
