import Cassobee.Protocol
import Mathlib.Logic.Function.Basic

/-! Remote calls of `io/rpc.cpp`. The static members `_rpcs` and `next_traceid` exist once in every
process. Processes exchange packets, each holding the fields that `rpc::pack` writes; a session is
named by the process at its other end. -/

namespace Cassobee

variable {π δ : Type}

/-- An rpc object of a class whose `get_timeout()` is given. -/
structure Rpc (π δ : Type) where
  type : ProtocolId
  getTimeout : BitVec 32
  traceid : Nat
  proxyTraceid : Nat
  isServer : Bool
  argument : Option δ
  result : Option δ
  sid : Option π
  deriving DecidableEq

structure Packet (π δ : Type) where
  src : π
  dst : π
  type : ProtocolId
  traceid : Nat
  isServer : Bool
  data : δ
  deriving DecidableEq

/-- `add_timer`'s period in milliseconds, and the trace id that the handler has captured. -/
structure TimeoutTimer where
  delay : Int
  traceid : Nat
  deriving DecidableEq, Repr

/-- The statics of one process. Each timer is kept with the call for which it was armed. -/
structure RpcTable (π δ : Type) where
  nextTraceid : Nat
  rpcs : Nat → Option (Rpc π δ)
  timers : List (Nat × TimeoutTimer)

/-- The registered rpc objects; each names the class under which it is found. -/
structure RpcStubs (π δ : Type) where
  find : Stubs (Rpc π δ)
  type {id : ProtocolId} {stub : Rpc π δ} (found : find id = some stub) : stub.type = id

def RpcTable.new : RpcTable π δ := ⟨0, fun _ => none, []⟩

/-- `*_result` or `*_argument` of a null pointer has no value. -/
def Rpc.pack (rpc : Rpc π δ) (src dst : π) : Option (Packet π δ) :=
  if rpc.isServer then
    rpc.result.map fun data => ⟨src, dst, rpc.type, rpc.traceid, true, data⟩
  else
    rpc.argument.map fun data => ⟨src, dst, rpc.type, rpc.traceid, false, data⟩

/-- Runs on a copy of the stub, with the roles reversed. -/
def Rpc.unpack (stub : Rpc π δ) (packet : Packet π δ) : Rpc π δ :=
  if !packet.isServer then
    { stub with traceid := packet.traceid, isServer := true, argument := some packet.data, sid := some packet.src }
  else
    { stub with
      traceid := packet.traceid, isServer := false, argument := none, result := some packet.data
      sid := some packet.src }

/-- `timeout > 0 ? timeout : 30`. -/
def Rpc.timeoutSeconds (rpc : Rpc π δ) : Int := if rpc.getTimeout.toInt > 0 then rpc.getTimeout.toInt else 30

/-- `timeout * 1000` is a product of `int`s. -/
def setTimeoutTimer (traceid : Nat) (timeout : Int) : TimeoutTimer := ⟨Int.bmod (timeout * 1000) (2 ^ 32), traceid⟩

/-- The arguments as `set_request` passes them, seconds and then the trace id, each converted to the
type of the parameter in its place. -/
def Rpc.timeoutTimer (rpc : Rpc π δ) : TimeoutTimer :=
  setTimeoutTimer (rpc.timeoutSeconds % (wordSize : Int)).toNat (Int.bmod rpc.traceid (2 ^ 32))

namespace RpcTable

def setRequest (table : RpcTable π δ) (rpc : Rpc π δ) (isProxy : Bool) : RpcTable π δ × Rpc π δ :=
  let traceid := (table.nextTraceid + 1) % wordSize
  let rpc := { rpc with
    proxyTraceid := if isProxy then rpc.traceid else rpc.proxyTraceid
    traceid := traceid
    isServer := false }
  let rpcs := match table.rpcs traceid with
    | some _ => table.rpcs
    | none => Function.update table.rpcs traceid (some rpc)
  (⟨traceid, rpcs, (traceid, rpc.timeoutTimer) :: table.timers⟩, rpc)

/-- The lookup under the lock that a response and a timer share. -/
def take (table : RpcTable π δ) (traceid : Nat) : Option (Rpc π δ × RpcTable π δ) :=
  (table.rpcs traceid).map fun rpc => (rpc, { table with rpcs := Function.update table.rpcs traceid none })

end RpcTable

def Rpc.clrRequest (rpc : Rpc π δ) (isProxy : Bool) : Rpc π δ :=
  if isProxy then
    { rpc with isServer := true, traceid := rpc.proxyTraceid, proxyTraceid := 0 }
  else
    { rpc with isServer := true }

/-! ## Processes and packets -/

/-- What has been done to an rpc object at a process. -/
inductive RpcEvent (π δ : Type) where
  | registered (process : π) (rpc : Rpc π δ)
  | served (process : π) (rpc : Rpc π δ)
  | client (process : π) (rpc : Rpc π δ)
  | timeout (process : π) (rpc : Rpc π δ)
  deriving DecidableEq

structure RpcSystem (π δ : Type) where
  tables : π → RpcTable π δ
  network : List (Packet π δ)
  log : List (RpcEvent π δ)

def RpcSystem.initial : RpcSystem π δ := ⟨fun _ => .new, [], []⟩

/-- A packet is delivered without leaving the network, so that it may come again, in any order and
at any time. `result` is what `server()` writes and `more` what it returns. A timer may fire for any
trace id. -/
inductive RpcAction (π δ : Type) where
  | call (process : π) (rpc : Rpc π δ)
  | send (process : π) (traceid : Nat) (dst : π)
  | deliver (packet : Packet π δ) (result : δ) (more : Bool)
  | lose (packet : Packet π δ)
  | fire (process : π) (traceid : Nat)

namespace RpcSystem
variable [DecidableEq π] [DecidableEq δ]

def request (system : RpcSystem π δ) (process : π) (rpc : Rpc π δ) (isProxy : Bool) : RpcSystem π δ :=
  let (table, rpc) := (system.tables process).setRequest rpc isProxy
  { system with
    tables := Function.update system.tables process table
    log := .registered process rpc :: system.log }

def transmit (system : RpcSystem π δ) (src dst : π) (rpc : Rpc π δ) : Option (RpcSystem π δ) :=
  (rpc.pack src dst).map fun packet => { system with network := packet :: system.network }

/-- The server's half of `rpc::run`. -/
def runServer (system : RpcSystem π δ) (process : π) (rpc : Rpc π δ) (result : δ) (more : Bool) :
    Option (RpcSystem π δ) :=
  let rpc := { rpc with result := some result }
  let system := { system with log := .served process rpc :: system.log }
  if more then
    some (system.request process rpc true)
  else
    match rpc.sid with
    | some peer => system.transmit process peer rpc
    | none => some system

/-- The client's half of `rpc::run`. -/
def runClient (system : RpcSystem π δ) (process : π) (rpc : Rpc π δ) : Option (RpcSystem π δ) :=
  match (system.tables process).take rpc.traceid with
  | none => some system
  | some (prpc, table) =>
    let prpc := { prpc with result := rpc.result }
    let system := { system with tables := Function.update system.tables process table }
    if prpc.proxyTraceid > 0 then
      let prpc := prpc.clrRequest true
      match prpc.sid with
      | some peer => system.transmit process peer prpc
      | none => some system
    else
      some { system with log := .client process prpc :: system.log }

def run (system : RpcSystem π δ) (process : π) (rpc : Rpc π δ) (result : δ) (more : Bool) : Option (RpcSystem π δ) :=
  if rpc.isServer then
    system.runServer process rpc result more
  else
    system.runClient process rpc

def fire (system : RpcSystem π δ) (process : π) (traceid : Nat) : RpcSystem π δ :=
  match (system.tables process).take traceid with
  | none => system
  | some (prpc, table) =>
    { system with
      tables := Function.update system.tables process table
      log := .timeout process prpc :: system.log }

/-- `none` where the action is not possible, or where the code would follow a null pointer. An rpc
object passed to `rpc::call` holds its argument; one that is sent is still registered. -/
def step (stubs : RpcStubs π δ) (system : RpcSystem π δ) : RpcAction π δ → Option (RpcSystem π δ)
  | .call process rpc => some (system.request process { rpc with proxyTraceid := 0, result := none, sid := none } false)
  | .send process traceid dst => do system.transmit process dst (← (system.tables process).rpcs traceid)
  | .deliver packet result more =>
    if packet ∈ system.network then
      match stubs.find packet.type with
      | some stub => system.run packet.dst (stub.unpack packet) result more
      | none => some system
    else
      none
  | .lose packet => some { system with network := system.network.erase packet }
  | .fire process traceid => some (system.fire process traceid)

end RpcSystem

/-! ## Timers of one process -/

inductive TimeoutEvent where
  | requested (traceid : Nat) (seconds : Int) (timer : TimeoutTimer)
  | answered (traceid : Nat)
  | fired (owner : Nat)
  | timedOut (owner traceid : Nat)
  deriving DecidableEq, Repr

structure TimeoutSystem (π δ : Type) where
  table : RpcTable π δ
  log : List TimeoutEvent

inductive TimeoutAction (π δ : Type) where
  | request (rpc : Rpc π δ) (isProxy : Bool)
  | respond (traceid : Nat)
  | fire (owner : Nat) (timer : TimeoutTimer)

namespace TimeoutSystem

def initial : TimeoutSystem π δ := ⟨.new, []⟩

def step (system : TimeoutSystem π δ) : TimeoutAction π δ → Option (TimeoutSystem π δ)
  | .request rpc isProxy =>
    let (table, rpc) := system.table.setRequest rpc isProxy
    some ⟨table, .requested rpc.traceid rpc.timeoutSeconds rpc.timeoutTimer :: system.log⟩
  | .respond traceid =>
    match system.table.take traceid with
    | some (_, table) => some ⟨table, .answered traceid :: system.log⟩
    | none => some system
  | .fire owner timer =>
    if (owner, timer) ∈ system.table.timers then
      match system.table.take timer.traceid with
      | some (_, table) => some ⟨table, .timedOut owner timer.traceid :: .fired owner :: system.log⟩
      | none => some { system with log := .fired owner :: system.log }
    else
      none

end TimeoutSystem
end Cassobee
