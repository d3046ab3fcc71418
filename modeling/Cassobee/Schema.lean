import Cassobee.Protocol

/-! The message classes that `tools/protocol_tool/progen.py` writes, and the remote calls of
`io/rpc.cpp` over such classes: what their `pack` and `unpack` do. -/

namespace Cassobee

/-- The fields of a class with a codefield, each with the bit that tells whether it is sent. -/
inductive Members (n : Nat) : Type → Type 1 where
  | none : Members n Unit
  | field {b : Bool} {α β : Type} (mask : BitVec n) (type : Ty b α) (init : α) (rest : Members n β) : Members n (α × β)

namespace Members
variable {n : Nat}

def default {γ : Type} : Members n γ → γ
  | .none => ()
  | .field _ _ init rest => (init, rest.default)

/-- `if(code & FIELDS_X) os << x;` for every field. -/
def push (code : BitVec n) {γ : Type} : Members n γ → γ → StreamM Unit
  | .none, _ => pure ()
  | .field mask type _ rest, value => do
    if code &&& mask ≠ 0#n then
      type.push value.1
    rest.push code value.2

def pop (code : BitVec n) {γ : Type} : Members n γ → γ → StreamM γ
  | .none, _ => return ()
  | .field mask type _ rest, value => do
    let one ← if code &&& mask ≠ 0#n then type.pop value.1 else pure value.1
    let others ← rest.pop code value.2
    return (one, others)

end Members

/-- A generated class without or with a codefield. -/
inductive Layout : Type → Type 1 where
  | plain {b : Bool} {α : Type} (type : Ty b α) : Layout α
  | coded {n : Nat} {γ : Type} (code : Scalar (BitVec n)) (members : Members n γ) : Layout (BitVec n × γ)

namespace Layout

def default {α : Type} : Layout α → α
  | .plain type => type.default
  | .coded _ members => (0, members.default)

def push {α : Type} : Layout α → α → StreamM Unit
  | .plain type, value => type.push value
  | .coded code members, value => do
    pushScalar code value.1
    members.push value.1 value.2

def pop {α : Type} : Layout α → α → StreamM α
  | .plain type, value => type.pop value
  | .coded code members, value => do
    let found ← popScalar code
    let others ← members.pop found value.2
    return (found, others)

end Layout

/-- What `rpc::pack` and `rpc::unpack` touch of an rpc object; a null pointer is `none`. -/
structure RpcFields (α β : Type) where
  traceid : BitVec 64
  isServer : Bool
  argument : Option α
  result : Option β

inductive MessageClass : Type → Type 1 where
  | protocol {α : Type} (layout : Layout α) : MessageClass α
  | rpc {α β : Type} (argument : Layout α) (result : Layout β) : MessageClass (RpcFields α β)

/-- Access through a pointer. -/
def dereference {α : Type} : Option α → StreamM α
  | some value => pure value
  | none => throw .abort

namespace MessageClass

def default {α : Type} : MessageClass α → α
  | .protocol layout => layout.default
  | .rpc argument result => ⟨0, false, some argument.default, some result.default⟩

def pack {α : Type} : MessageClass α → α → StreamM Unit
  | .protocol layout, value => layout.push value
  | .rpc argument result, value => do
    pushCompactu64 value.traceid
    pushPod Pod.bool value.isServer
    if value.isServer then
      result.push (← dereference value.result)
    else
      argument.push (← dereference value.argument)

/-- The roles are reversed, and `dup` copies what the stub points to. -/
def unpack {α : Type} : MessageClass α → α → StreamM α
  | .protocol layout, value => layout.pop value
  | .rpc argument result, value => do
    let traceid ← popCompactu64
    let isServer ← popPod Pod.bool
    if !isServer then
      let found ← argument.pop (← dereference value.argument)
      let empty ← dereference value.result
      return ⟨traceid, true, some found, some empty⟩
    else
      let found ← result.pop (← dereference value.result)
      return ⟨traceid, false, none, some found⟩

end MessageClass

/-- The classes of a process by id, and which of them have put a stub into `get_map()`. -/
structure Schema where
  Fields : ProtocolId → Type
  cls (id : ProtocolId) : MessageClass (Fields id)
  registered : ProtocolId → Bool

namespace Schema

abbrev Message (schema : Schema) : Type := (id : ProtocolId) × schema.Fields id

def methods (schema : Schema) : ProtocolMethods schema.Message where
  getType message := message.1
  pack message := (schema.cls message.1).pack message.2
  unpack stub := do return ⟨stub.1, ← (schema.cls stub.1).unpack stub.2⟩

def stubs (schema : Schema) : Stubs schema.Message := fun id =>
  if schema.registered id then some ⟨id, (schema.cls id).default⟩ else none

end Schema
end Cassobee
