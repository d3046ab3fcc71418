import Cassobee.Progen
import Cassobee.Protocol

/-! Two builds of one protocol: the classes that `progen.py` makes of a schema before and after it has changed.
The bit of a field is its place in the list, so a schema changes at its end. -/

namespace Cassobee

/-- The classes that a process has, by protocol id, and which of them have put a stub into `get_map()`. -/
structure CodedClasses (codefield : ProtocolId → CodeType) where
  Values : ProtocolId → Type
  fields (id : ProtocolId) : Fields (Values id)
  registered : ProtocolId → Bool

namespace CodedClasses
variable {codefield : ProtocolId → CodeType}

abbrev Message (classes : CodedClasses codefield) : Type := (id : ProtocolId) × Coded (codefield id) (classes.Values id)

def methods (classes : CodedClasses codefield) : ProtocolMethods classes.Message where
  getType message := message.1
  pack message := message.2.pack (classes.fields message.1)
  unpack stub := do return ⟨stub.1, ← stub.2.unpack (classes.fields stub.1)⟩

def stubs (classes : CodedClasses codefield) : Stubs classes.Message := fun id =>
  if classes.registered id then some ⟨id, .default (classes.fields id)⟩ else none

end CodedClasses

/-- `encode` of one message after another. -/
def encodeAll {μ : Type} (methods : ProtocolMethods μ) (stale : Nat → UInt8) : List μ → StreamM Unit
  | [] => pure ()
  | message :: messages => do
    encode methods stale message
    encodeAll methods stale messages

/-- The fields that are written, and those that are read: they begin alike, up to the initializers, and one of
the two may go on. -/
inductive Evolves : {γ ρ : Type} → Fields γ → Fields ρ → Type 1 where
  | newer {γ : Type} (added : Fields γ) : Evolves added .none
  | older {ρ : Type} (added : Fields ρ) : Evolves .none added
  | kept {α γ ρ : Type} {written : Fields γ} {read : Fields ρ} (type : FieldType α) (init : α) (later : Evolves written read) :
      Evolves (.field type written) (.field { type with init } read)

namespace Evolves
variable (codefield : CodeType) (code : BitVec codefield.bits)

/-- What a reader is to get: the fields that are set and that it has, and its own initializers. -/
def received {γ ρ : Type} {written : Fields γ} {read : Fields ρ} : Nat → Evolves written read → γ → ρ
  | _, .newer _, _ => ()
  | _, .older added, _ => added.default
  | idx, .kept _ init later, values =>
    (if codefield.test code idx then values.1 else init, later.received (idx + 1) values.2)

end Evolves
end Cassobee
