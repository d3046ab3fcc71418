import Cassobee.Marshal

/-! What `tools/protocol_tool/progen.py` writes for a class: the enumerators of its fields, the setters and
`clean_default` of a class with a codefield, `pack` and `unpack`. The classes are those whose names, types and initializers
the compiler accepts; the enumerators are constant expressions that it may reject. -/

namespace Cassobee

/-! ## The codefield -/

/-- The integer types that a codefield can have. -/
inductive CodeType where
  | bool
  | byte (signed : Bool)
  | int (signed : Bool) (w : IntWidth)
  deriving DecidableEq, Repr

/-- `1 << idx` as a constant expression of type `int`. -/
def fieldConstant (idx : Nat) : Option (BitVec 32) := if idx < 32 then some (1#32 <<< idx) else none

/-- `(1 << count) - 1`: an overflow is no constant expression. -/
def allFieldsConstant (count : Nat) : Option (BitVec 32) := do
  let one ← fieldConstant count
  if one = BitVec.intMin 32 then none else some (one - 1#32)

namespace CodeType

def bits : CodeType → Nat
  | .bool => 1
  | .byte _ => 8
  | .int _ w => w.bits

def signed : CodeType → Bool
  | .bool => false
  | .byte signed => signed
  | .int signed _ => signed

/-- The width of the type in which `code` and an enumerator are combined. -/
def common (type : CodeType) : Nat := max type.bits 32

def extend (type : CodeType) (code : BitVec type.bits) : BitVec type.common :=
  if type.signed then code.signExtend _ else code.setWidth _

/-- The conversion back. A `bool` tells whether the value is zero. -/
def narrow (type : CodeType) (value : BitVec type.common) : BitVec type.bits :=
  if type = .bool then (if value = 0 then 0 else 1) else value.setWidth _

/-- `FIELDS_X` for the field at this index. -/
def flag (type : CodeType) (idx : Nat) : BitVec type.common := ((fieldConstant idx).getD 0).signExtend _

/-- `code & FIELDS_X`. -/
def test (type : CodeType) (code : BitVec type.bits) (idx : Nat) : Bool := type.extend code &&& type.flag idx ≠ 0

/-- `code |= FIELDS_X`. -/
def mark (type : CodeType) (code : BitVec type.bits) (idx : Nat) : BitVec type.bits :=
  type.narrow (type.extend code ||| type.flag idx)

/-- `code &= ~FIELDS_X`. The complement is of type `int`. -/
def unmark (type : CodeType) (code : BitVec type.bits) (idx : Nat) : BitVec type.bits :=
  type.narrow (type.extend code &&& (~~~((fieldConstant idx).getD 0)).signExtend _)

/-- `code = ALLFIELDS`. -/
def markAll (type : CodeType) (count : Nat) : BitVec type.bits :=
  type.narrow (((allFieldsConstant count).getD 0).signExtend _)

def push : (type : CodeType) → BitVec type.bits → StreamM Unit
  | .bool, code => Ty.bool.push (code.getLsbD 0)
  | .byte _, code => pushScalar (.raw Pod.byte) (UInt8.ofBitVec code)
  | .int signed w, code => pushScalar (.int signed w) code

def pop : (type : CodeType) → StreamM (BitVec type.bits)
  | .bool => do return BitVec.ofBool (← Ty.bool.pop false)
  | .byte _ => do return (← popScalar (.raw Pod.byte)).toBitVec
  | .int signed w => popScalar (.int signed w)

end CodeType

/-! ## The fields -/

/-- A field's overloads of `<<` and `>>` and its initializer, with the values that it can hold and the
bytes that are written for them. -/
structure FieldType (α : Type) where
  push : α → StreamM Unit
  pop : α → StreamM α
  init : α
  Holds : α → Prop
  encode : α → List UInt8

inductive Fields : Type → Type 1 where
  | none : Fields Unit
  | field {α β : Type} (type : FieldType α) (rest : Fields β) : Fields (α × β)

namespace Fields

def count {γ : Type} : Fields γ → Nat
  | .none => 0
  | .field _ rest => rest.count + 1

def default {γ : Type} : Fields γ → γ
  | .none => ()
  | .field type rest => (type.init, rest.default)

def Holds {γ : Type} : Fields γ → γ → Prop
  | .none, _ => True
  | .field type rest, values => type.Holds values.1 ∧ rest.Holds values.2

/-- `os << x;` for every field. -/
def pushAll {γ : Type} : Fields γ → γ → StreamM Unit
  | .none, _ => pure ()
  | .field type rest, values => do
    type.push values.1
    rest.pushAll values.2

def popAll {γ : Type} : Fields γ → γ → StreamM γ
  | .none, _ => return ()
  | .field type rest, values => do
    let one ← type.pop values.1
    let others ← rest.popAll values.2
    return (one, others)

/-- `if(code & FIELDS_X) os << x;` for every field, from this index on. -/
def push (codefield : CodeType) (code : BitVec codefield.bits) {γ : Type} : Nat → Fields γ → γ → StreamM Unit
  | _, .none, _ => pure ()
  | idx, .field type rest, values => do
    if codefield.test code idx then
      type.push values.1
    push codefield code (idx + 1) rest values.2

def pop (codefield : CodeType) (code : BitVec codefield.bits) {γ : Type} : Nat → Fields γ → γ → StreamM γ
  | _, .none, _ => return ()
  | idx, .field type rest, values => do
    let one ← if codefield.test code idx then type.pop values.1 else pure values.1
    let others ← pop codefield code (idx + 1) rest values.2
    return (one, others)

/-- The enumerators of the class are constants. -/
def Compiles {γ : Type} (fields : Fields γ) : Prop :=
  (∀ idx < fields.count, (fieldConstant idx).isSome) ∧ (allFieldsConstant fields.count).isSome

end Fields

/-- What the text for a field means for its type `T`: `T()`, the value of a member `T x;` in a new object, and `==`. The
member of a basic type has whatever was there. -/
structure TypeText (α : Type) where
  valueInit : α
  defaultInit : α
  equal : α → α → Bool

/-- The default in the schema: `{}`, or an expression `d`, of which `T x = d;` and `x == d` are written. -/
inductive FieldDefault (α : Type) where
  | braces
  | expression (initial : α) (equals : α → Bool)

namespace FieldDefault
variable {α : Type}

/-- What `_generate_public_fields` makes of it. -/
def initial (text : TypeText α) : FieldDefault α → α
  | .braces => text.defaultInit
  | .expression initial _ => initial

/-- What `clean_default` compares the field with. -/
def isDefault (text : TypeText α) : FieldDefault α → α → Bool
  | .braces, value => text.equal value text.valueInit
  | .expression _ equals, value => equals value

end FieldDefault

/-- The defaults of the fields. A value that is taken for the default is not a long one. -/
inductive Declared : {γ : Type} → Fields γ → Type 1 where
  | none : Declared .none
  | field {α β : Type} {type : FieldType α} {rest : Fields β} (text : TypeText α) (default : FieldDefault α)
      (emitted : type.init = default.initial text)
      (short : ∀ value, type.Holds value → default.isDefault text value = true → (type.encode value).length ≤ 2 ^ 62)
      (others : Declared rest) : Declared (.field type rest)

/-- `if(x == d) code &= ~FIELDS_X;` for every field, from this index on. -/
def Declared.clean (codefield : CodeType) {γ : Type} {fields : Fields γ} (idx : Nat) (declared : Declared fields) (values : γ)
    (code : BitVec codefield.bits) : BitVec codefield.bits :=
  match declared with
  | .none => code
  | .field text default _ _ others =>
    others.clean codefield (idx + 1) values.2
      (if default.isDefault text values.1 then codefield.unmark code idx else code)

/-- A call of `set_x()` or `set_x(value)` of one of the fields. -/
inductive FieldSetter : {γ : Type} → Fields γ → Type 1 where
  | touch {α β : Type} {type : FieldType α} {rest : Fields β} : FieldSetter (.field type rest)
  | assign {α β : Type} {type : FieldType α} {rest : Fields β} (value : α) (holds : type.Holds value) :
      FieldSetter (.field type rest)
  | later {α β : Type} {type : FieldType α} {rest : Fields β} (setter : FieldSetter rest) : FieldSetter (.field type rest)

namespace FieldSetter

def index {γ : Type} {fields : Fields γ} : FieldSetter fields → Nat
  | .touch => 0
  | .assign _ _ => 0
  | .later setter => setter.index + 1

def assigned {γ : Type} {fields : Fields γ} : FieldSetter fields → γ → γ
  | .touch, values => values
  | .assign value _, values => (value, values.2)
  | .later setter, values => (values.1, setter.assigned values.2)

end FieldSetter

inductive Setter {γ : Type} (fields : Fields γ) where
  | field (setter : FieldSetter fields)
  | allFields

/-- An object of a class with a codefield. -/
structure Coded (codefield : CodeType) (γ : Type) where
  code : BitVec codefield.bits
  values : γ

namespace Coded
variable {codefield : CodeType} {γ : Type}

def default (fields : Fields γ) : Coded codefield γ := ⟨0, fields.default⟩

def set {fields : Fields γ} (object : Coded codefield γ) : Setter fields → Coded codefield γ
  | .field setter => ⟨codefield.mark object.code setter.index, setter.assigned object.values⟩
  | .allFields => { object with code := codefield.markAll fields.count }

def cleanDefault {fields : Fields γ} (declared : Declared fields) (object : Coded codefield γ) : Coded codefield γ :=
  { object with code := declared.clean codefield 0 object.values object.code }

def pack (fields : Fields γ) (object : Coded codefield γ) : StreamM Unit := do
  codefield.push object.code
  fields.push codefield object.code 0 object.values

def unpack (fields : Fields γ) (object : Coded codefield γ) : StreamM (Coded codefield γ) := do
  let code ← codefield.pop
  let values ← fields.pop codefield code 0 object.values
  return ⟨code, values⟩

end Coded
end Cassobee
