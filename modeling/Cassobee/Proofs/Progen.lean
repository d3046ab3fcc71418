import Cassobee.Progen
import Cassobee.Proofs.Framing

/-! The classes that `progen.py` writes round-trip as far as their codefield is wide enough for their
fields: an enumerator beyond its width is lost when it is or-ed into `code`, and so is the field. -/

namespace Cassobee.Proofs
open Octetsstream

/-! ## Enumerators -/

section Codes
variable (type : CodeType)

theorem bits_pos : 0 < type.bits := by
  cases type with
  | bool | byte _ => exact Nat.succ_pos _
  | int _ w => cases w <;> exact Nat.succ_pos _

theorem flag_eq {idx : Nat} (positive : idx < 31) : type.flag idx = BitVec.twoPow type.common idx := by
  have wide : 32 ≤ type.common := Nat.le_max_right ..
  rw [CodeType.flag, fieldConstant, if_pos (by omega), Option.getD_some, ← BitVec.twoPow_eq]
  apply BitVec.eq_of_getLsbD_eq
  intro i within
  have sign : (BitVec.twoPow 32 idx).msb = false := by
    rw [BitVec.msb_eq_getLsbD_last, BitVec.getLsbD_twoPow]
    simp
    omega
  rw [BitVec.getLsbD_signExtend, BitVec.getLsbD_twoPow, BitVec.getLsbD_twoPow, sign]
  by_cases same : idx = i
  · subst same
    simp [show idx < 32 by omega, within]
  · simp [same]

theorem test_eq (code : BitVec type.bits) {idx : Nat} (positive : idx < 31) :
    type.test code idx = (type.extend code).getLsbD idx := by
  have wide : 32 ≤ type.common := Nat.le_max_right ..
  have nonzero : BitVec.twoPow type.common idx ≠ BitVec.ofNat type.common 0 := by
    intro zero
    have bit := congrArg (fun value => value.getLsbD idx) zero
    simp [show idx < type.common by omega] at bit
  rw [CodeType.test, flag_eq type positive, BitVec.and_twoPow]
  cases (type.extend code).getLsbD idx <;> simp [nonzero]

theorem extend_bit (code : BitVec type.bits) {idx : Nat} (within : idx < type.bits) :
    (type.extend code).getLsbD idx = code.getLsbD idx := by
  have wide : type.bits ≤ type.common := Nat.le_max_left ..
  unfold CodeType.extend
  split
  · rw [BitVec.getLsbD_signExtend]
    simp [within, show idx < type.common by omega]
  · rw [BitVec.getLsbD_setWidth]
    simp [show idx < type.common by omega]

theorem test_bit (code : BitVec type.bits) {idx : Nat} (positive : idx < 31) (within : idx < type.bits) :
    type.test code idx = code.getLsbD idx := by
  rw [test_eq type code positive, extend_bit type code within]

/-- A bit of the value that is narrowed survives. -/
theorem narrow_bit {value : BitVec type.common} {idx : Nat} (within : idx < type.bits) (bit : value.getLsbD idx = true) :
    (type.narrow value).getLsbD idx = true := by
  unfold CodeType.narrow
  split
  next bool =>
    subst bool
    obtain rfl : idx = 0 := by simpa [CodeType.bits] using within
    have nonzero : value ≠ 0 := by
      intro zero
      rw [zero] at bit
      simp at bit
    rw [if_neg nonzero]
    rfl
  next =>
    rw [BitVec.getLsbD_setWidth]
    simpa [bit] using within

theorem mark_keeps {code : BitVec type.bits} {idx : Nat} (other : Nat) (within : idx < type.bits)
    (bit : code.getLsbD idx = true) : (type.mark code other).getLsbD idx = true := by
  apply narrow_bit type within
  rw [BitVec.getLsbD_or, extend_bit type code within, bit, Bool.true_or]

theorem mark_marks (code : BitVec type.bits) {idx : Nat} (positive : idx < 31) (within : idx < type.bits) :
    (type.mark code idx).getLsbD idx = true := by
  have wide : 32 ≤ type.common := Nat.le_max_right ..
  apply narrow_bit type within
  rw [BitVec.getLsbD_or, flag_eq type positive, BitVec.getLsbD_twoPow]
  simp [show idx < type.common by omega]

theorem fieldConstant_eq {idx : Nat} (small : idx < 32) : fieldConstant idx = some (BitVec.twoPow 32 idx) := by
  rw [fieldConstant, if_pos small, BitVec.twoPow_eq]

theorem twoPow_ne_intMin {idx : Nat} (small : idx < 31) : BitVec.twoPow 32 idx ≠ BitVec.intMin 32 := by
  intro same
  have bit := congrArg (fun value => value.getLsbD 31) same
  rw [BitVec.getLsbD_twoPow, decide_eq_false (Nat.ne_of_lt small), Bool.and_false] at bit
  exact absurd bit (by decide)

theorem allFieldsConstant_eq {count : Nat} (few : count ≤ 30) :
    allFieldsConstant count = some (BitVec.twoPow 32 count - 1#32) := by
  rw [allFieldsConstant, fieldConstant_eq (by omega)]
  exact if_neg (twoPow_ne_intMin (by omega))

theorem allFieldsConstant_isSome (count : Nat) : (allFieldsConstant count).isSome ↔ count ≤ 30 := by
  constructor
  · intro constant
    by_contra many
    by_cases last : count = 31
    · subst last
      exact absurd constant (by decide)
    · have none : allFieldsConstant count = none := by
        rw [allFieldsConstant, fieldConstant, if_neg (by omega)]
        rfl
      rw [none] at constant
      cases constant
  · intro few
    rw [allFieldsConstant_eq few]
    rfl

theorem allFields_bit {idx count : Nat} (few : count ≤ 30) (among : idx < count) :
    (BitVec.twoPow 32 count - 1#32).getLsbD idx = true := by
  have power : 2 ^ count ≤ 2 ^ 30 := Nat.pow_le_pow_right (by decide) few
  have positive : 0 < 2 ^ count := Nat.two_pow_pos count
  have value : (BitVec.twoPow 32 count - 1#32).toNat = 2 ^ count - 1 := by
    rw [BitVec.toNat_sub, BitVec.toNat_twoPow, BitVec.toNat_ofNat, Nat.mod_eq_of_lt (show 2 ^ count < 2 ^ 32 by omega)]
    omega
  rw [BitVec.getLsbD, value, Nat.testBit_two_pow_sub_one]
  simpa using among

theorem markAll_marks {idx count : Nat} (few : count ≤ 30) (among : idx < count) (within : idx < type.bits) :
    (type.markAll count).getLsbD idx = true := by
  have wide : 32 ≤ type.common := Nat.le_max_right ..
  apply narrow_bit type within
  rw [allFieldsConstant_eq few, Option.getD_some, BitVec.getLsbD_signExtend, if_pos (by omega), allFields_bit few among]
  simp
  omega

theorem extend_zero : type.extend 0 = 0 := by
  unfold CodeType.extend
  split
  · apply BitVec.eq_of_getLsbD_eq
    intro i within
    rw [BitVec.getLsbD_signExtend]
    simp
  · exact BitVec.setWidth_zero ..

theorem mark_nothing {idx : Nat} (positive : idx < 31) (beyond : type.bits ≤ idx) (wider : type ≠ .bool) : type.mark 0 idx = 0 := by
  rw [CodeType.mark, CodeType.narrow, if_neg wider, extend_zero, flag_eq type positive]
  apply BitVec.eq_of_getLsbD_eq
  intro i within
  rw [BitVec.getLsbD_setWidth]
  simp
  omega

/-- Beyond the width of `code` nothing is marked, or in a `bool` the first field. -/
theorem mark_beyond {idx other : Nat} (positive : idx < 31) (beyond : type.bits ≤ idx) (positive' : other < 31)
    (tested : type.test (type.mark 0 idx) other = true) : other = 0 := by
  rw [test_eq type _ positive'] at tested
  by_cases bool : type = .bool
  · subst bool
    have bit : (BitVec.setWidth CodeType.bool.common (CodeType.bool.mark 0 idx)).getLsbD other = true := tested
    rw [BitVec.getLsbD_setWidth, Bool.and_eq_true] at bit
    exact Nat.lt_one_iff.1 (BitVec.lt_of_getLsbD bit.2)
  · rw [mark_nothing type positive beyond bool, extend_zero] at tested
    simp at tested

end Codes

/-! ## Packing and unpacking -/

/-- The bytes of `code`. -/
def codeBytes : (type : CodeType) → BitVec type.bits → List UInt8
  | .bool, code => Ty.bool.encode (code.getLsbD 0)
  | .byte _, code => (Ty.scalar (.raw Pod.byte)).encode (UInt8.ofBitVec code)
  | .int signed w, code => (Ty.scalar (.int signed w)).encode code

theorem code_appends (type : CodeType) (code : BitVec type.bits) : Appends (type.push code) (codeBytes type code) := by
  cases type with
  | bool => exact push_appends Ty.bool trivial
  | byte _ => exact push_appends (Ty.scalar (.raw Pod.byte)) trivial
  | int signed w => exact push_appends (Ty.scalar (.int signed w)) trivial

theorem code_reads (type : CodeType) (code : BitVec type.bits) : Reads type.pop (codeBytes type code) code := by
  cases type with
  | bool =>
    have same : ∀ bit : BitVec 1, BitVec.ofBool (bit.getLsbD 0) = bit := by decide
    have read : Reads CodeType.bool.pop (codeBytes .bool code) (BitVec.ofBool (code.getLsbD 0)) :=
      (pop_reads Ty.bool trivial false).map BitVec.ofBool
    exact (congrArg (Reads CodeType.bool.pop (codeBytes .bool code)) (same code)).mp read
  | byte _ => exact (pop_reads (Ty.scalar (.raw Pod.byte)) trivial 0).map UInt8.toBitVec
  | int signed w => exact pop_reads (Ty.scalar (.int signed w)) trivial 0

theorem length_codeBytes (type : CodeType) (code : BitVec type.bits) : (codeBytes type code).length ≤ 10 := by
  have word {n : Nat} (narrow : n ≤ 64) (value : BitVec n) : (writeVarint value.toNat).length ≤ 10 :=
    length_writeVarint_le (Nat.lt_of_lt_of_le value.isLt (Nat.pow_le_pow_right (by decide) narrow))
  cases type with
  | bool => cases bit : code.getLsbD 0 <;> simp [codeBytes, bit, Ty.encode, hostToNetwork, Pod.bool]
  | byte _ => simp [codeBytes, Ty.encode, scalarBytes, hostToNetwork, Pod.byte]
  | int signed w => cases signed <;> cases w <;> exact word (by decide) _

/-- The type round-trips by itself: what it pushes is popped into a default object. -/
structure Alone {α : Type} (type : FieldType α) : Prop where
  appends : ∀ value, type.Holds value → Appends (type.push value) (type.encode value)
  reads : ∀ value, type.Holds value → Reads (type.pop type.init) (type.encode value) value
  holds : type.Holds type.init
  small : (type.encode type.init).length ≤ 2 ^ 62

def AllAlone {γ : Type} : Fields γ → Prop
  | .none => True
  | .field type rest => Alone type ∧ AllAlone rest

/-- The bytes of the fields that are marked. -/
def fieldBytes (codefield : CodeType) (code : BitVec codefield.bits) {γ : Type} : Nat → Fields γ → γ → List UInt8
  | _, .none, _ => []
  | idx, .field type rest, values =>
    (if codefield.test code idx then type.encode values.1 else []) ++ fieldBytes codefield code (idx + 1) rest values.2

/-- The bytes of the fields of a class without a codefield. -/
def plainBytes {γ : Type} : Fields γ → γ → List UInt8
  | .none, _ => []
  | .field type rest, values => type.encode values.1 ++ plainBytes rest values.2

/-- What comes back: the fields that are marked, and the others as they are in a default object. -/
def restored (codefield : CodeType) (code : BitVec codefield.bits) {γ : Type} : Nat → Fields γ → γ → γ
  | _, .none, _ => ()
  | idx, .field type rest, values =>
    (if codefield.test code idx then values.1 else type.init, restored codefield code (idx + 1) rest values.2)

section Streams
variable {γ : Type} {codefield : CodeType} {code : BitVec codefield.bits}

theorem fields_append {fields : Fields γ} (alone : AllAlone fields) {values : γ} (holds : fields.Holds values) (idx : Nat) :
    Appends (Fields.push codefield code idx fields values) (fieldBytes codefield code idx fields values) := by
  induction fields generalizing idx with
  | none => exact pure_appends
  | field type rest ih =>
    have later := ih alone.2 holds.2 (idx + 1)
    rw [Fields.push, fieldBytes]
    split
    · exact (alone.1.appends _ holds.1).bind later
    · exact later

theorem fields_read {fields : Fields γ} (alone : AllAlone fields) {values : γ} (holds : fields.Holds values) (idx : Nat) :
    Reads (Fields.pop codefield code idx fields fields.default) (fieldBytes codefield code idx fields values)
      (restored codefield code idx fields values) := by
  induction fields generalizing idx with
  | none => exact pure_reads ()
  | field type rest ih =>
    have later := ih alone.2 holds.2 (idx + 1)
    rw [Fields.pop, fieldBytes, restored]
    split
    · exact (alone.1.reads _ holds.1).bind (later.map _)
    · exact (pure_reads _).bind (later.map _)

theorem allFields_append {fields : Fields γ} (alone : AllAlone fields) {values : γ} (holds : fields.Holds values) :
    Appends (fields.pushAll values) (plainBytes fields values) := by
  induction fields with
  | none => exact pure_appends
  | field type rest ih => exact (alone.1.appends _ holds.1).bind (ih alone.2 holds.2)

theorem allFields_read {fields : Fields γ} (alone : AllAlone fields) {values : γ} (holds : fields.Holds values) :
    Reads (fields.popAll fields.default) (plainBytes fields values) values := by
  induction fields with
  | none => exact pure_reads ()
  | field type rest ih => exact (alone.1.reads _ holds.1).bind ((ih alone.2 holds.2).map _)

end Streams

/-! ## Setters -/

/-- Every field is marked or holds its default. -/
def Shown (codefield : CodeType) (code : BitVec codefield.bits) {γ : Type} : Nat → Fields γ → γ → Prop
  | _, .none, _ => True
  | idx, .field type rest, values =>
    (codefield.test code idx = true ∨ values.1 = type.init) ∧ Shown codefield code (idx + 1) rest values.2

/-- The fields beyond the width of `code` have no value but their default. -/
def DefaultsFrom (bits : Nat) {γ : Type} : Nat → Fields γ → Prop
  | _, .none => True
  | idx, .field type rest => (bits ≤ idx → ∀ value, type.Holds value → value = type.init) ∧ DefaultsFrom bits (idx + 1) rest

section Setters
variable {γ : Type} {codefield : CodeType} {code code' : BitVec codefield.bits}

theorem restored_eq_iff (idx : Nat) (fields : Fields γ) (values : γ) :
    restored codefield code idx fields values = values ↔ Shown codefield code idx fields values := by
  induction fields generalizing idx with
  | none => exact iff_of_true rfl trivial
  | field type rest ih =>
    rw [restored, Shown, ← ih, Prod.ext_iff]
    cases codefield.test code idx with
    | true => simp
    | false => simp [eq_comm]

theorem default_holds {fields : Fields γ} (alone : AllAlone fields) : fields.Holds fields.default := by
  induction fields with
  | none => trivial
  | field type rest ih => exact ⟨alone.1.holds, ih alone.2⟩

theorem default_shown (idx : Nat) (fields : Fields γ) : Shown codefield code idx fields fields.default := by
  induction fields generalizing idx with
  | none => trivial
  | field type rest ih => exact ⟨.inr rfl, ih (idx + 1)⟩

theorem assigned_holds {fields : Fields γ} (setter : FieldSetter fields) {values : γ} (holds : fields.Holds values) :
    fields.Holds (setter.assigned values) := by
  induction setter with
  | touch => exact holds
  | assign value fits => exact ⟨fits, holds.2⟩
  | later setter ih => exact ⟨holds.1, ih holds.2⟩

/-- A change of `code` that takes no mark away. -/
theorem Shown.kept {idx : Nat} {fields : Fields γ} {values : γ} (shown : Shown codefield code idx fields values)
    (defaults : DefaultsFrom codefield.bits idx fields) (holds : fields.Holds values)
    (keeps : ∀ other < idx + fields.count, other < codefield.bits → codefield.test code other = true →
      codefield.test code' other = true) : Shown codefield code' idx fields values := by
  induction fields generalizing idx with
  | none => trivial
  | field type rest ih =>
    refine ⟨?_, ih shown.2 defaults.2 holds.2 fun other small => keeps other (by rw [Fields.count]; omega)⟩
    by_cases within : idx < codefield.bits
    · exact shown.1.imp_left (keeps idx (by rw [Fields.count]; omega) within)
    · exact .inr (defaults.1 (Nat.le_of_not_lt within) _ holds.1)

theorem Shown.assigned {idx : Nat} {fields : Fields γ} {values : γ} (shown : Shown codefield code idx fields values)
    (defaults : DefaultsFrom codefield.bits idx fields) (holds : fields.Holds values)
    (keeps : ∀ other < idx + fields.count, other < codefield.bits → codefield.test code other = true →
      codefield.test code' other = true) (setter : FieldSetter fields)
    (marks : idx + setter.index < codefield.bits → codefield.test code' (idx + setter.index) = true) :
    Shown codefield code' idx fields (setter.assigned values) := by
  induction setter generalizing idx with
  | touch => exact shown.kept defaults holds keeps
  | assign value fits =>
    refine ⟨?_, (shown.kept defaults holds keeps).2⟩
    by_cases within : idx < codefield.bits
    · exact .inl (marks within)
    · exact .inr (defaults.1 (Nat.le_of_not_lt within) _ fits)
  | later setter ih =>
    refine ⟨(shown.kept defaults holds keeps).1, ih shown.2 defaults.2 holds.2 (fun other small => keeps other ?_) ?_⟩
    · rw [Fields.count]
      omega
    · intro within
      have marked := marks (by rw [FieldSetter.index]; omega)
      rwa [FieldSetter.index, ← Nat.add_assoc, Nat.add_right_comm] at marked

theorem index_lt {fields : Fields γ} (setter : FieldSetter fields) : setter.index < fields.count := by
  induction setter with
  | touch | assign _ _ => exact Nat.succ_pos _
  | later setter ih => exact Nat.succ_lt_succ ih

/-- Everything is marked. -/
theorem shown_of_all {idx : Nat} {fields : Fields γ} {values : γ} (defaults : DefaultsFrom codefield.bits idx fields)
    (holds : fields.Holds values)
    (all : ∀ other < idx + fields.count, other < codefield.bits → codefield.test code other = true) :
    Shown codefield code idx fields values := by
  induction fields generalizing idx with
  | none => trivial
  | field type rest ih =>
    refine ⟨?_, ih defaults.2 holds.2 fun other small => all other (by rw [Fields.count]; omega)⟩
    by_cases within : idx < codefield.bits
    · exact .inl (all idx (by rw [Fields.count]; omega) within)
    · exact .inr (defaults.1 (Nat.le_of_not_lt within) _ holds.1)

/-- What the setters keep, when `code` is wide enough. -/
theorem set_shown {fields : Fields γ} (few : fields.count ≤ 30) (defaults : DefaultsFrom codefield.bits 0 fields)
    {object : Coded codefield γ} (holds : fields.Holds object.values)
    (shown : Shown codefield object.code 0 fields object.values) (setter : Setter fields) :
    fields.Holds (object.set setter).values ∧ Shown codefield (object.set setter).code 0 fields (object.set setter).values := by
  cases setter with
  | field setter =>
    refine ⟨assigned_holds setter holds, shown.assigned defaults holds (fun other small within tested => ?_) setter ?_⟩
    · rw [test_bit codefield _ (by omega) within] at tested ⊢
      exact mark_keeps codefield _ within tested
    · have small := index_lt setter
      rw [Nat.zero_add]
      intro within
      rw [test_bit codefield _ (by omega) within]
      exact mark_marks codefield _ (by omega) within
  | allFields =>
    refine ⟨holds, shown_of_all defaults holds fun other small within => ?_⟩
    rw [test_bit codefield _ (by omega) within]
    exact markAll_marks codefield few (by omega) within

theorem setters_shown {fields : Fields γ} (few : fields.count ≤ 30) (defaults : DefaultsFrom codefield.bits 0 fields)
    (setters : List (Setter fields)) {object : Coded codefield γ} (holds : fields.Holds object.values)
    (shown : Shown codefield object.code 0 fields object.values) :
    fields.Holds (setters.foldl Coded.set object).values ∧
      Shown codefield (setters.foldl Coded.set object).code 0 fields (setters.foldl Coded.set object).values := by
  induction setters generalizing object with
  | nil => exact ⟨holds, shown⟩
  | cons setter setters ih =>
    obtain ⟨holds', shown'⟩ := set_shown few defaults holds shown setter
    exact ih holds' shown'

/-! ## Round trips -/

/-- The bytes of an object. -/
def codedBytes (fields : Fields γ) (object : Coded codefield γ) : List UInt8 :=
  codeBytes codefield object.code ++ fieldBytes codefield object.code 0 fields object.values

/-- Popping what `push` has written gives the object back. -/
def Restores {α : Type} (push : StreamM Unit) (pop : StreamM α) (value : α) : Prop :=
  ∃ pushed popped, push .new = .ok () pushed ∧ pop pushed = .ok value popped

theorem restores_iff {α : Type} {push : StreamM Unit} {pop : StreamM α} {bytes : List UInt8} {found : α} (value : α)
    (appends : Appends push bytes) (reads : Reads pop bytes found) (room : bytes.length ≤ 2 ^ 63) :
    Restores push pop value ↔ found = value := by
  obtain ⟨data, pushed, valid, content⟩ := appends .new new_valid (by simpa [Octetsstream.new, Octetsstream.size, Octets.new] using room)
  have size := appended_size new_valid valid content
  have popped := reads { Octetsstream.new with data } [] valid (by
    simp only [Octetsstream.size, Octetsstream.new, Octets.new] at size ⊢
    omega) (Nat.zero_le _) (by
    rw [show ({ Octetsstream.new with data } : Octetsstream).unread = data.bytes from rfl, content, List.append_nil]
    rfl)
  constructor
  · rintro ⟨pushed', popped', first, second⟩
    rw [pushed] at first
    cases first
    rw [popped] at second
    cases second
    rfl
  · rintro rfl
    exact ⟨_, _, pushed, popped⟩

/-- What a default object gets from a message. -/
theorem coded_restores {fields : Fields γ} (alone : AllAlone fields) {object : Coded codefield γ}
    (holds : fields.Holds object.values) (room : (codedBytes fields object).length ≤ 2 ^ 63) (found : Coded codefield γ) :
    Restores (object.pack fields) ((Coded.default fields).unpack fields) found ↔
      ⟨object.code, restored codefield object.code 0 fields object.values⟩ = found := by
  have appends : Appends (object.pack fields) (codedBytes fields object) :=
    (code_appends codefield object.code).bind (fields_append alone holds 0)
  have reads : Reads ((Coded.default fields : Coded codefield γ).unpack fields) (codedBytes fields object)
      ⟨object.code, restored codefield object.code 0 fields object.values⟩ :=
    (code_reads codefield object.code).bind ((fields_read alone holds 0).map _)
  exact restores_iff found appends reads room

theorem coded_restores_iff {fields : Fields γ} (alone : AllAlone fields) {object : Coded codefield γ}
    (holds : fields.Holds object.values) (room : (codedBytes fields object).length ≤ 2 ^ 63) :
    Restores (object.pack fields) ((Coded.default fields).unpack fields) object ↔
      Shown codefield object.code 0 fields object.values := by
  rw [coded_restores alone holds room object, ← restored_eq_iff]
  constructor
  · exact fun same => congrArg Coded.values same
  · exact fun same => congrArg (Coded.mk object.code) same

theorem fieldBytes_nil {idx : Nat} {fields : Fields γ} {values : γ}
    (untested : ∀ other, idx ≤ other → other < idx + fields.count → codefield.test code other = false) :
    fieldBytes codefield code idx fields values = [] := by
  induction fields generalizing idx with
  | none => rfl
  | field type rest ih =>
    rw [fieldBytes, untested idx (Nat.le_refl _) (by rw [Fields.count]; omega),
      ih fun other above small => untested other (by omega) (by rw [Fields.count]; omega)]
    rfl

/-- Beyond the width of `code` a setter marks nothing, so that only the first field can be written, as it is
in a default object. -/
theorem length_beyond {fields : Fields γ} (alone : AllAlone fields) (setter : FieldSetter fields)
    (few : fields.count ≤ 30) (beyond : codefield.bits ≤ setter.index) :
    (codedBytes fields ((Coded.default fields : Coded codefield γ).set (.field setter))).length ≤ 2 ^ 63 := by
  have width := bits_pos codefield
  have small := index_lt setter
  have marks (other : Nat) (among : other < fields.count) (tested : codefield.test (codefield.mark 0 setter.index) other = true) :
      other = 0 := mark_beyond codefield (by omega) beyond (by omega) tested
  rw [codedBytes, List.length_append]
  have code := length_codeBytes codefield ((Coded.default fields : Coded codefield γ).set (.field setter)).code
  cases setter with
  | touch | assign _ _ => exact absurd (Nat.lt_of_lt_of_le width beyond) (Nat.lt_irrefl 0)
  | later setter =>
    have first := alone.1.small
    rw [fieldBytes, fieldBytes_nil, List.append_nil]
    · split
      · simp only [Coded.set, FieldSetter.assigned, Coded.default, Fields.default] at code ⊢
        omega
      · simp only [List.length_nil]
        omega
    · intro other above among
      apply Bool.eq_false_iff.2
      intro tested
      have zero := marks other (by rw [Fields.count]; omega) tested
      omega

/-- A field beyond the width of `code` can be set to a value that is not its default. -/
theorem exists_beyond {bits idx : Nat} {fields : Fields γ} (other : ¬ DefaultsFrom bits idx fields) :
    ∃ setter : FieldSetter fields, bits ≤ idx + setter.index ∧ ∀ codefield (code : BitVec (CodeType.bits codefield)),
      codefield.test code (idx + setter.index) = false → ¬ Shown codefield code idx fields (setter.assigned fields.default) := by
  induction fields generalizing idx with
  | none => exact absurd trivial other
  | field type rest ih =>
    rw [DefaultsFrom, not_and_or] at other
    rcases other with here | later
    · push Not at here
      obtain ⟨beyond, value, holds, changed⟩ := here
      refine ⟨.assign value holds, beyond, fun codefield code untested shown => ?_⟩
      rcases shown.1 with tested | same
      · exact absurd (tested.symm.trans untested) (by simp)
      · exact changed same
    · obtain ⟨setter, beyond, lost⟩ := ih later
      refine ⟨.later setter, ?_, fun codefield code untested shown => lost codefield code ?_ shown.2⟩
      · rw [FieldSetter.index]
        omega
      · rwa [FieldSetter.index, ← Nat.add_assoc, Nat.add_right_comm] at untested

/-- Objects of a class with a codefield come back exactly when there are few enough fields for the
enumerators to be constants, and the fields beyond the width of `code` have nothing but their default to
lose. Without a codefield they always do. A field that was never set holds its default in the object, and so
in what comes back. -/
theorem generated_roundTrip_iff (codefield : CodeType) {fields : Fields γ} (alone : AllAlone fields) :
    ((fields.Compiles ∧ ∀ setters : List (Setter fields),
        (codedBytes fields (setters.foldl Coded.set (Coded.default fields : Coded codefield γ))).length ≤ 2 ^ 63 →
          Restores ((setters.foldl Coded.set (Coded.default fields : Coded codefield γ)).pack fields)
            ((Coded.default fields : Coded codefield γ).unpack fields) (setters.foldl Coded.set (Coded.default fields))) ↔
      fields.count ≤ 30 ∧ DefaultsFrom codefield.bits 0 fields) ∧
    ∀ values, fields.Holds values → (plainBytes fields values).length ≤ 2 ^ 63 →
      Restores (fields.pushAll values) (fields.popAll fields.default) values := by
  refine ⟨⟨?_, ?_⟩, ?_⟩
  · rintro ⟨compiles, restores⟩
    have few := (allFieldsConstant_isSome fields.count).1 compiles.2
    refine ⟨few, ?_⟩
    by_contra other
    obtain ⟨setter, beyond, lost⟩ := exists_beyond other
    rw [Nat.zero_add] at beyond lost
    have small := index_lt setter
    have room := length_beyond alone setter few beyond
    have shown := (coded_restores_iff alone (assigned_holds setter (default_holds alone)) room).1 (restores [.field setter] room)
    refine lost codefield _ ?_ shown
    apply Bool.eq_false_iff.2
    intro tested
    have zero := mark_beyond codefield (by omega) beyond (by omega) tested
    have width := bits_pos codefield
    omega
  · rintro ⟨few, defaults⟩
    refine ⟨⟨fun idx small => ?_, (allFieldsConstant_isSome fields.count).2 few⟩, fun setters room => ?_⟩
    · rw [fieldConstant_eq (by omega)]
      rfl
    · have start : Shown codefield (Coded.default fields : Coded codefield γ).code 0 fields (Coded.default fields : Coded codefield γ).values :=
        default_shown 0 fields
      obtain ⟨holds, shown⟩ := setters_shown few defaults setters (default_holds alone) start
      exact (coded_restores_iff alone holds room).2 shown
  · intro values holds room
    exact (restores_iff values (allFields_append alone holds) (allFields_read alone holds) room).2 rfl

end Setters

/-! ## Nine bytes -/

/-- A field of one of the types of the stream. -/
def fieldOfTy {b : Bool} {α : Type} (type : Ty b α) (init : α) : FieldType α where
  push := type.push
  pop := type.pop
  init
  Holds := type.Fits
  encode := type.encode

/-- `uint8_t`, with the initializer 0. -/
def byteField : FieldType UInt8 := fieldOfTy (.scalar (.raw Pod.byte)) 0

theorem byteField_alone : Alone byteField where
  appends _ _ := push_appends (Ty.scalar (.raw Pod.byte)) trivial
  reads _ _ := pop_reads (Ty.scalar (.raw Pod.byte)) trivial 0
  holds := trivial
  small := by decide

/-- So many bytes. -/
def byteFields : (count : Nat) → Σ γ : Type, Fields γ
  | 0 => ⟨Unit, .none⟩
  | count + 1 => ⟨UInt8 × (byteFields count).1, .field byteField (byteFields count).2⟩

theorem byteFields_alone (count : Nat) : AllAlone (byteFields count).2 := by
  induction count with
  | zero => trivial
  | succ count ih => exact ⟨byteField_alone, ih⟩

/-- The last field of nine. -/
def setNinth : Setter (byteFields 9).2 :=
  .field (.later (.later (.later (.later (.later (.later (.later (.later (.assign 1 trivial)))))))))

/-- Its bit does not fit into a `uint8_t`. -/
theorem ninth_lost : AllAlone (byteFields 9).2 ∧
    ¬ Restores (((Coded.default (byteFields 9).2 : Coded (.byte false) _).set setNinth).pack (byteFields 9).2)
      ((Coded.default (byteFields 9).2 : Coded (.byte false) _).unpack (byteFields 9).2)
      ((Coded.default (byteFields 9).2).set setNinth) := by
  refine ⟨byteFields_alone 9, fun restores => ?_⟩
  have holds : (byteFields 9).2.Holds ((Coded.default (byteFields 9).2 : Coded (.byte false) _).set setNinth).values :=
    assigned_holds _ (default_holds (byteFields_alone 9))
  have shown := (coded_restores_iff (byteFields_alone 9) holds (by decide)).1 restores
  rcases shown.2.2.2.2.2.2.2.2.1 with tested | same
  · exact absurd tested (by decide)
  · exact absurd same (by decide)

/-- Eight of them come back. -/
theorem eight_roundTrip : AllAlone (byteFields 8).2 ∧ (byteFields 8).2.Compiles ∧ ∀ setters : List (Setter (byteFields 8).2),
    (codedBytes (byteFields 8).2 (setters.foldl Coded.set (Coded.default (byteFields 8).2 : Coded (.byte false) _))).length ≤ 2 ^ 63 →
      Restores ((setters.foldl Coded.set (Coded.default (byteFields 8).2 : Coded (.byte false) _)).pack (byteFields 8).2)
        ((Coded.default (byteFields 8).2 : Coded (.byte false) _).unpack (byteFields 8).2)
        (setters.foldl Coded.set (Coded.default (byteFields 8).2)) := by
  have defaults : DefaultsFrom (CodeType.byte false).bits 0 (byteFields 8).2 := by
    simp [byteFields, DefaultsFrom, CodeType.bits]
  exact ⟨byteFields_alone 8, (generated_roundTrip_iff (.byte false) (byteFields_alone 8)).1.2 ⟨by decide, defaults⟩⟩

end Cassobee.Proofs
