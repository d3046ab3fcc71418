import Cassobee.Proofs.Progen

/-! What `clean_default` does to the messages of a class whose fields fit into its codefield. -/

namespace Cassobee.Proofs

/-! ## The mask -/

section
variable (type : CodeType)

theorem narrow_getLsbD {value : BitVec type.common} (idx : Nat) (within : idx < type.bits)
    (small : type = .bool → ∀ other, value.getLsbD other = true → other = 0) :
    (type.narrow value).getLsbD idx = value.getLsbD idx := by
  unfold CodeType.narrow
  split
  next bool =>
    have zero : idx = 0 := by
      rw [bool] at within
      exact Nat.lt_one_iff.1 within
    cases bit : value.getLsbD idx with
    | true =>
      have nonzero : value ≠ 0 := by
        rintro rfl
        simp at bit
      rw [if_neg nonzero, zero]
      subst bool
      rfl
    | false =>
      have nothing : value = 0 := by
        apply BitVec.eq_of_getLsbD_eq
        intro other _
        have unset : value.getLsbD other = false := by
          apply Bool.eq_false_iff.2
          intro set
          rw [small bool other set, ← zero, bit] at set
          cases set
        simp [unset]
      rw [if_pos nothing]
      simp
  next =>
    rw [BitVec.getLsbD_setWidth]
    simp [within]

theorem extend_bool (code : BitVec 1) (other : Nat) (bit : (CodeType.bool.extend code).getLsbD other = true) : other = 0 := by
  have set : (BitVec.setWidth CodeType.bool.common code).getLsbD other = true := bit
  rw [BitVec.getLsbD_setWidth, Bool.and_eq_true] at set
  exact Nat.lt_one_iff.1 (BitVec.lt_of_getLsbD set.2)

theorem unmark_bit (code : BitVec type.bits) {idx : Nat} (positive : idx < 31) {other : Nat} (within : other < type.bits) :
    (type.unmark code idx).getLsbD other = (code.getLsbD other && !decide (other = idx)) := by
  have wide : 32 ≤ type.common := Nat.le_max_right ..
  have wide' : type.bits ≤ type.common := Nat.le_max_left ..
  have complement : (BitVec.signExtend type.common (~~~((fieldConstant idx).getD 0))).getLsbD other = !decide (other = idx) := by
    rw [fieldConstant_eq (by omega), Option.getD_some, BitVec.getLsbD_signExtend]
    have bit (place : Nat) (below : place < 32) : (~~~BitVec.twoPow 32 idx).getLsbD place = !decide (place = idx) := by
      rw [BitVec.getLsbD_not, BitVec.getLsbD_twoPow]
      simp [below, eq_comm, show idx < 32 by omega]
    have sign : (~~~BitVec.twoPow 32 idx).msb = true := by
      rw [BitVec.msb_eq_getLsbD_last, bit 31 (by decide)]
      simp
      omega
    rw [sign, decide_eq_true (show other < type.common by omega), Bool.true_and]
    split
    next below => exact bit other below
    next =>
      simp
      omega
  rw [CodeType.unmark, narrow_getLsbD type other within, BitVec.getLsbD_and, extend_bit type code within, complement]
  intro bool other' set
  subst bool
  rw [BitVec.getLsbD_and, Bool.and_eq_true] at set
  exact extend_bool code other' set.1

theorem mark_zero_bit {idx : Nat} (positive : idx < 31) (within : idx < type.bits) {other : Nat} (within' : other < type.bits) :
    (type.mark 0 idx).getLsbD other = decide (other = idx) := by
  have wide : type.bits ≤ type.common := Nat.le_max_left ..
  have only (place : Nat) (below : place < type.common) :
      (type.extend 0 ||| type.flag idx).getLsbD place = decide (place = idx) := by
    rw [extend_zero, flag_eq type positive, BitVec.getLsbD_or, BitVec.getLsbD_twoPow]
    simp [eq_comm, show idx < type.common by omega]
  rw [CodeType.mark, narrow_getLsbD type other within', only other (by omega)]
  intro bool place set
  rw [only place (BitVec.lt_of_getLsbD set), decide_eq_true_eq] at set
  subst bool
  exact set.trans (Nat.lt_one_iff.1 within)

end

/-! ## What is cleaned -/

/-- The field of this index has a value that is taken for its default. -/
def atDefault {γ : Type} {fields : Fields γ} (idx : Nat) (declared : Declared fields) (values : γ) (other : Nat) : Bool :=
  match declared with
  | .none => false
  | .field text default _ _ others =>
    decide (other = idx) && default.isDefault text values.1 || atDefault (idx + 1) others values.2 other

section
variable {γ : Type} {codefield : CodeType} {code code' : BitVec codefield.bits} {fields : Fields γ}

theorem atDefault_below (declared : Declared fields) (values : γ) {idx other : Nat} (below : other < idx) :
    atDefault idx declared values other = false := by
  induction declared generalizing idx with
  | none => rfl
  | field text default _ _ others ih =>
    rw [atDefault, ih values.2 (Nat.lt_succ_of_lt below), decide_eq_false (Nat.ne_of_lt below)]
    rfl

theorem clean_bit (declared : Declared fields) (values : γ) {idx : Nat} (few : idx + fields.count ≤ 31) {other : Nat}
    (within : other < codefield.bits) : (declared.clean codefield idx values code).getLsbD other =
      (code.getLsbD other && !atDefault idx declared values other) := by
  induction declared generalizing idx code with
  | none => simp [Declared.clean, atDefault]
  | field text default _ _ others ih =>
    rw [Fields.count] at few
    rw [Declared.clean, ih values.2 (by omega), atDefault]
    split
    next taken =>
      rw [unmark_bit codefield code (by omega) within, taken]
      cases decide (other = idx) <;> simp
    next kept => simp [kept]

/-! ## What comes back -/

/-- The same value, or two that are equal for the type. -/
def SameValue {α : Type} (text : TypeText α) (one two : α) : Prop := one = two ∨ text.equal one two = true

def SameValues {γ : Type} {fields : Fields γ} (declared : Declared fields) (one two : γ) : Prop :=
  match declared with
  | .none => True
  | .field text _ _ _ others => SameValue text one.1 two.1 ∧ SameValues others one.2 two.2

/-- A marked field that is taken for its default has the value that it has in a default object. -/
def Unharmed (codefield : CodeType) (code : BitVec codefield.bits) {γ : Type} {fields : Fields γ} (idx : Nat)
    (declared : Declared fields) (values : γ) : Prop :=
  match fields, declared with
  | _, .none => True
  | .field type _, .field text default _ _ others =>
    (codefield.test code idx = true → default.isDefault text values.1 = true → SameValue text values.1 type.init) ∧
      Unharmed codefield code (idx + 1) others values.2

theorem same_restored_iff (declared : Declared fields) (values : γ) (idx : Nat)
    (cleaned : ∀ other, idx ≤ other → other < idx + fields.count →
      codefield.test code' other = (codefield.test code other && !atDefault idx declared values other)) :
    SameValues declared (restored codefield code idx fields values) (restored codefield code' idx fields values) ↔
      Unharmed codefield code idx declared values := by
  induction declared generalizing idx with
  | none => exact Iff.rfl
  | field text default emitted short others ih =>
    rw [Fields.count] at cleaned
    have here := cleaned idx (Nat.le_refl _) (by omega)
    rw [atDefault, atDefault_below others values.2 (Nat.lt_succ_self idx)] at here
    have later := ih values.2 (idx + 1) fun other above below => by
      have behind := cleaned other (by omega) (by omega)
      rw [atDefault, decide_eq_false (show ¬ other = idx by omega)] at behind
      simpa using behind
    rw [restored, restored, SameValues, Unharmed, here]
    refine and_congr ?_ later
    cases codefield.test code idx with
    | false => simp [SameValue]
    | true => cases taken : default.isDefault text values.1 <;> simp [SameValue]

theorem length_cleaned (values : γ) (idx : Nat) (fewer : ∀ other, idx ≤ other → other < idx + fields.count →
      codefield.test code' other = true → codefield.test code other = true) :
    (fieldBytes codefield code' idx fields values).length ≤ (fieldBytes codefield code idx fields values).length := by
  induction fields generalizing idx with
  | none => exact Nat.le_refl _
  | field type rest ih =>
    rw [Fields.count] at fewer
    have later := ih values.2 (idx + 1) fun other above below => fewer other (by omega) (by omega)
    rw [fieldBytes, fieldBytes, List.length_append, List.length_append]
    cases cleaned : codefield.test code' idx with
    | false =>
      rw [if_neg Bool.false_ne_true, List.length_nil, Nat.zero_add]
      exact Nat.le_trans later (Nat.le_add_left ..)
    | true =>
      rw [fewer idx (Nat.le_refl _) (by omega) cleaned]
      exact Nat.add_le_add_left later _

/-- A value that a field's comparison takes for the default is the value of a default object. -/
def DefaultsAgree {γ : Type} {fields : Fields γ} (declared : Declared fields) : Prop :=
  match fields, declared with
  | _, .none => True
  | .field type _, .field text default _ _ others =>
    (∀ value, type.Holds value → default.isDefault text value = true → SameValue text value type.init) ∧ DefaultsAgree others

theorem unharmed_of_agree {declared : Declared fields} (agree : DefaultsAgree declared) {values : γ}
    (holds : fields.Holds values) (idx : Nat) : Unharmed codefield code idx declared values := by
  induction declared generalizing idx with
  | none => trivial
  | field text default _ _ others ih =>
    exact ⟨fun _ taken => agree.1 _ holds.1 taken, ih agree.2 holds.2 (idx + 1)⟩

/-- A message in which only one field is marked, which then gets another value. -/
theorem exists_harmed (alone : AllAlone fields) {declared : Declared fields} (other : ¬ DefaultsAgree declared) (idx : Nat) :
    ∃ place < fields.count, ∃ values, fields.Holds values ∧ ∀ (codefield : CodeType) (code : BitVec codefield.bits),
      (∀ other, idx ≤ other → other < idx + fields.count → codefield.test code other = decide (other = idx + place)) →
      (fieldBytes codefield code idx fields values).length ≤ 2 ^ 62 ∧ ¬ Unharmed codefield code idx declared values := by
  induction declared generalizing idx with
  | none => exact absurd trivial other
  | @field α β type rest text default emitted short others ih =>
    rw [DefaultsAgree, not_and_or] at other
    rcases other with here | later
    · push Not at here
      obtain ⟨value, holds, taken, changed⟩ := here
      refine ⟨0, Nat.succ_pos _, (value, rest.default), ⟨holds, default_holds alone.2⟩, fun codefield code marked => ?_⟩
      rw [Fields.count] at marked
      have first : codefield.test code idx = true := (marked idx (Nat.le_refl _) (by omega)).trans (decide_eq_true rfl)
      refine ⟨?_, fun unharmed => changed (unharmed.1 first taken)⟩
      rw [fieldBytes, fieldBytes_nil, if_pos first, List.append_nil]
      · exact short value holds taken
      · intro place above below
        exact (marked place (by omega) (by omega)).trans (decide_eq_false (by omega))
    · obtain ⟨place, among, values, holds, harmed⟩ := ih alone.2 later (idx + 1)
      refine ⟨place + 1, Nat.succ_lt_succ among, (type.init, values), ⟨alone.1.holds, holds⟩, fun codefield code marked => ?_⟩
      rw [Fields.count] at marked
      obtain ⟨room, lost⟩ := harmed codefield code fun spot above below => by
        rw [marked spot (by omega) (by omega), Nat.add_right_comm, Nat.add_assoc]
      have first : codefield.test code idx = false := (marked idx (Nat.le_refl _) (by omega)).trans (decide_eq_false (by omega))
      refine ⟨?_, fun unharmed => lost unharmed.2⟩
      rw [fieldBytes, first]
      exact room

/-! ## The wire -/

/-- The message fits into a stream, with ten bytes for its code. -/
def FitsStream (fields : Fields γ) (object : Coded codefield γ) : Prop :=
  (fieldBytes codefield object.code 0 fields object.values).length + 10 ≤ 2 ^ 63

/-- A default object that unpacks the cleaned message gets the values that it gets from the message itself. -/
def PreservedOnWire (declared : Declared fields) (object : Coded codefield γ) : Prop :=
  ∃ plain cleaned : Coded codefield γ,
    Restores (object.pack fields) ((Coded.default fields : Coded codefield γ).unpack fields) plain ∧
    Restores ((object.cleanDefault declared).pack fields) ((Coded.default fields : Coded codefield γ).unpack fields) cleaned ∧
    SameValues declared plain.values cleaned.values

theorem FitsStream.room {object : Coded codefield γ} (fits : FitsStream fields object) :
    (codedBytes fields object).length ≤ 2 ^ 63 := by
  have short := length_codeBytes codefield object.code
  rw [FitsStream] at fits
  rw [codedBytes, List.length_append]
  omega

theorem cleanDefault_bit (declared : Declared fields) (object : Coded codefield γ) (few : fields.count ≤ 30) {other : Nat}
    (within : other < codefield.bits) : (object.cleanDefault declared).code.getLsbD other =
      (object.code.getLsbD other && !atDefault 0 declared object.values other) :=
  clean_bit declared object.values (by omega) within

theorem cleanDefault_never_sets (declared : Declared fields) (object : Coded codefield γ) (few : fields.count ≤ 30) (other : Nat)
    (set : (object.cleanDefault declared).code.getLsbD other = true) : object.code.getLsbD other = true := by
  rw [cleanDefault_bit declared object few (BitVec.lt_of_getLsbD set), Bool.and_eq_true] at set
  exact set.1

theorem cleanDefault_idem (declared : Declared fields) (object : Coded codefield γ) (few : fields.count ≤ 30) :
    (object.cleanDefault declared).cleanDefault declared = object.cleanDefault declared := by
  have code : ((object.cleanDefault declared).cleanDefault declared).code = (object.cleanDefault declared).code := by
    apply BitVec.eq_of_getLsbD_eq
    intro other within
    rw [cleanDefault_bit declared _ few within, cleanDefault_bit declared object few within, Bool.and_assoc]
    exact congrArg (_ && ·) (Bool.and_self _)
  exact congrArg (Coded.mk · object.values) code

theorem preserved_iff (alone : AllAlone fields) (declared : Declared fields) (fits : fields.count ≤ codefield.bits)
    (few : fields.count ≤ 30) {object : Coded codefield γ} (holds : fields.Holds object.values) (room : FitsStream fields object) :
    PreservedOnWire declared object ↔ Unharmed codefield object.code 0 declared object.values := by
  have cleaned (other : Nat) (_ : 0 ≤ other) (among : other < 0 + fields.count) :
      codefield.test (object.cleanDefault declared).code other =
        (codefield.test object.code other && !atDefault 0 declared object.values other) := by
    rw [test_bit codefield _ (by omega) (by omega), test_bit codefield _ (by omega) (by omega)]
    exact cleanDefault_bit declared object few (by omega)
  have room' : FitsStream fields (object.cleanDefault declared) := by
    refine Nat.le_trans (Nat.add_le_add_right (length_cleaned _ 0 fun other above among tested => ?_) 10) room
    rw [cleaned other above among, Bool.and_eq_true] at tested
    exact tested.1
  rw [← same_restored_iff declared object.values 0 cleaned]
  have plain := coded_restores alone holds room.room
  have holds' : fields.Holds (object.cleanDefault declared).values := holds
  have wiped := coded_restores alone holds' room'.room
  constructor
  · rintro ⟨one, two, first, second, same⟩
    rw [← (plain one).1 first, ← (wiped two).1 second] at same
    exact same
  · exact fun same => ⟨_, _, (plain _).2 rfl, (wiped _).2 rfl, same⟩

theorem clean_default_iff (codefield : CodeType) {fields : Fields γ} (declared : Declared fields) (alone : AllAlone fields)
    (fits : fields.count ≤ codefield.bits) (compiles : fields.Compiles) :
    ((∀ object : Coded codefield γ, fields.Holds object.values → FitsStream fields object → PreservedOnWire declared object) ↔
      DefaultsAgree declared) ∧
    ∀ object : Coded codefield γ,
      (∀ bit, (object.cleanDefault declared).code.getLsbD bit = true → object.code.getLsbD bit = true) ∧
      (object.cleanDefault declared).values = object.values ∧
      (object.cleanDefault declared).cleanDefault declared = object.cleanDefault declared := by
  have few := (allFieldsConstant_isSome fields.count).1 compiles.2
  refine ⟨⟨fun preserved => ?_, fun agree object holds room => ?_⟩, fun object => ?_⟩
  · by_contra other
    obtain ⟨place, among, values, holds, harmed⟩ := exists_harmed alone other 0
    obtain ⟨short, lost⟩ := harmed codefield (codefield.mark 0 place) fun spot _ below => by
      rw [test_bit codefield _ (by omega) (by omega), Nat.zero_add]
      exact mark_zero_bit codefield (by omega) (by omega) (by omega)
    have room : FitsStream fields (⟨codefield.mark 0 place, values⟩ : Coded codefield γ) :=
      Nat.le_trans (Nat.add_le_add_right short 10) (by decide)
    exact lost ((preserved_iff alone declared fits few holds room).1 (preserved _ holds room))
  · exact (preserved_iff alone declared fits few holds room).2 (unharmed_of_agree agree holds 0)
  · exact ⟨cleanDefault_never_sets declared object few, rfl, cleanDefault_idem declared object few⟩

end

/-! ## One byte -/

/-- `uint8_t`, in a place where a 5 was before. -/
def byteText : TypeText UInt8 := ⟨0, 5, fun one two => one == two⟩

def oneByte (init : UInt8) : Fields (UInt8 × Unit) := .field (fieldOfTy (.scalar (.raw Pod.byte)) init) .none

theorem oneByte_alone (init : UInt8) : AllAlone (oneByte init) := by
  refine ⟨⟨fun _ _ => ?_, fun _ _ => ?_, trivial, ?_⟩, trivial⟩
  · exact push_appends (Ty.scalar (.raw Pod.byte)) trivial
  · exact pop_reads (Ty.scalar (.raw Pod.byte)) trivial init
  · exact Nat.one_le_two_pow

/-- `<field name="x" type="uint8_t" default="{}"/>`. -/
def bracedByte : Declared (oneByte 5) := .field byteText .braces rfl (fun _ _ _ => Nat.one_le_two_pow) .none

/-- The same with `default="0"`. -/
def zeroByte : Declared (oneByte 0) :=
  .field byteText (.expression 0 fun value => value == 0) rfl (fun _ _ _ => Nat.one_le_two_pow) .none

theorem clean_default_iff_sample : PreservedOnWire zeroByte (⟨1, (0, ())⟩ : Coded (.byte false) _) := by
  have compiles : (oneByte 0).Compiles := by
    refine ⟨fun idx small => ?_, rfl⟩
    rw [Nat.lt_one_iff.1 small]
    rfl
  have room : FitsStream (oneByte 0) (⟨1, (0, ())⟩ : Coded (.byte false) _) := by
    unfold FitsStream
    decide
  have agree : DefaultsAgree zeroByte := ⟨fun _ _ taken => .inl (beq_iff_eq.1 taken), trivial⟩
  exact (clean_default_iff (.byte false) zeroByte (oneByte_alone 0) (by decide) compiles).1.2 agree _ ⟨trivial, trivial⟩ room

/-- A marked zero is not sent, and the receiver keeps what was there. -/
theorem marked_zero_lost : ¬ PreservedOnWire bracedByte (⟨1, (0, ())⟩ : Coded (.byte false) _) := by
  intro preserved
  have room : FitsStream (oneByte 5) (⟨1, (0, ())⟩ : Coded (.byte false) _) := by
    unfold FitsStream
    decide
  have unharmed := (preserved_iff (oneByte_alone 5) bracedByte (by decide) (by decide) ⟨trivial, trivial⟩ room).1 preserved
  exact absurd (unharmed.1 (by decide) (by decide)) (by unfold SameValue; decide)

end Cassobee.Proofs
