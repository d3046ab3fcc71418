import Cassobee.Proofs.CleanDefault
import Cassobee.Proofs.Frames
import Cassobee.Proofs.Messages
import Cassobee.ProtocolVersions

/-! Old and new builds talk to each other as long as nobody sets a field that the other side does not have. One that
is set is not skipped: the reader gets the fields that it knows, and goes on reading inside the frame. -/

namespace Cassobee

/-- Every field takes at least one byte. -/
def Fields.Spelled {γ : Type} : Fields γ → Prop
  | .none => True
  | .field type rest => (∀ value, type.Holds value → type.encode value ≠ []) ∧ rest.Spelled

namespace Evolves
variable (codefield : CodeType) (code : BitVec codefield.bits)

/-- What is written behind the fields that are read. -/
def unread {γ ρ : Type} {written : Fields γ} {read : Fields ρ} : Nat → Evolves written read → γ → List UInt8
  | idx, .newer added, values => Proofs.fieldBytes codefield code idx added values
  | _, .older _, _ => []
  | idx, .kept _ _ later, values => later.unread (idx + 1) values.2

end Evolves

namespace Proofs
open Octetsstream

/-! ## Fields -/

section
variable {γ ρ : Type} {codefield : CodeType} (code : BitVec codefield.bits) {written : Fields γ} {read : Fields ρ}

theorem fieldBytes_evolves (evolves : Evolves written read) (values : γ) (idx : Nat)
    (missing : ∀ other, idx + written.count ≤ other → other < idx + read.count → codefield.test code other = false) :
    fieldBytes codefield code idx written values =
      fieldBytes codefield code idx read (evolves.received codefield code idx values) ++
        evolves.unread codefield code idx values := by
  induction evolves generalizing idx with
  | newer added => rfl
  | older added =>
    have nothing : fieldBytes codefield code idx added added.default = [] := fieldBytes_nil missing
    rw [Evolves.received, nothing]
    rfl
  | @kept α _ _ written read type init later ih =>
    rw [fieldBytes, fieldBytes, Evolves.received, Evolves.unread, List.append_assoc, ← ih]
    · split <;> rfl
    · intro other above below
      apply missing other
      · rw [Fields.count]
        omega
      · rw [Fields.count]
        omega

theorem restored_received (evolves : Evolves written read) (values : γ) (idx : Nat) :
    restored codefield code idx read (evolves.received codefield code idx values) = evolves.received codefield code idx values := by
  induction evolves generalizing idx with
  | newer _ => rfl
  | older added =>
    exact (restored_eq_iff idx added _).2 (default_shown idx added)
  | kept type init later ih =>
    rw [Evolves.received, restored, ih]
    split <;> rfl

theorem received_holds (evolves : Evolves written read) (alone : AllAlone read) {values : γ} (holds : written.Holds values)
    (idx : Nat) : read.Holds (evolves.received codefield code idx values) := by
  induction evolves generalizing idx with
  | newer _ => trivial
  | older added => exact default_holds alone
  | kept type init later ih =>
    refine ⟨?_, ih alone.2 holds.2 (idx + 1)⟩
    rw [Evolves.received]
    split
    · exact holds.1
    · exact alone.1.holds

theorem fieldBytes_ne_nil {fields : Fields γ} (spelled : fields.Spelled) {values : γ} (holds : fields.Holds values)
    {idx other : Nat} (above : idx ≤ other) (below : other < idx + fields.count) (set : codefield.test code other = true) :
    fieldBytes codefield code idx fields values ≠ [] := by
  induction fields generalizing idx with
  | none => exact absurd above (Nat.not_le.2 below)
  | field type rest ih =>
    rw [fieldBytes]
    by_cases here : other = idx
    · subst here
      rw [if_pos set]
      exact fun empty => spelled.1 _ holds.1 (List.append_eq_nil_iff.1 empty).1
    · have later := ih spelled.2 holds.2 (show idx + 1 ≤ other by omega) (by rw [Fields.count] at below; omega)
      exact fun empty => later (List.append_eq_nil_iff.1 empty).2

/-- Nothing is left over exactly when no field is set that the reader does not have. -/
theorem unread_eq_nil_iff (evolves : Evolves written read) (spelled : written.Spelled) {values : γ} (holds : written.Holds values)
    (idx : Nat) : evolves.unread codefield code idx values = [] ↔
      ∀ other, idx + read.count ≤ other → other < idx + written.count → codefield.test code other = false := by
  induction evolves generalizing idx with
  | newer added =>
    constructor
    · intro empty other above below
      apply Bool.eq_false_iff.2
      exact fun set => fieldBytes_ne_nil code spelled holds above below set empty
    · exact fun unset => fieldBytes_nil unset
  | older added =>
    refine iff_of_true rfl fun other above below => ?_
    rw [Fields.count] at below
    omega
  | @kept α _ _ written read type init later ih =>
    rw [Evolves.unread, ih spelled.2 holds.2]
    simp only [Fields.count]
    constructor
    · exact fun unset other above below => unset other (by omega) (by omega)
    · exact fun unset other above below => unset other (by omega) (by omega)

end

/-! ## Setters -/

section
variable (type : CodeType)

theorem mark_getLsbD (code : BitVec type.bits) {idx : Nat} (positive : idx < 31) (within : idx < type.bits) {other : Nat}
    (within' : other < type.bits) : (type.mark code idx).getLsbD other = (code.getLsbD other || decide (other = idx)) := by
  have wide : type.bits ≤ type.common := Nat.le_max_left ..
  have either (place : Nat) (below : place < type.common) :
      (type.extend code ||| type.flag idx).getLsbD place = ((type.extend code).getLsbD place || decide (place = idx)) := by
    rw [flag_eq type positive, BitVec.getLsbD_or, BitVec.getLsbD_twoPow]
    simp [eq_comm, show idx < type.common by omega]
  rw [CodeType.mark, narrow_getLsbD type other within', either other (by omega), extend_bit type code within']
  intro bool place set
  rw [either place (BitVec.lt_of_getLsbD set), Bool.or_eq_true, decide_eq_true_eq] at set
  subst bool
  rcases set with before | rfl
  · exact extend_bool code place before
  · exact Nat.lt_one_iff.1 within

theorem markAll_getLsbD {count : Nat} (few : count ≤ 30) (fits : count ≤ type.bits) {other : Nat} (within : other < type.bits) :
    (type.markAll count).getLsbD other = decide (other < count) := by
  have wide : type.bits ≤ type.common := Nat.le_max_left ..
  have power : 2 ^ count ≤ 2 ^ 30 := Nat.pow_le_pow_right (by decide) few
  have positive : 0 < 2 ^ count := Nat.two_pow_pos count
  have value : (BitVec.twoPow 32 count - 1#32).toNat = 2 ^ count - 1 := by
    rw [BitVec.toNat_sub, BitVec.toNat_twoPow, BitVec.toNat_ofNat, Nat.mod_eq_of_lt (show 2 ^ count < 2 ^ 32 by omega)]
    omega
  have bit (place : Nat) : (BitVec.twoPow 32 count - 1#32).getLsbD place = decide (place < count) := by
    rw [BitVec.getLsbD, value, Nat.testBit_two_pow_sub_one]
  have sign : (BitVec.twoPow 32 count - 1#32).msb = false := by
    rw [BitVec.msb_eq_getLsbD_last, bit]
    simp
    omega
  have all (place : Nat) (below : place < type.common) :
      ((BitVec.twoPow 32 count - 1#32).signExtend type.common).getLsbD place = decide (place < count) := by
    rw [BitVec.getLsbD_signExtend, sign, bit, decide_eq_true below, Bool.true_and]
    split
    next => rfl
    next beyond =>
      simp
      omega
  rw [CodeType.markAll, allFieldsConstant_eq few, Option.getD_some, narrow_getLsbD type other within, all other (by omega)]
  intro bool place set
  rw [all place (BitVec.lt_of_getLsbD set), decide_eq_true_eq] at set
  subst bool
  have one : count ≤ 1 := fits
  omega

end

section
variable {γ : Type} {codefield : CodeType} {fields : Fields γ}

/-- Setters mark fields of the class only. -/
theorem setters_mark (few : fields.count ≤ 30) (fits : fields.count ≤ codefield.bits) (setters : List (Setter fields))
    {object : Coded codefield γ}
    (unmarked : ∀ other, fields.count ≤ other → other < codefield.bits → object.code.getLsbD other = false) (other : Nat)
    (beyond : fields.count ≤ other) (within : other < codefield.bits) :
    (setters.foldl Coded.set object).code.getLsbD other = false := by
  induction setters generalizing object with
  | nil => exact unmarked other beyond within
  | cons setter setters ih =>
    apply ih
    intro place above below
    cases setter with
    | field setter =>
      have small := index_lt setter
      rw [Coded.set, mark_getLsbD codefield object.code (by omega) (by omega) below, unmarked place above below]
      simp
      omega
    | allFields =>
      rw [Coded.set, markAll_getLsbD codefield few fits below]
      simp
      omega

end

/-! ## Messages -/

section
variable {μ : Type} (methods : ProtocolMethods μ)

/-- `encode` writes whole frames as far as the payload sizes have their rows in the table. -/
theorem encodeAll_frames {payload : μ → List UInt8} {messages : List μ} (stale : Nat → UInt8)
    (packs : ∀ message ∈ messages, Appends (methods.pack message) (payload message))
    (exact : ∀ message ∈ messages, TableRowExact (payload message).length) {os : Octetsstream} (valid : os.data.Valid)
    (room : os.size + (messages.map fun message => (payload message).length + 32).sum ≤ 2 ^ 63) :
    ∃ data, encodeAll methods stale messages os = .ok () { os with data } ∧ data.Valid ∧ data.len ≤ 2 ^ 63 ∧
      data.bytes = os.bytes ++ messages.flatMap fun message => frame (methods.getType message) (payload message) := by
  induction messages generalizing os with
  | nil => exact ⟨os.data, rfl, valid, Nat.le_trans (Nat.le_add_right ..) room, (List.append_nil _).symm⟩
  | cons message messages ih =>
    rw [List.map_cons, List.sum_cons] at room
    have word : (payload message).length < wordSize := by
      simp only [wordSize]
      omega
    have row := (tableRowExact_iff word).1 (exact message List.mem_cons_self)
    obtain ⟨data, encoded, kept, content⟩ := encodeGuess_layout (packs message List.mem_cons_self) valid (by omega)
      (Nat.lt_trans (show 2048 < 2 ^ 63 by decide) (by decide)) stale
    rw [row, List.take_length, List.append_assoc, List.append_assoc] at content
    have framed : data.bytes = os.bytes ++ frame (methods.getType message) (payload message) := by
      rw [content, frame_eq, header, List.append_assoc]
    have size := appended_size valid kept framed
    have short : (frame (methods.getType message) (payload message)).length ≤ (payload message).length + 32 := by
      have idBytes : (writeVarint (methods.getType message).toNat).length ≤ 10 :=
        length_writeVarint_le (Nat.lt_trans (methods.getType message).isLt (by decide))
      have sizeBytes : (writeVarint (payload message).length).length ≤ 10 := length_writeVarint_le word
      rw [frame_eq, header, List.length_append, List.length_append]
      omega
    obtain ⟨final, rest, still, small, result⟩ := ih (fun other member => packs other (List.mem_cons_of_mem _ member))
      (fun other member => exact other (List.mem_cons_of_mem _ member))
      (show Octets.Valid (Octetsstream.data { os with data }) from kept)
      (by simp only [Octetsstream.size] at size room ⊢; omega)
    refine ⟨final, ?_, still, small, ?_⟩
    · rw [encodeAll]
      exact (run_bind encoded).trans rest
    · rw [result, Octetsstream.bytes, framed, List.flatMap_cons, List.append_assoc]

end

/-- The object comes from a default one by its setters. -/
def Built {codefield : CodeType} {γ : Type} (fields : Fields γ) (object : Coded codefield γ) : Prop :=
  ∃ setters : List (Setter fields), object = setters.foldl Coded.set (.default fields)

end Proofs

variable {codefield : ProtocolId → CodeType}

namespace CodedClasses

def payload (classes : CodedClasses codefield) (message : classes.Message) : List UInt8 :=
  Proofs.codedBytes (classes.fields message.1) message.2

def Sendable (classes : CodedClasses codefield) (message : classes.Message) : Prop :=
  Proofs.Built (classes.fields message.1) message.2 ∧ TableRowExact (classes.payload message).length

end CodedClasses

/-- Two builds of one protocol: what `progen.py` made of both schemas compiles, and every field has its bit. -/
structure Upgrade (writer reader : CodedClasses codefield) where
  evolves (id : ProtocolId) : Evolves (writer.fields id) (reader.fields id)
  alone (id : ProtocolId) : Proofs.AllAlone (writer.fields id)
  alone' (id : ProtocolId) : Proofs.AllAlone (reader.fields id)
  spelled (id : ProtocolId) : (writer.fields id).Spelled
  few (id : ProtocolId) : (writer.fields id).count ≤ 30 ∧ (reader.fields id).count ≤ 30
  fits (id : ProtocolId) : (writer.fields id).count ≤ (codefield id).bits ∧ (reader.fields id).count ≤ (codefield id).bits

namespace Upgrade
variable {writer reader : CodedClasses codefield} (upgrade : Upgrade writer reader)

/-- What the reader is to make of a message. -/
def received (message : writer.Message) : reader.Message :=
  ⟨message.1, message.2.code, (upgrade.evolves message.1).received (codefield message.1) message.2.code 0 message.2.values⟩

/-- No field is set that the reader does not have. -/
def Understood (_ : Upgrade writer reader) (message : writer.Message) : Prop :=
  ∀ other, (reader.fields message.1).count ≤ other → other < (writer.fields message.1).count →
    (codefield message.1).test message.2.code other = false

def unread (message : writer.Message) : List UInt8 :=
  (upgrade.evolves message.1).unread (codefield message.1) message.2.code 0 message.2.values

end Upgrade

namespace Proofs
variable {writer reader : CodedClasses codefield} {message : writer.Message}

theorem built_holds {codefield : CodeType} {γ : Type} {fields : Fields γ} (alone : AllAlone fields) {object : Coded codefield γ}
    (built : Built fields object) : fields.Holds object.values := by
  obtain ⟨setters, rfl⟩ := built
  have start : fields.Holds (Coded.default fields : Coded codefield γ).values := default_holds alone
  generalize (Coded.default fields : Coded codefield γ) = object at start
  induction setters generalizing object with
  | nil => exact start
  | cons setter setters ih =>
    apply ih
    cases setter with
    | field setter => exact assigned_holds setter start
    | allFields => exact start

/-- A field that the sender does not have is not marked. -/
theorem built_unmarked (upgrade : Upgrade writer reader) (built : Built (writer.fields message.1) message.2)
    {other : Nat} (beyond : (writer.fields message.1).count ≤ other) (below : other < (reader.fields message.1).count) :
    (codefield message.1).test message.2.code other = false := by
  obtain ⟨few, few'⟩ := upgrade.few message.1
  obtain ⟨fits, fits'⟩ := upgrade.fits message.1
  rw [test_bit _ _ (by omega) (by omega)]
  obtain ⟨setters, made⟩ := built
  rw [made]
  exact setters_mark few fits setters (fun _ _ _ => BitVec.getLsbD_zero) other beyond (by omega)

theorem payload_received (upgrade : Upgrade writer reader) (built : Built (writer.fields message.1) message.2) :
    writer.payload message = reader.payload (upgrade.received message) ++ upgrade.unread message := by
  have split := fieldBytes_evolves message.2.code (upgrade.evolves message.1) message.2.values 0
    fun other above below => built_unmarked upgrade built (by omega) (by omega)
  rw [CodedClasses.payload, CodedClasses.payload, codedBytes, split, ← List.append_assoc]
  rfl

theorem understood_iff (upgrade : Upgrade writer reader) (built : Built (writer.fields message.1) message.2) :
    upgrade.unread message = [] ↔ upgrade.Understood message := by
  have iff := unread_eq_nil_iff message.2.code (upgrade.evolves message.1) (upgrade.spelled message.1)
    (built_holds (upgrade.alone message.1) built) 0
  simpa [Upgrade.Understood, Upgrade.unread] using iff

theorem writer_packs (upgrade : Upgrade writer reader) (built : Built (writer.fields message.1) message.2) :
    Appends (writer.methods.pack message) (writer.payload message) :=
  (code_appends _ message.2.code).bind (fields_append (upgrade.alone message.1) (built_holds (upgrade.alone message.1) built) 0)

theorem reader_unpacks (upgrade : Upgrade writer reader) (built : Built (writer.fields message.1) message.2) :
    Reads (reader.methods.unpack ⟨message.1, .default (reader.fields message.1)⟩) (reader.payload (upgrade.received message))
      (upgrade.received message) := by
  have holds := received_holds message.2.code (upgrade.evolves message.1) (upgrade.alone' message.1)
    (built_holds (upgrade.alone message.1) built) 0
  have same := restored_received message.2.code (upgrade.evolves message.1) message.2.values 0
  have reads : Reads ((Coded.default (reader.fields message.1) : Coded (codefield message.1) _).unpack (reader.fields message.1))
      (reader.payload (upgrade.received message)) (upgrade.received message).2 := by
    have values := @fields_read _ _ message.2.code _ (upgrade.alone' message.1) _ holds 0
    rw [same] at values
    exact (code_reads (codefield message.1) message.2.code).bind (values.map _)
  exact reads.map fun object => (⟨message.1, object⟩ : reader.Message)

/-- A frame of the writer, at the cursor of the reader. -/
theorem decode_evolved (upgrade : Upgrade writer reader) (built : Built (writer.fields message.1) message.2)
    (known : reader.registered message.1 = true) {os : Octetsstream} {rest : List UInt8} (valid : os.data.Valid)
    (bound : os.size ≤ 2 ^ 63) (inside : os.pos ≤ os.size)
    (content : os.unread = frame message.1 (writer.payload message) ++ rest) (status : SessionStatus) :
    decode reader.methods reader.stubs status os = .ok (some (upgrade.received message), status)
      { os with
        pos := os.pos + (header message.1 (writer.payload message)).length + (reader.payload (upgrade.received message)).length
        transpos := os.pos } := by
  rw [frame_eq, List.append_assoc] at content
  have word : (writer.payload message).length < wordSize := by
    have total := unread_length valid
    rw [content, List.length_append, List.length_append] at total
    simp only [wordSize]
    omega
  have popped := popHeader_reads message.1 word { os with transpos := os.pos } _ valid bound inside content
  have here : Headed os { os with pos := os.pos + (header message.1 (writer.payload message)).length, transpos := os.pos }
      message.1 (writer.payload message).length := ⟨valid, bound, inside, popped⟩
  have behind := unread_behind content os.pos
  have stays := pos_behind valid inside content
  have complete := here.enough.2 (by rw [behind, List.length_append]; omega)
  have split : writer.payload message ++ rest = reader.payload (upgrade.received message) ++ (upgrade.unread message ++ rest) := by
    rw [payload_received upgrade built, List.append_assoc]
  have found : reader.stubs message.1 = some ⟨message.1, .default (reader.fields message.1)⟩ := if_pos known
  exact decode_unpacked here complete found (reader_unpacks upgrade built _ _ valid bound stays (behind.trans split)) status

theorem stops_behind_iff (upgrade : Upgrade writer reader) (built : Built (writer.fields message.1) message.2) (start : Nat) :
    start + (header message.1 (writer.payload message)).length + (reader.payload (upgrade.received message)).length =
      start + (frame message.1 (writer.payload message)).length ↔ upgrade.Understood message := by
  rw [← understood_iff upgrade built, ← List.length_eq_zero_iff, frame_eq, List.length_append, payload_received upgrade built,
    List.length_append]
  omega

/-- The writer's frames as frames of the reader. -/
theorem reader_carries (upgrade : Upgrade writer reader) (built : Built (writer.fields message.1) message.2)
    (known : reader.registered message.1 = true) (understood : upgrade.Understood message) :
    Carries reader.methods reader.stubs (upgrade.received message) (writer.payload message) := by
  have same := payload_received upgrade built
  rw [(understood_iff upgrade built).2 understood, List.append_nil] at same
  rw [same]
  have holds := received_holds message.2.code (upgrade.evolves message.1) (upgrade.alone' message.1)
    (built_holds (upgrade.alone message.1) built) 0
  refine ⟨?_, _, if_pos known, reader_unpacks upgrade built⟩
  exact (code_appends _ message.2.code).bind (fields_append (upgrade.alone' message.1) holds 0)

/-- Between two builds of one protocol every message arrives, in order, as long as no field is set that the reader
does not have. A message with such a field arrives too, but the reader stops inside its frame. -/
theorem versions_interoperate_iff (upgrade : Upgrade writer reader) (known : ∀ id, writer.registered id → reader.registered id)
    (status : SessionStatus) :
    (∀ (messages : List writer.Message) (stale : Nat → UInt8) (os : Octetsstream), os.data.Valid →
      (∀ message ∈ messages, writer.registered message.1 ∧ writer.Sendable message ∧ upgrade.Understood message) →
      os.size + (messages.map fun message => (writer.payload message).length + 32).sum ≤ 2 ^ 63 →
      ∃ encoded, encodeAll writer.methods stale messages os = .ok () encoded ∧
        ∀ fuel > messages.length, ∃ after,
          decodeLoop reader.methods reader.stubs fuel status { encoded with pos := os.size } =
            .ok (some (messages.map upgrade.received, status)) after ∧
          after.data = encoded.data ∧ after.pos = encoded.size) ∧
    ∀ (message : writer.Message) (os : Octetsstream) (rest : List UInt8), writer.registered message.1 →
      Built (writer.fields message.1) message.2 → os.data.Valid → os.size ≤ 2 ^ 63 → os.pos ≤ os.size →
      os.unread = frame message.1 (writer.payload message) ++ rest →
      ∃ after, decode reader.methods reader.stubs status os = .ok (some (upgrade.received message), status) after ∧
        (after.pos = os.pos + (frame message.1 (writer.payload message)).length ↔ upgrade.Understood message) := by
  constructor
  · intro messages stale os valid each room
    obtain ⟨data, encoded, kept, small, content⟩ := encodeAll_frames writer.methods stale
      (fun message member => writer_packs upgrade (each message member).2.1.1) (fun message member => (each message member).2.1.2)
      valid room
    refine ⟨{ os with data }, encoded, fun fuel enough => ?_⟩
    let sent (message : { message // message ∈ messages }) : Registered reader.methods reader.stubs :=
      ⟨upgrade.received message, writer.payload message, reader_carries upgrade (each message message.2).2.1.1
        (known _ (each message message.2).1) (each message message.2).2.2⟩
    have received : (messages.attach.map sent).map (·.message) = messages.map upgrade.received := by
      rw [List.map_map]
      exact List.attach_map_val (f := upgrade.received)
    have frames : (messages.attach.map sent).flatMap (·.frame) =
        messages.flatMap fun message => frame message.1 (writer.payload message) := by
      rw [List.flatMap_map]
      have whole := List.flatMap_map Subtype.val (fun message => frame message.1 (writer.payload message)) (l := messages.attach)
      rw [List.attach_map_subtype_val] at whole
      exact whole.symm
    have size : data.len = os.size + ((messages.attach.map sent).flatMap (·.frame)).length := by
      rw [frames]
      exact appended_size valid kept content
    have inside : os.size ≤ data.len := by omega
    have unread : Octetsstream.unread ⟨data, os.size, os.transpos⟩ = (messages.attach.map sent).flatMap (·.frame) ++ [] := by
      have front : os.bytes.length = os.size := length_bytes valid
      rw [frames, List.append_nil, Octetsstream.unread]
      exact (congrArg (List.drop os.size) content).trans (List.drop_left' front)
    obtain ⟨spare, rfl⟩ : ∃ spare, fuel = (messages.attach.map sent).length + (spare + 1) :=
      ⟨fuel - messages.length - 1, by rw [List.length_map, List.length_attach]; omega⟩
    have finish (transpos : Nat) := @decodeLoop_nothing _ reader.methods reader.stubs ⟨data, _, transpos⟩ kept small
      (pos_behind kept inside unread) (unread_behind unread transpos) spare status
    obtain ⟨transpos, looped⟩ := @decodeLoop_frames _ reader.methods reader.stubs _ ⟨data, os.size, os.transpos⟩ _ _ _ _ _
      kept small inside unread fun transpos => ⟨transpos, finish transpos⟩
    rw [received, List.append_nil] at looped
    exact ⟨_, looped, rfl, size.symm⟩
  · intro message os rest registered built valid bound inside content
    refine ⟨_, decode_evolved upgrade built (known _ registered) valid bound inside content status, ?_⟩
    exact stops_behind_iff upgrade built os.pos

/-! ## Three fields and two -/

theorem byteFields_spelled (count : Nat) : (byteFields count).2.Spelled := by
  induction count with
  | zero => trivial
  | succ count ih => exact ⟨fun _ _ => List.cons_ne_nil _ _, ih⟩

/-- Class 1, with so many fields of a byte. -/
def byteClasses (count : Nat) : CodedClasses fun _ => .byte false :=
  ⟨fun _ => (byteFields count).1, fun _ => (byteFields count).2, fun id => id = 1⟩

/-- The new build sends, and the old one receives. -/
def newToOld : Upgrade (byteClasses 3) (byteClasses 2) where
  evolves _ := .kept byteField 0 (.kept byteField 0 (.newer (byteFields 1).2))
  alone _ := byteFields_alone 3
  alone' _ := byteFields_alone 2
  spelled _ := byteFields_spelled 3
  few _ := ⟨show (byteFields 3).2.count ≤ 30 by decide, show (byteFields 2).2.count ≤ 30 by decide⟩
  fits _ := ⟨show (byteFields 3).2.count ≤ 8 by decide, show (byteFields 2).2.count ≤ 8 by decide⟩

def setSecond : Setter (byteFields 3).2 := .field (.later (.assign 7 trivial))

def setThird : Setter (byteFields 3).2 := .field (.later (.later (.assign 7 trivial)))

def oneSet (setter : Setter (byteFields 3).2) : (byteClasses 3).Message := ⟨1, Coded.set (.default (byteFields 3).2) setter⟩

theorem old_build_reads :
    (∃ encoded after, encodeAll (byteClasses 3).methods (fun _ => 0) [oneSet setSecond] .new = .ok () encoded ∧
      decodeLoop (byteClasses 2).methods (byteClasses 2).stubs 2 ⟨.active, .none⟩ { encoded with pos := 0 } =
        .ok (some ([newToOld.received (oneSet setSecond)], ⟨.active, .none⟩)) after ∧ after.pos = encoded.size) ∧
    ∃ after, decode (byteClasses 2).methods (byteClasses 2).stubs ⟨.active, .none⟩ (.ofBytes [1, 2, 4, 7]) =
        .ok (some (newToOld.received (oneSet setThird)), ⟨.active, .none⟩) after ∧ after.pos ≠ 4 := by
  obtain ⟨arrive, stop⟩ := versions_interoperate_iff newToOld (fun _ known => known) ⟨.active, .none⟩
  constructor
  · have each : ∀ message ∈ [oneSet setSecond],
        (byteClasses 3).registered message.1 ∧ (byteClasses 3).Sendable message ∧ newToOld.Understood message := by
      intro message member
      rw [List.mem_singleton.1 member]
      refine ⟨rfl, ⟨⟨[setSecond], rfl⟩, by decide⟩, fun other above below => ?_⟩
      obtain rfl : other = 2 := Nat.le_antisymm (Nat.le_of_lt_succ below) above
      decide
    obtain ⟨encoded, written, read⟩ := arrive [oneSet setSecond] (fun _ => 0) .new new_valid each (by decide)
    obtain ⟨after, looped, -, behind⟩ := read 2 (by decide)
    exact ⟨encoded, after, written, looped, behind⟩
  · have whole : frame 1 ((byteClasses 3).payload (oneSet setThird)) = [1, 2, 4, 7] := by decide +kernel
    have content : (Octetsstream.ofBytes [1, 2, 4, 7]).unread = frame 1 ((byteClasses 3).payload (oneSet setThird)) ++ [] := by
      rw [whole]
      rfl
    obtain ⟨after, decoded, iff⟩ := stop (oneSet setThird) (.ofBytes [1, 2, 4, 7]) [] rfl ⟨[setThird], rfl⟩ (Nat.le_refl 4)
      (by decide) (Nat.zero_le _) content
    refine ⟨after, decoded, fun behind => ?_⟩
    have end_of_frame : after.pos = 0 + (frame 1 ((byteClasses 3).payload (oneSet setThird))).length := by
      rw [whole]
      exact behind
    exact absurd (iff.1 end_of_frame 2 (by decide) (by decide)) (by decide)

end Proofs
end Cassobee
