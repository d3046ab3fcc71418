import Cassobee.Proofs.Stream
import Cassobee.Schema
import Cassobee.Support.Form

/-! The wire forms of the message classes, and that `unpack` reads exactly one of them. Where a form
ends is said by its bytes, never by the size in the frame's header. -/

namespace Cassobee
open Support Support.Form

/-- One varint. -/
def varint : Form UInt8 Nat := fun bytes value => readVarint bytes = some (value, bytes.length)

/-- A varint taken for a `size_t`. -/
def sizeForm : Form UInt8 Nat := varint.then fun value => done (value % wordSize)

def compactValue : (signed : Bool) → (w : IntWidth) → Nat → BitVec w.bits
  | true, .w16, value => decodeZigzag16 (BitVec.ofNat 16 value)
  | true, .w32, value => decodeZigzag32 (BitVec.ofNat 32 value)
  | true, .w64, value => decodeZigzag64 (BitVec.ofNat 64 value)
  | false, .w16, value => BitVec.ofNat 16 value
  | false, .w32, value => BitVec.ofNat 32 value
  | false, .w64, value => BitVec.ofNat 64 value

def podForm {α : Type} (pod : Pod α) : Form UInt8 α := fun bytes value =>
  bytes.length = pod.size ∧ value = pod.ofBytes (if pod.size > 1 then networkToHost bytes else bytes)

def Scalar.form {α : Type} : Scalar α → Form UInt8 α
  | .int signed w => varint.then fun value => done (compactValue signed w value)
  | .raw pod => podForm pod

/-- The elements behind a count that `reserve` accepts. -/
def containerForm (canReserve : Bool) (maxSize : MaxSize) (element : Form UInt8 Unit) : Form UInt8 Unit :=
  sizeForm.then fun count bytes value =>
    ¬ (canReserve = true ∧ count > maxSize.room) ∧ element.times count bytes value

def Ty.form {b : Bool} {α : Type} : Ty b α → Form UInt8 Unit
  | .bool => symbols 1
  | .scalar kind => kind.form.then fun _ => done ()
  | .octets => sizeForm.then symbols
  | .pair first second => first.form.then fun _ => second.form
  | .contiguous kind => sizeForm.then fun count => symbols (count * kind.scalar.pod.size)
  | .vector maxSize element => containerForm true maxSize element.form
  | .container kind element => containerForm kind.canReserve kind.maxSize element.form
  | .struct => done ()
  | .field type _ rest => type.form.then fun _ => rest.form

/-- The fields whose bit is set in the code. -/
def Members.form {n : Nat} (code : BitVec n) {γ : Type} : Members n γ → Form UInt8 Unit
  | .none => done ()
  | .field mask type _ rest => (if code &&& mask ≠ 0#n then type.form else done ()).then fun _ => rest.form code

def Layout.form {α : Type} : Layout α → Form UInt8 Unit
  | .plain type => type.form
  | .coded code members => code.form.then fun value => members.form value

def MessageClass.form {α : Type} : MessageClass α → Form UInt8 Unit
  | .protocol layout => layout.form
  | .rpc argument result =>
    (Scalar.int false .w64).form.then fun _ => (podForm Pod.bool).then fun isServer =>
      if isServer then result.form else argument.form

/-! No octets that `pop` appends to hold anything before. -/

def Ty.Unfilled {b : Bool} {α : Type} : Ty b α → α → Prop
  | .bool, _ => True
  | .scalar _, _ => True
  | .octets, value => value = []
  | .pair first second, value => first.Unfilled value.1 ∧ second.Unfilled value.2
  | .contiguous _, _ => True
  | .vector _ element, _ => element.Unfilled element.default
  | .container _ element, _ => element.Unfilled element.default
  | .struct, _ => True
  | .field type _ rest, value => type.Unfilled value.1 ∧ rest.Unfilled value.2

def Members.Unfilled {n : Nat} {γ : Type} : Members n γ → γ → Prop
  | .none, _ => True
  | .field _ type _ rest, value => type.Unfilled value.1 ∧ rest.Unfilled value.2

def Layout.Unfilled {α : Type} : Layout α → α → Prop
  | .plain type, value => type.Unfilled value
  | .coded _ members, value => members.Unfilled value.2

/-- The stub of a class, as its constructor leaves it. -/
def MessageClass.Unfilled {α : Type} : MessageClass α → Prop
  | .protocol layout => layout.Unfilled layout.default
  | .rpc argument result => argument.Unfilled argument.default ∧ result.Unfilled result.default

namespace Proofs
variable {α β γ δ : Type}

/-! ## A string shows where a form ends -/

/-- What the loop has read does not depend on what comes after it. -/
theorem readVarintLoop_splits {shift acc read value count : Nat} {bytes : List UInt8}
    (found : readVarintLoop shift acc read bytes = some (value, count)) :
    ∃ one rest, bytes = one ++ rest ∧ count = read + one.length ∧
      ∀ more, readVarintLoop shift acc read (one ++ more) = some (value, count) := by
  induction bytes generalizing shift acc read with
  | nil => cases found
  | cons byte bytes ih =>
    rw [readVarintLoop] at found
    split at found
    next within =>
      dsimp only at found
      split at found
      next last =>
        cases found
        refine ⟨[byte], bytes, rfl, rfl, fun more => ?_⟩
        rw [List.singleton_append, readVarintLoop, if_pos within]
        simp only [last, if_true]
      next goes =>
        obtain ⟨one, rest, rfl, rfl, again⟩ := ih found
        refine ⟨byte :: one, rest, rfl, ?_, fun more => ?_⟩
        · rw [List.length_cons]
          omega
        · rw [List.cons_append, readVarintLoop, if_pos within]
          simp only [goes, if_false]
          exact again more
    next => cases found

theorem readVarint_splits {bytes : List UInt8} {value count : Nat} (found : readVarint bytes = some (value, count)) :
    ∃ one rest, bytes = one ++ rest ∧ count = one.length ∧ varint one value := by
  obtain ⟨one, rest, rfl, rfl, again⟩ := readVarintLoop_splits found
  have alone := again []
  rw [List.append_nil, Nat.zero_add] at alone
  exact ⟨one, rest, rfl, Nat.zero_add _, alone⟩

theorem varint_separate : varint.Separate := by
  intro one two rest rest' value value' first second same
  have reads {bytes : List UInt8} {found : Nat} (spelled : varint bytes found) (more : List UInt8) :
      readVarint (bytes ++ more) = some (found, bytes.length) := by
    obtain ⟨front, back, whole, length, again⟩ := readVarintLoop_splits spelled
    have none_left : back = [] := by
      have total := congrArg List.length whole
      rw [List.length_append] at total
      exact List.length_eq_zero_iff.1 (by omega)
    rw [none_left, List.append_nil] at whole
    rw [whole]
    have found' := again more
    rw [whole] at found'
    exact found'
  have equal := (reads first rest).symm.trans ((congrArg readVarint same).trans (reads second rest'))
  simp only [Option.some.injEq, Prod.mk.injEq] at equal
  exact ⟨(List.append_inj same equal.2).1, equal.1⟩

theorem sizeForm_separate : sizeForm.Separate := then_separate varint_separate fun _ => done_separate _

theorem podForm_separate (pod : Pod α) : (podForm pod).Separate := by
  intro one two rest rest' value value' first second same
  obtain rfl := (List.append_inj same (first.1.trans second.1.symm)).1
  exact ⟨rfl, first.2.trans second.2.symm⟩

theorem scalar_separate (kind : Scalar α) : kind.form.Separate := by
  cases kind with
  | int signed w => exact then_separate varint_separate fun _ => done_separate _
  | raw pod => exact podForm_separate pod

theorem containerForm_separate (canReserve : Bool) (maxSize : MaxSize) {element : Form UInt8 Unit} (each : element.Separate) :
    (containerForm canReserve maxSize element).Separate :=
  then_separate sizeForm_separate fun count => guard_separate (times_separate each count)

theorem ty_separate {b : Bool} (type : Ty b α) : type.form.Separate := by
  induction type with
  | bool => exact symbols_separate 1
  | scalar kind => exact then_separate (scalar_separate kind) fun _ => done_separate ()
  | octets => exact then_separate sizeForm_separate symbols_separate
  | pair first second one two => exact then_separate one fun _ => two
  | contiguous kind => exact then_separate sizeForm_separate fun _ => symbols_separate _
  | vector maxSize element ih => exact containerForm_separate _ _ ih
  | container kind element ih => exact containerForm_separate _ _ ih
  | struct => exact done_separate ()
  | field type init rest one others => exact then_separate one fun _ => others

theorem members_separate {n : Nat} (code : BitVec n) (members : Members n γ) : (members.form code).Separate := by
  induction members with
  | none => exact done_separate ()
  | field mask type init rest ih =>
    refine then_separate ?_ fun _ => ih
    split
    · exact ty_separate type
    · exact done_separate ()

theorem layout_separate (layout : Layout α) : layout.form.Separate := by
  cases layout with
  | plain type => exact ty_separate type
  | coded code members => exact then_separate (scalar_separate code) fun value => members_separate value members

theorem messageClass_separate (cls : MessageClass α) : cls.form.Separate := by
  cases cls with
  | protocol layout => exact layout_separate layout
  | rpc argument result =>
    refine then_separate (scalar_separate _) fun _ => then_separate (podForm_separate _) fun isServer => ?_
    split
    · exact layout_separate result
    · exact layout_separate argument

/-! ## What `unpack` reads -/

/-- The call reads one string of the form and stops behind it, or it throws; the stream's bytes and
its transaction are left alone. -/
def Parses (call : StreamM α) (form : Form UInt8 β) (value : α → β) : Prop :=
  ∀ os, os.data.Valid → os.size ≤ 2 ^ 63 → os.pos ≤ os.size →
    match call os with
    | .ok found after => ∃ bytes rest, os.unread = bytes ++ rest ∧ form bytes (value found) ∧
        after = { os with pos := os.pos + bytes.length }
    | .error _ after => after.data = os.data ∧ after.transpos = os.transpos

theorem Parses.bind {first : StreamM α} {next : α → StreamM γ} {form : Form UInt8 β} {value : α → β}
    {others : β → Form UInt8 δ} {final : γ → δ} (start : Parses first form value)
    (rest : ∀ found, Parses (next found) (others (value found)) final) : Parses (first >>= next) (form.then others) final := by
  intro os valid bound inside
  have began := start os valid bound inside
  cases run : first os with
  | error thrown after =>
    rw [run_bind_error run]
    rw [run] at began
    exact began
  | ok found after =>
    rw [run_bind run]
    rw [run] at began
    obtain ⟨one, left, content, spelled, rfl⟩ := began
    have ended := rest found { os with pos := os.pos + one.length } valid bound (pos_behind valid inside content)
    cases run' : next found { os with pos := os.pos + one.length } with
    | error thrown after =>
      rw [run'] at ended
      exact ended
    | ok last after =>
      rw [run'] at ended
      obtain ⟨two, more, content', spelled', rfl⟩ := ended
      rw [unread_behind content] at content'
      refine ⟨one ++ two, more, ?_, ⟨one, two, _, rfl, spelled, spelled'⟩, ?_⟩
      · rw [content, content', List.append_assoc]
      · rw [List.length_append, ← Nat.add_assoc]

/-- A form that does not depend on the one before it. -/
theorem Parses.seq {first : StreamM α} {next : α → StreamM γ} {form : Form UInt8 β} {value : α → β} {rest : Form UInt8 δ}
    {final : γ → δ} (start : Parses first form value) (others : ∀ found, Parses (next found) rest final) :
    Parses (first >>= next) (form.then fun _ => rest) final :=
  start.bind others

theorem pure_parses (found : α) (value : α → β) : Parses (pure found) (done (value found)) value := by
  intro os _ _ _
  exact ⟨[], os.unread, rfl, ⟨rfl, rfl⟩, rfl⟩

/-- The value and the form may be seen in another way. -/
theorem Parses.weaken {call : StreamM α} {form : Form UInt8 β} {value : α → β} {form' : Form UInt8 γ} {value' : α → γ}
    (parses : Parses call form value) (implies : ∀ bytes found, form bytes (value found) → form' bytes (value' found)) :
    Parses call form' value' := by
  intro os valid bound inside
  have result := parses os valid bound inside
  cases run : call os with
  | error thrown after =>
    rw [run] at result
    exact result
  | ok found after =>
    rw [run] at result
    obtain ⟨bytes, rest, content, spelled, moved⟩ := result
    exact ⟨bytes, rest, content, implies bytes found spelled, moved⟩

theorem Parses.map {call : StreamM α} {form : Form UInt8 β} {value : α → β} (f : α → γ) {form' : Form UInt8 δ}
    {value' : γ → δ} (parses : Parses call form value)
    (implies : ∀ bytes found, form bytes (value found) → form' bytes (value' (f found))) :
    Parses (do return f (← call)) form' value' := by
  intro os valid bound inside
  have result := parses os valid bound inside
  cases run : call os with
  | error thrown after =>
    rw [run_bind_error run]
    rw [run] at result
    exact result
  | ok found after =>
    rw [run_bind run]
    rw [run] at result
    obtain ⟨bytes, rest, content, spelled, moved⟩ := result
    exact ⟨bytes, rest, content, implies bytes found spelled, moved⟩

theorem popCompact_parses : Parses popCompact varint id := by
  intro os valid bound inside
  simp only [popCompact]
  cases read : readVarint os.unread with
  | none => exact ⟨rfl, rfl⟩
  | some found =>
    obtain ⟨one, rest, content, length, spelled⟩ := readVarint_splits read
    exact ⟨one, rest, content, spelled, by rw [length]⟩

theorem popCompactu64_parses : Parses popCompactu64 (varint.then fun value => done (BitVec.ofNat 64 value)) id := by
  refine popCompact_parses.map _ fun bytes found spelled => ?_
  exact ⟨bytes, [], found, (List.append_nil _).symm, spelled, rfl, rfl⟩

theorem popSize_parses : Parses popSize sizeForm id := by
  apply popCompactu64_parses.map _
  rintro bytes found ⟨one, two, middle, rfl, spelled, rfl, same⟩
  refine ⟨one, [], middle, rfl, spelled, rfl, ?_⟩
  simp only [id_eq] at same ⊢
  rw [same, BitVec.toNat_ofNat]
  rfl

theorem compactIntUnpack_parses (signed : Bool) (w : IntWidth) :
    Parses (compactIntUnpack signed w) (varint.then fun value => done (compactValue signed w value)) id := by
  have same : compactIntUnpack signed w = do return compactValue signed w (← popCompact) := by
    cases signed <;> cases w <;>
      simp only [compactIntUnpack, popCompact16, popCompactu16, popCompact32, popCompactu32, popCompact64, popCompactu64,
        bind_assoc, pure_bind, compactValue] <;> rfl
  rw [same]
  refine popCompact_parses.map _ fun bytes found spelled => ?_
  exact ⟨bytes, [], found, (List.append_nil _).symm, spelled, rfl, rfl⟩

/-- Raw bytes, for lengths that keep the guard's sum from wrapping. -/
theorem popRaw_parses {len : Nat} (small : len < 2 ^ 63) :
    Parses (popRaw len) (fun bytes found => bytes.length = len ∧ found = bytes) id := by
  intro os valid bound inside
  have nowrap : (os.pos + len) % wordSize = os.pos + len := by
    apply Nat.mod_eq_of_lt
    simp only [wordSize]
    omega
  simp only [popRaw, nowrap]
  by_cases short : os.pos + len > os.data.len
  · rw [if_pos short]
    exact ⟨rfl, rfl⟩
  · rw [if_neg short]
    have total := unread_length valid
    have length : (os.unread.take len).length = len := by
      simp only [Octetsstream.size] at total
      rw [List.length_take, total]
      omega
    have content : os.unread = os.unread.take len ++ os.unread.drop len := (List.take_append_drop ..).symm
    have found := take_of_unread valid inside content
    rw [length] at found
    refine ⟨os.unread.take len, os.unread.drop len, content, ⟨length, found⟩, ?_⟩
    rw [length]

theorem popPod_parses (pod : Pod α) : Parses (popPod pod) (podForm pod) id := by
  apply (popRaw_parses pod.bounded).map _
  rintro bytes found ⟨length, rfl⟩
  exact ⟨length, rfl⟩

theorem popScalar_parses (kind : Scalar α) : Parses (popScalar kind) kind.form id := by
  cases kind with
  | int signed w => exact compactIntUnpack_parses signed w
  | raw pod => exact popPod_parses pod

theorem popAppend_parses (value : List UInt8) (size : Nat) : Parses (popAppend value size) (symbols size) fun _ => () := by
  intro os valid bound inside
  simp only [popAppend]
  by_cases short : (os.pos + size) % wordSize > os.data.len
  · rw [if_pos short]
    exact ⟨rfl, rfl⟩
  · rw [if_neg short]
    by_cases wraps : os.pos + size ≥ wordSize
    · rw [if_pos wraps]
      exact ⟨rfl, rfl⟩
    · rw [if_neg wraps]
      rw [Nat.mod_eq_of_lt (Nat.lt_of_not_le wraps)] at short
      have total := unread_length valid
      have length : (os.unread.take size).length = size := by
        simp only [Octetsstream.size] at total
        rw [List.length_take, total]
        omega
      refine ⟨os.unread.take size, os.unread.drop size, (List.take_append_drop ..).symm, length, ?_⟩
      rw [length]

theorem popEach_parses {pop : StreamM α} {element : Form UInt8 Unit} (insert : γ → α → γ)
    (each : Parses pop element fun _ => ()) (count : Nat) (content : γ) :
    Parses (popEach pop insert count content) (element.times count) fun _ => () := by
  induction count generalizing content with
  | zero => exact pure_parses content fun _ => ()
  | succ count ih => exact each.bind fun found => ih (insert content found)

theorem popContainer_parses (kind : Container α) {pop : StreamM α} {element : Form UInt8 Unit}
    (each : Parses pop element fun _ => ()) (content : kind.Content) :
    Parses (popContainer kind pop content) (containerForm kind.canReserve kind.maxSize element) fun _ => () := by
  refine popSize_parses.bind fun size => ?_
  by_cases large : kind.canReserve = true ∧ size > kind.maxSize.room
  · obtain ⟨thrown, -, refused⟩ := reserve_refuses large
    rw [refused]
    intro os _ _ _
    exact ⟨rfl, rfl⟩
  · rw [reserve_accepts large, pure_bind]
    exact (popEach_parses kind.insert each size content).weaken fun bytes found spelled => ⟨large, spelled⟩

theorem popContiguous_parses (kind : Contiguous α) :
    Parses (popContiguous kind) (sizeForm.then fun count => symbols (count * kind.scalar.pod.size)) fun _ => () := by
  refine popSize_parses.bind fun size => ?_
  by_cases large : size > kind.maxSize.room
  · obtain ⟨thrown, -, refused⟩ := reserve_refuses ⟨rfl, large⟩
    rw [refused]
    intro os _ _ _
    exact ⟨rfl, rfl⟩
  · rw [reserve_accepts fun refused => large refused.2, pure_bind]
    have small := kind.bytes_lt (Nat.le_of_not_lt large)
    have nowrap : size * kind.scalar.pod.size % wordSize = size * kind.scalar.pod.size :=
      Nat.mod_eq_of_lt (Nat.lt_trans small (by decide))
    rw [nowrap]
    exact (popRaw_parses small).map _ fun bytes found spelled => spelled.1

/-- Every overload of `pop` reads one string of its type's form. -/
theorem pop_parses {b : Bool} (type : Ty b α) (destination : α) : Parses (type.pop destination) type.form fun _ => () := by
  induction type with
  | bool => exact (popPod_parses Pod.bool).weaken fun bytes found spelled => spelled.1
  | scalar kind =>
    refine (popScalar_parses kind).weaken fun bytes found spelled => ?_
    exact ⟨bytes, [], found, (List.append_nil _).symm, spelled, rfl, rfl⟩
  | octets => exact popSize_parses.bind fun size => popAppend_parses destination size
  | pair first second one two =>
    exact (one destination.1).seq fun found => (two destination.2).map _ fun _ _ spelled => spelled
  | contiguous kind => exact popContiguous_parses kind
  | vector maxSize element ih => exact popContainer_parses (.vector maxSize) (ih element.default) destination
  | container kind element ih => exact popContainer_parses kind (ih element.default) destination
  | struct => exact pure_parses () fun _ => ()
  | field type init rest one others =>
    exact (one destination.1).seq fun found => (others destination.2).map _ fun _ _ spelled => spelled

theorem members_parses {n : Nat} (code : BitVec n) (members : Members n γ) (destination : γ) :
    Parses (members.pop code destination) (members.form code) fun _ => () := by
  induction members with
  | none => exact pure_parses () fun _ => ()
  | @field b first last mask type init rest ih =>
    have others {found : first} : Parses (do return (found, ← rest.pop code destination.2)) (rest.form code)
        fun _ => () :=
      (ih destination.2).map (Prod.mk found) fun _ _ spelled => spelled
    rw [Members.form, Members.pop]
    by_cases sent : code &&& mask ≠ 0#n
    · rw [if_pos sent, if_pos sent]
      exact (pop_parses type destination.1).seq fun found => others
    · rw [if_neg sent, if_neg sent]
      exact (pure_parses destination.1 fun _ => ()).seq fun found => others

theorem layout_parses (layout : Layout α) (destination : α) : Parses (layout.pop destination) layout.form fun _ => () := by
  cases layout with
  | plain type => exact pop_parses type destination
  | coded code members =>
    exact (popScalar_parses code).bind fun found =>
      (members_parses found members destination.2).map _ fun _ _ spelled => spelled

/-- `unpack` on a fresh stub reads one string of the class's form. -/
theorem unpack_parses (cls : MessageClass α) : Parses (cls.unpack cls.default) cls.form fun _ => () := by
  cases cls with
  | protocol layout => exact layout_parses layout layout.default
  | rpc argument result =>
    refine (compactIntUnpack_parses false .w64).seq fun traceid => (popPod_parses Pod.bool).bind fun isServer => ?_
    cases isServer with
    | false => exact (layout_parses argument argument.default).map _ fun _ _ spelled => spelled
    | true => exact (layout_parses result result.default).map _ fun _ _ spelled => spelled

/-! ## `unpack` does not end the process -/

/-- Whatever the call throws, a `catch` sees it. -/
def Spares (call : StreamM α) : Prop := ∀ os after, call os ≠ .error .abort after

theorem Spares.bind {first : StreamM α} {next : α → StreamM β} (start : Spares first) (rest : ∀ found, Spares (next found)) :
    Spares (first >>= next) := by
  intro os after
  cases run : first os with
  | error thrown stopped =>
    rw [run_bind_error run]
    intro same
    cases same
    exact start os _ run
  | ok found stopped =>
    rw [run_bind run]
    exact rest found stopped after

theorem pure_spares (found : α) : Spares (pure found) := by
  intro os after thrown
  cases thrown

theorem throw_spares {thrown : Thrown} (caught : thrown ≠ .abort) : Spares (throw thrown : StreamM α) := by
  intro os after same
  cases same
  exact caught rfl

theorem Spares.map {call : StreamM α} (f : α → β) (spares : Spares call) : Spares (do return f (← call)) :=
  spares.bind fun found => pure_spares (f found)

theorem popCompact_spares : Spares popCompact := by
  intro os after
  unfold popCompact
  split <;> intro same <;> cases same

theorem popRaw_spares (len : Nat) : Spares (popRaw len) := by
  intro os after
  unfold popRaw
  split <;> intro same <;> cases same

theorem popCompactu64_spares : Spares popCompactu64 := popCompact_spares.map _

theorem popSize_spares : Spares popSize := popCompactu64_spares.map _

theorem popPod_spares (pod : Pod α) : Spares (popPod pod) := (popRaw_spares pod.size).map _

theorem popScalar_spares (kind : Scalar α) : Spares (popScalar kind) := by
  cases kind with
  | int signed w =>
    cases signed <;> cases w
    · exact popCompact_spares.map _
    · exact popCompact_spares.map _
    · exact popCompact_spares.map _
    · exact (popCompact_spares.map _).map _
    · exact (popCompact_spares.map _).map _
    · exact (popCompact_spares.map _).map _
  | raw pod => exact popPod_spares pod

/-- The sum in `appendBeyond` wraps only over bytes that were there before. -/
theorem popOctets_spares : Spares (popOctets []) := by
  have same : popOctets [] = popCompactu64 >>= fun size => popAppend [] size.toNat := by
    simp only [popOctets, popSize, bind_assoc, pure_bind]
  rw [same]
  refine popCompactu64_spares.bind fun size os after => ?_
  have thrown : appendBeyond [] size.toNat = .overflowError "frob_size: input too large" := by
    rw [appendBeyond, if_pos]
    simpa [wordSize] using size.isLt
  unfold popAppend
  rw [thrown]
  split
  · intro same
    cases same
  · split <;> intro same <;> cases same

theorem popEach_spares {pop : StreamM α} (insert : γ → α → γ) (each : Spares pop) (count : Nat) (content : γ) :
    Spares (popEach pop insert count content) := by
  induction count generalizing content with
  | zero => exact pure_spares content
  | succ count ih => exact each.bind fun found => ih (insert content found)

theorem popContainer_spares (kind : Container α) {pop : StreamM α} (each : Spares pop) (content : kind.Content) :
    Spares (popContainer kind pop content) := by
  refine popSize_spares.bind fun size => ?_
  by_cases large : kind.canReserve = true ∧ size > kind.maxSize.room
  · obtain ⟨thrown, caught, refused⟩ := reserve_refuses large
    rw [refused]
    exact throw_spares (by rcases caught with rfl | rfl <;> simp)
  · rw [reserve_accepts large, pure_bind]
    exact popEach_spares kind.insert each size content

theorem popContiguous_spares (kind : Contiguous α) : Spares (popContiguous kind) := by
  refine popSize_spares.bind fun size => ?_
  by_cases large : size > kind.maxSize.room
  · obtain ⟨thrown, caught, refused⟩ := reserve_refuses ⟨rfl, large⟩
    rw [refused]
    exact throw_spares (by rcases caught with rfl | rfl <;> simp)
  · rw [reserve_accepts fun refused => large refused.2, pure_bind]
    exact (popRaw_spares _).map _

theorem pop_spares {b : Bool} (type : Ty b α) {destination : α} (unfilled : type.Unfilled destination) :
    Spares (type.pop destination) := by
  induction type with
  | bool => exact popPod_spares Pod.bool
  | scalar kind => exact popScalar_spares kind
  | octets =>
    obtain rfl : destination = [] := unfilled
    exact popOctets_spares
  | pair first second one two => exact (one unfilled.1).bind fun found => (two unfilled.2).map _
  | contiguous kind => exact popContiguous_spares kind
  | vector maxSize element ih => exact popContainer_spares (.vector maxSize) (ih unfilled) destination
  | container kind element ih => exact popContainer_spares kind (ih unfilled) destination
  | struct => exact pure_spares ()
  | field type init rest one others => exact (one unfilled.1).bind fun found => (others unfilled.2).map _

theorem members_spares {n : Nat} (code : BitVec n) (members : Members n γ) {destination : γ}
    (unfilled : members.Unfilled destination) : Spares (members.pop code destination) := by
  induction members with
  | none => exact pure_spares ()
  | field mask type init rest ih =>
    rw [Members.pop]
    split
    · exact (pop_spares type unfilled.1).bind fun found => (ih unfilled.2).map _
    · exact (pure_spares destination.1).bind fun found => (ih unfilled.2).map _

theorem layout_spares (layout : Layout α) {destination : α} (unfilled : layout.Unfilled destination) :
    Spares (layout.pop destination) := by
  cases layout with
  | plain type => exact pop_spares type unfilled
  | coded code members => exact (popScalar_spares code).bind fun found => (members_spares found members unfilled).map _

theorem unpack_spares (cls : MessageClass α) (unfilled : cls.Unfilled) : Spares (cls.unpack cls.default) := by
  cases cls with
  | protocol layout => exact layout_spares layout unfilled
  | rpc argument result =>
    refine popCompactu64_spares.bind fun traceid => (popPod_spares Pod.bool).bind fun isServer => ?_
    cases isServer with
    | false => exact (layout_spares argument unfilled.1).map _
    | true => exact (layout_spares result unfilled.2).map _

end Proofs
end Cassobee