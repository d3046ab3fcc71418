import Cassobee.Marshal
import Cassobee.Proofs.Octets

/-! Two rules for calls on a stream: what a push appends, and what a pop reads. Both are stable
under sequencing, so that the overloads need one lemma each. -/

namespace Cassobee.Proofs
open Octetsstream

/-- The call appends exactly these bytes, wherever the stream has room for them. -/
def Appends (call : StreamM Unit) (bytes : List UInt8) : Prop :=
  ∀ os, os.data.Valid → os.size + bytes.length ≤ 2 ^ 63 →
    ∃ data, call os = .ok () { os with data } ∧ data.Valid ∧ data.bytes = os.bytes ++ bytes

/-- The call finds these bytes at the cursor, returns the value and stops behind them. -/
def Reads {α : Type} (call : StreamM α) (bytes : List UInt8) (value : α) : Prop :=
  ∀ os rest, os.data.Valid → os.size ≤ 2 ^ 63 → os.pos ≤ os.size → os.unread = bytes ++ rest →
    call os = .ok value { os with pos := os.pos + bytes.length }

theorem run_bind {ε σ α β : Type} {first : EStateM ε σ α} {next : α → EStateM ε σ β} {before after : σ} {value : α}
    (returned : first before = .ok value after) : (first >>= next) before = next value after := by
  simp only [bind, EStateM.bind, returned]

theorem run_bind_error {ε σ α β : Type} {first : EStateM ε σ α} {next : α → EStateM ε σ β} {before after : σ} {thrown : ε}
    (failed : first before = .error thrown after) : (first >>= next) before = .error thrown after := by
  simp only [bind, EStateM.bind, failed]

theorem ok_of_bind {ε σ α β : Type} {action : EStateM ε σ α} {next : α → EStateM ε σ β} {before after : σ} {value : β}
    (returned : (action >>= next) before = .ok value after) :
    ∃ first middle, action before = .ok first middle ∧ next first middle = .ok value after := by
  simp only [bind, EStateM.bind] at returned
  split at returned
  next first middle acted => exact ⟨first, middle, acted, returned⟩
  next => cases returned

/-- `reserve` has room, or is not there. -/
theorem reserve_accepts {canReserve : Bool} {maxSize : MaxSize} {size : Nat}
    (fits : ¬ (canReserve = true ∧ size > maxSize.room)) : reserve canReserve maxSize size = pure () := by
  unfold reserve
  split
  next can =>
    have within := maxSize.within
    have small : size ≤ maxSize.room := Nat.le_of_not_lt fun large => fits ⟨can, large⟩
    rw [if_neg (by omega), if_neg (by omega)]
  · rfl

theorem reserve_refuses {canReserve : Bool} {maxSize : MaxSize} {size : Nat}
    (large : canReserve = true ∧ size > maxSize.room) :
    ∃ thrown, (thrown = .lengthError ∨ thrown = .badAlloc) ∧
      ∀ {α : Type} (rest : Unit → StreamM α), (reserve canReserve maxSize size >>= rest) = throw thrown := by
  obtain ⟨rfl, large⟩ := large
  by_cases long : size > maxSize.count
  · refine ⟨.lengthError, .inl rfl, fun rest => ?_⟩
    rw [reserve, if_pos rfl, if_pos long]
    rfl
  · refine ⟨.badAlloc, .inr rfl, fun rest => ?_⟩
    rw [reserve, if_pos rfl, if_neg long, if_pos large]
    rfl

theorem appended_size {os : Octetsstream} {data : Octets} {bytes : List UInt8} (valid : os.data.Valid)
    (kept : data.Valid) (content : data.bytes = os.bytes ++ bytes) : data.len = os.size + bytes.length := by
  rw [← length_bytes kept, content, List.length_append, Octetsstream.bytes, length_bytes valid]
  rfl

theorem appendData_appends (bytes : List UInt8) : Appends (appendData bytes) bytes := by
  intro os valid room
  obtain ⟨data, appended, kept, content, -⟩ := append_spec valid room
  exact ⟨data, by simp [appendData, appended], kept, content⟩

theorem pure_appends : Appends (pure ()) [] :=
  fun os valid _ => ⟨os.data, rfl, valid, by simp [Octetsstream.bytes]⟩

theorem Appends.bind {first second : StreamM Unit} {one two : List UInt8}
    (start : Appends first one) (next : Appends second two) : Appends (first >>= fun _ => second) (one ++ two) := by
  intro os valid room
  rw [List.length_append] at room
  obtain ⟨data, pushed, kept, content⟩ := start os valid (by omega)
  have size := appended_size valid kept content
  obtain ⟨final, done, still, result⟩ := next { os with data } kept (by
    simp only [Octetsstream.size] at size ⊢ room
    omega)
  refine ⟨final, ?_, still, ?_⟩
  · rw [run_bind pushed]
    exact done
  · simp only [Octetsstream.bytes] at result content ⊢
    rw [result, content, List.append_assoc]

theorem unread_length {os : Octetsstream} (valid : os.data.Valid) : os.unread.length = os.size - os.pos := by
  simp [Octetsstream.unread, length_bytes valid, Octetsstream.size]

theorem unread_nil {os : Octetsstream} (valid : os.data.Valid) (finished : os.pos = os.size) : os.unread = [] := by
  apply List.eq_nil_of_length_eq_zero
  rw [unread_length valid, finished, Nat.sub_self]

/-- Behind a prefix of what is unread stands the rest of it. -/
theorem unread_behind {os : Octetsstream} {bytes rest : List UInt8} (content : os.unread = bytes ++ rest)
    (transpos : Nat) : Octetsstream.unread ⟨os.data, os.pos + bytes.length, transpos⟩ = rest := by
  simp only [Octetsstream.unread] at content ⊢
  rw [← List.drop_drop, content, List.drop_left]

theorem pos_behind {os : Octetsstream} {bytes rest : List UInt8} (valid : os.data.Valid) (inside : os.pos ≤ os.size)
    (content : os.unread = bytes ++ rest) : os.pos + bytes.length ≤ os.size := by
  have total := unread_length valid
  rw [content, List.length_append] at total
  omega

theorem erase_all {os : Octetsstream} (beyond : os.size ≤ os.pos) :
    (os.data.erase 0 os.pos).Valid ∧ (os.data.erase 0 os.pos).bytes = [] ∧ (os.data.erase 0 os.pos).len = 0 := by
  simp only [Octetsstream.size] at beyond
  simp [Octets.erase, Octets.Valid, Octets.bytes, Nat.min_eq_left beyond]

theorem erase_unread {os : Octetsstream} (valid : os.data.Valid) :
    (os.data.erase 0 os.pos).Valid ∧ (os.data.erase 0 os.pos).bytes = os.unread ∧ (os.data.erase 0 os.pos).len ≤ os.size := by
  by_cases inside : os.pos ≤ os.size
  · obtain ⟨kept, content, length, -⟩ := erase_front valid inside
    exact ⟨kept, content, by rw [length]; exact Nat.sub_le ..⟩
  · obtain ⟨kept, content, length⟩ := erase_all (Nat.le_of_lt (Nat.lt_of_not_le inside))
    have nothing : os.unread = [] := by
      apply List.drop_eq_nil_of_le
      rw [length_bytes valid]
      exact Nat.le_of_lt (Nat.lt_of_not_le inside)
    exact ⟨kept, content.trans nothing.symm, by rw [length]; exact Nat.zero_le _⟩

theorem tryShrink_spec {os : Octetsstream} (valid : os.data.Valid) (inside : os.pos ≤ os.size) :
    os.tryShrink.data.Valid ∧ os.tryShrink.pos ≤ os.tryShrink.size ∧ os.tryShrink.unread = os.unread ∧
      os.tryShrink.size ≤ os.size ∧ os.tryShrink.data.cap = os.data.cap := by
  unfold Octetsstream.tryShrink
  split
  next =>
    obtain ⟨kept, bytes, length, block⟩ := erase_front valid inside
    refine ⟨kept, Nat.zero_le _, ?_, ?_, block⟩
    · simp [Octetsstream.unread, bytes]
    · simp only [Octetsstream.size, length]
      omega
  next => exact ⟨valid, inside, rfl, Nat.le_refl _, rfl⟩

/-- Wherever the cursor is, what is unread stays. -/
theorem tryShrink_unread {os : Octetsstream} (valid : os.data.Valid) :
    os.tryShrink.data.Valid ∧ os.tryShrink.unread = os.unread ∧ os.tryShrink.size ≤ os.size := by
  unfold Octetsstream.tryShrink
  split
  · obtain ⟨kept, content, length⟩ := erase_unread valid
    refine ⟨kept, ?_, length⟩
    rw [Octetsstream.unread, content]
    rfl
  · exact ⟨valid, rfl, Nat.le_refl _⟩

theorem pure_reads {α : Type} (value : α) : Reads (pure value) [] value := by
  intro os rest _ _ _ _
  simp [pure, EStateM.pure]

theorem Reads.bind {α β : Type} {first : StreamM α} {next : α → StreamM β} {one two : List UInt8}
    {middle : α} {value : β} (start : Reads first one middle) (rest : Reads (next middle) two value) :
    Reads (first >>= next) (one ++ two) value := by
  intro os suffix valid bound inside content
  rw [List.append_assoc] at content
  have read := start os (two ++ suffix) valid bound inside content
  have final := rest { os with pos := os.pos + one.length } suffix valid bound (pos_behind valid inside content)
    (unread_behind content os.transpos)
  rw [run_bind read, final, List.length_append, ← Nat.add_assoc]

theorem Reads.map {α β : Type} {call : StreamM α} {bytes : List UInt8} {value : α} (f : α → β)
    (read : Reads call bytes value) : Reads (do return f (← call)) bytes (f value) := by
  have done : Reads (call >>= fun found => pure (f found)) (bytes ++ []) (f value) := read.bind (pure_reads _)
  simpa using done

/-- What a copy from the cursor finds in the block. -/
theorem take_of_unread {os : Octetsstream} {bytes rest : List UInt8} (valid : os.data.Valid) (inside : os.pos ≤ os.size)
    (content : os.unread = bytes ++ rest) : (os.data.buf.drop os.pos).take bytes.length = bytes := by
  have enough := pos_behind valid inside content
  have cut : (os.unread).take bytes.length = bytes := by rw [content, List.take_left]
  rw [Octetsstream.unread, Octets.bytes, List.drop_take, List.take_take] at cut
  rwa [Nat.min_eq_left (by simp only [Octetsstream.size] at enough; omega)] at cut

/-- Raw bytes come back as they were stored, as long as the guard's sum cannot wrap. -/
theorem popRaw_reads (bytes : List UInt8) : Reads (popRaw bytes.length) bytes bytes := by
  intro os rest valid bound inside content
  have enough := pos_behind valid inside content
  have small : os.pos + bytes.length < wordSize := by
    simp only [wordSize]
    omega
  simp only [popRaw, Nat.mod_eq_of_lt small, take_of_unread valid inside content]
  rw [if_neg (by simp only [Octetsstream.size] at enough; omega)]

theorem popCompact_reads {value : Nat} (word : value < wordSize) : Reads popCompact (writeVarint value) value := by
  intro os rest _ _ _ content
  simp only [popCompact, content, readVarint_writeVarint word]

/-- A header varint that is not all there makes the pop throw and moves nothing. -/
theorem popCompact_throws {os : Octetsstream} {value : Nat} (partly : os.unread <+: writeVarint value)
    (missing : os.unread ≠ writeVarint value) :
    popCompact os = .error (.exception "varint decode failed") os := by
  simp only [popCompact, readVarint_cut partly missing]

theorem popCompactu32_reads (value : BitVec 32) : Reads popCompactu32 (writeVarint value.toNat) value := by
  have word : value.toNat < wordSize := Nat.lt_trans value.isLt (by decide)
  simpa [popCompactu32] using (popCompact_reads word).map (BitVec.ofNat 32)

theorem popCompactu64_reads (value : BitVec 64) : Reads popCompactu64 (writeVarint value.toNat) value := by
  have word : value.toNat < wordSize := value.isLt
  simpa [popCompactu64] using (popCompact_reads word).map (BitVec.ofNat 64)

theorem popCompactu16_reads (value : BitVec 16) : Reads popCompactu16 (writeVarint value.toNat) value := by
  have word : value.toNat < wordSize := Nat.lt_trans value.isLt (by decide)
  simpa [popCompactu16] using (popCompact_reads word).map (BitVec.ofNat 16)

theorem popCompact16_reads (value : BitVec 16) :
    Reads popCompact16 (writeVarint (encodeZigzag16 value).toNat) value := by
  have back := (popCompactu16_reads (encodeZigzag16 value)).map decodeZigzag16
  rwa [decodeZigzag16_encodeZigzag16] at back

theorem popCompact32_reads (value : BitVec 32) :
    Reads popCompact32 (writeVarint (encodeZigzag32 value).toNat) value := by
  have back := (popCompactu32_reads (encodeZigzag32 value)).map decodeZigzag32
  rwa [show decodeZigzag32 (encodeZigzag32 value) = value from decodeZigzag_encodeZigzag (by decide) value] at back

theorem popCompact64_reads (value : BitVec 64) :
    Reads popCompact64 (writeVarint (encodeZigzag64 value).toNat) value := by
  have back := (popCompactu64_reads (encodeZigzag64 value)).map decodeZigzag64
  rwa [show decodeZigzag64 (encodeZigzag64 value) = value from decodeZigzag_encodeZigzag (by decide) value] at back

theorem pushCompactu32_appends (value : BitVec 32) : Appends (pushCompactu32 value) (writeVarint value.toNat) :=
  appendData_appends _

theorem pushSize_appends {size : Nat} (word : size < wordSize) : Appends (pushSize size) (writeVarint size) := by
  have value : (BitVec.ofNat 64 size).toNat = size := by rw [BitVec.toNat_ofNat]; exact Nat.mod_eq_of_lt word
  simpa [pushSize, pushCompactu64, pushCompact, value] using appendData_appends (writeVarint size)

theorem popSize_reads {size : Nat} (word : size < wordSize) : Reads popSize (writeVarint size) size := by
  have value : (BitVec.ofNat 64 size).toNat = size := by rw [BitVec.toNat_ofNat]; exact Nat.mod_eq_of_lt word
  simpa [popSize, value] using (popCompactu64_reads (BitVec.ofNat 64 size)).map BitVec.toNat

theorem pushEach_appends {α : Type} {push : α → StreamM Unit} {encode : α → List UInt8} {elements : List α}
    (each : ∀ element ∈ elements, Appends (push element) (encode element)) :
    Appends (pushEach push elements) (elements.flatMap encode) := by
  induction elements with
  | nil => exact pure_appends
  | cons element elements ih =>
    rw [List.flatMap_cons]
    exact (each element (by simp)).bind (ih fun other member => each other (by simp [member]))

theorem popEach_reads {α γ : Type} {pop : StreamM α} {encode : α → List UInt8} {popped : α → α}
    (insert : γ → α → γ) {elements : List α}
    (each : ∀ element ∈ elements, Reads pop (encode element) (popped element)) (content : γ) :
    Reads (popEach pop insert elements.length content) (elements.flatMap encode)
      ((elements.map popped).foldl insert content) := by
  induction elements generalizing content with
  | nil => exact pure_reads content
  | cons element elements ih =>
    rw [List.flatMap_cons, List.map_cons, List.foldl_cons]
    exact (each element (by simp)).bind (ih (fun other member => each other (by simp [member])) _)

end Cassobee.Proofs
