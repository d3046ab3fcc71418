import Cassobee.Protocol
import Cassobee.Proofs.RoundTrip

/-! What `protocol::encode` writes. The length field is filled with as many bytes as the table of
bit lengths says, so that the frame is right for exactly those payload sizes at which the table
agrees with the varint. -/

namespace Cassobee

/-- A frame as `protocol::decode` reads it. -/
def frame (id : ProtocolId) (payload : List UInt8) : List UInt8 :=
  writeVarint id.toNat ++ writeVarint payload.length ++ payload

/-- The payload sizes whose row of `compact_int_size_table` is the length of their varint. Rows
change every eight bits where a varint grows every seven. -/
def TableRowExact (size : Nat) : Prop :=
  size < 2 ^ 14 ∨ 2 ^ 15 ≤ size ∧ size < 2 ^ 21 ∨ 2 ^ 23 ≤ size ∧ size < 2 ^ 28 ∨
    2 ^ 31 ≤ size ∧ size < 2 ^ 35 ∨ 2 ^ 39 ≤ size ∧ size < 2 ^ 42 ∨ 2 ^ 47 ≤ size ∧ size < 2 ^ 49 ∨
    2 ^ 55 ≤ size ∧ size < 2 ^ 56

instance (size : Nat) : Decidable (TableRowExact size) := inferInstanceAs (Decidable (_ ∨ _))

namespace Proofs
open Octetsstream

theorem getCompactIntSize_bounds {size : Nat} (word : size < wordSize) :
    1 ≤ getCompactIntSize size ∧ getCompactIntSize size ≤ (writeVarint size).length ∧
      getCompactIntSize size ≤ 9 := by
  have table : ∀ bits < 65, 1 ≤ compactIntSizeTable.getD bits 0 ∧
      compactIntSizeTable.getD bits 0 ≤ max 1 ((bits + 6) / 7) ∧ compactIntSizeTable.getD bits 0 ≤ 9 := by decide
  rw [length_writeVarint]
  exact table _ (bitLength_lt word)

theorem tableRowExact_iff {size : Nat} (word : size < wordSize) :
    TableRowExact size ↔ getCompactIntSize size = (writeVarint size).length := by
  have table : ∀ bits < 65, (compactIntSizeTable.getD bits 0 = max 1 ((bits + 6) / 7)) ↔
      (bits ≤ 14 ∨ ¬ bits ≤ 15 ∧ bits ≤ 21 ∨ ¬ bits ≤ 23 ∧ bits ≤ 28 ∨ ¬ bits ≤ 31 ∧ bits ≤ 35 ∨
        ¬ bits ≤ 39 ∧ bits ≤ 42 ∨ ¬ bits ≤ 47 ∧ bits ≤ 49 ∨ ¬ bits ≤ 55 ∧ bits ≤ 56) := by decide
  rw [length_writeVarint, getCompactIntSize, table _ (bitLength_lt word)]
  simp only [bitLength_le_iff, Nat.not_lt, TableRowExact]

/-- Behind the guessed field stands the payload; after the move it stands behind the actual one. -/
private theorem movePayload_spec {os : Octetsstream} {head field payload : List UInt8} {actual : Nat}
    (valid : os.data.Valid) (content : os.bytes = head ++ field ++ payload)
    (room : head.length + field.length + payload.length + 10 ≤ 2 ^ 63) (narrow : actual ≤ 9) :
    ∃ data other, movePayload (head.length + field.length) payload.length field.length actual os =
        .ok () { os with data } ∧ data.Valid ∧ data.bytes = head ++ other ++ payload ∧ other.length = actual := by
  unfold movePayload
  split
  next different =>
    have size : os.size = head.length + field.length + payload.length := by
      have length : os.bytes.length = os.size := length_bytes valid
      rw [← length, content]
      simp [Nat.add_assoc]
    have target : (os.size + (actual + wordSize - field.length) % wordSize) % wordSize =
        head.length + actual + payload.length := by
      simp only [wordSize]
      omega
    have start : (head.length + field.length + (actual + wordSize - field.length) % wordSize) % wordSize =
        head.length + actual := by
      simp only [wordSize]
      omega
    obtain ⟨grown, reserved, kept, same, length, large⟩ :=
      reserve_spec valid (show head.length + actual + payload.length ≤ 2 ^ 63 by omega)
    have moving : (grown.buf.drop (head.length + field.length)).take payload.length = payload := by
      have front : (head ++ field).length = head.length + field.length := List.length_append
      have stored : grown.bytes.drop (head ++ field).length = payload := by
        rw [same, show os.data.bytes = _ from content, List.drop_left]
      rw [Octets.bytes, List.drop_take, front] at stored
      rw [length, show os.data.len = _ from size] at stored
      rwa [show head.length + field.length + payload.length - (head.length + field.length) = payload.length by
        omega] at stored
    simp only [target, reserved, start, moving]
    have fits : head.length + actual ≤ grown.buf.length := by
      simp only [Octets.cap] at large
      omega
    have final : (grown.len + (actual + wordSize - field.length) % wordSize) % wordSize =
        head.length + actual + payload.length := by
      rw [length]
      exact target
    refine ⟨_, (grown.buf.drop head.length).take actual, rfl, ?_, ?_, ?_⟩
    · simp only [Octets.Valid, Octets.fastResize, Octets.cap, final]
      rw [overwrite_length (by simp only [Octets.cap] at large; omega)]
      exact large
    · simp only [Octets.fastResize, Octets.bytes, final]
      rw [take_overwrite fits, List.take_add]
      have front : grown.buf.take head.length = head := by
        have stored : grown.bytes.take head.length = head := by
          rw [same, show os.data.bytes = _ from content, List.append_assoc, List.take_left]
        rw [Octets.bytes, List.take_take, Nat.min_eq_left] at stored
        · exact stored
        · rw [length, show os.data.len = _ from size]
          omega
      rw [front]
    · rw [List.length_take, List.length_drop]
      omega
  next same => exact ⟨os.data, field, rfl, valid, content, by simpa using Eq.symm (not_not.mp same)⟩

private theorem fillSize_spec {os : Octetsstream} {head other payload field : List UInt8}
    (valid : os.data.Valid) (content : os.bytes = head ++ other ++ payload) (same : field.length = other.length)
    (positive : 0 < field.length) (room : head.length + field.length + payload.length ≤ 2 ^ 63) :
    ∃ data, fillSize head.length field os = .ok () { os with data } ∧ data.Valid ∧
      data.bytes = head ++ field ++ payload := by
  have size : os.data.len = head.length + field.length + payload.length := by
    have length : os.bytes.length = os.data.len := length_bytes valid
    rw [← length, content, same]
    simp [Nat.add_assoc]
  have rest : (os.data.len + wordSize - head.length) % wordSize = field.length + payload.length := by
    simp only [wordSize]
    omega
  have block : head.length + field.length ≤ os.data.buf.length := by
    simp only [Octets.Valid, Octets.cap] at valid
    omega
  refine ⟨⟨overwrite os.data.buf head.length field, os.data.len⟩, ?_, ?_, ?_⟩
  · have longest : max os.data.len (head.length + field.length) = os.data.len := by omega
    simp only [fillSize, Octets.replace, rest, show ¬ field.length = 0 by omega, if_false,
      show ¬ (field.length + payload.length < field.length) by omega,
      Nat.min_eq_right (Nat.le_add_right field.length payload.length)]
    rw [Nat.mod_eq_of_lt (by simp only [wordSize]; omega),
      reserve_of_fits (show head.length + field.length ≤ os.data.cap from block)]
    simp [bind, Except.bind, longest]
  · simp only [Octets.Valid, Octets.cap, overwrite_length block]
    exact valid
  · have stored : os.data.buf.take os.data.len = head ++ other ++ payload := content
    have front : os.data.buf.take head.length = head := by
      have cut := congrArg (List.take head.length) stored
      rwa [List.take_take, Nat.min_eq_left (by omega), List.append_assoc, List.take_left] at cut
    have back : (os.data.buf.drop (head.length + field.length)).take payload.length = payload := by
      have cut := congrArg (List.drop (head ++ other).length) stored
      rw [List.drop_left, List.drop_take, List.length_append, ← same, size] at cut
      rwa [show head.length + field.length + payload.length - (head.length + field.length) = payload.length by
        omega] at cut
    have total : (head ++ field).length = head.length + field.length := List.length_append
    simp only [Octets.bytes, overwrite, front, size]
    rw [List.take_append, total, List.take_of_length_le (by omega),
      show head.length + field.length + payload.length - (head.length + field.length) = payload.length by omega, back]

section Encode
variable {μ : Type} {methods : ProtocolMethods μ}

/-- Whatever field width was guessed, the payload ends up behind the id and the first bytes of its
length's varint, as many as the table has for it. -/
theorem encodeGuess_layout {message : μ} {payload : List UInt8} (packs : Appends (methods.pack message) payload)
    {os : Octetsstream} (valid : os.data.Valid) (room : os.size + payload.length + 32 ≤ 2 ^ 63)
    {guessSize : Nat} (word : guessSize < wordSize) (stale : Nat → UInt8) :
    ∃ data, encodeGuess methods guessSize stale message os = .ok () { os with data } ∧ data.Valid ∧
      data.bytes = os.bytes ++ writeVarint (methods.getType message).toNat ++
        (writeVarint payload.length).take (getCompactIntSize payload.length) ++ payload := by
  have idBytes : (writeVarint (methods.getType message).toNat).length ≤ 10 :=
    length_writeVarint_le (Nat.lt_trans (methods.getType message).isLt (by decide))
  have sizeWord : payload.length < wordSize := by
    simp only [wordSize]
    omega
  obtain ⟨-, -, guessed⟩ := getCompactIntSize_bounds word
  obtain ⟨positive, short, narrow⟩ := getCompactIntSize_bounds sizeWord
  -- the id, the room for the field, the payload
  obtain ⟨withId, first, valid₁, bytes₁⟩ := pushCompactu32_appends (methods.getType message) os valid (by omega)
  have size₁ := appended_size valid valid₁ bytes₁
  let os₁ : Octetsstream := { os with data := withId }
  have reserved : ((List.range (getCompactIntSize guessSize)).map stale).length = getCompactIntSize guessSize := by simp
  obtain ⟨withField, second, valid₂, bytes₂⟩ :=
    appendData_appends ((List.range (getCompactIntSize guessSize)).map stale) os₁ valid₁
      (by simp only [Octetsstream.size, reserved, os₁] at size₁ room ⊢; omega)
  have size₂ := appended_size (show os₁.data.Valid from valid₁) valid₂ bytes₂
  let os₂ : Octetsstream := { os with data := withField }
  obtain ⟨withPayload, third, valid₃, bytes₃⟩ := packs os₂ valid₂
    (by simp only [Octetsstream.size, reserved, os₁, os₂] at size₁ size₂ room ⊢; omega)
  have size₃ := appended_size (show os₂.data.Valid from valid₂) valid₃ bytes₃
  let os₃ : Octetsstream := { os with data := withPayload }
  have front : (os.bytes ++ writeVarint (methods.getType message).toNat).length = os₁.size := by
    rw [List.length_append, Octetsstream.bytes, length_bytes valid]
    exact size₁.symm
  have content : os₃.bytes = os.bytes ++ writeVarint (methods.getType message).toNat ++
      (List.range (getCompactIntSize guessSize)).map stale ++ payload := by
    simp only [Octetsstream.bytes, os₁, os₂, os₃] at bytes₁ bytes₂ bytes₃ ⊢
    rw [bytes₃, bytes₂, bytes₁]
  have before : os₂.size = (os.bytes ++ writeVarint (methods.getType message).toNat).length +
      ((List.range (getCompactIntSize guessSize)).map stale).length := by
    rw [front]
    exact size₂
  have size : (os₃.size + wordSize - os₂.size) % wordSize = payload.length := by
    simp only [Octetsstream.size, os₂, os₃] at size₃ ⊢
    simp only [size₃, wordSize]
    omega
  -- the payload moves to its place and the field is filled
  have total : os₃.size = os₁.size + getCompactIntSize guessSize + payload.length := by
    simp only [Octetsstream.size, reserved, os₁, os₂, os₃] at size₂ size₃ ⊢
    omega
  obtain ⟨moved, other, fourth, valid₄, bytes₄, width⟩ := movePayload_spec (show os₃.data.Valid from valid₃) content
    (by rw [front, reserved]; simp only [Octetsstream.size, os₁] at size₁ room ⊢; omega) narrow
  let os₄ : Octetsstream := { os with data := moved }
  have exact : ((writeVarint payload.length).take (getCompactIntSize payload.length)).length =
      getCompactIntSize payload.length := by
    rw [List.length_take]
    omega
  obtain ⟨data, fifth, valid₅, bytes₅⟩ := fillSize_spec (show os₄.data.Valid from valid₄) bytes₄
    (exact.trans width.symm) (by omega) (by rw [front, exact]; simp only [Octetsstream.size, os₁] at size₁ room ⊢; omega)
  refine ⟨data, ?_, valid₅, bytes₅⟩
  rw [← before] at fourth
  rw [front] at fifth
  have body : encodeBody methods guessSize stale message os = .ok () { os with data } := by
    unfold encodeBody
    rw [run_bind first, run_bind (show (get : StreamM _) os₁ = .ok os₁ os₁ from rfl), run_bind second,
      run_bind (show (get : StreamM _) os₂ = .ok os₂ os₂ from rfl), run_bind third,
      run_bind (show (get : StreamM _) os₃ = .ok os₃ os₃ from rfl), size]
    rw [reserved] at fourth
    rw [run_bind fourth]
    exact fifth
  simp only [encodeGuess, body]

end Encode

end Proofs
end Cassobee
