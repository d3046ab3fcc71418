import Cassobee.Varint
import Mathlib.Tactic.Ring

/-! Zigzag and varint are lossless at every width, and a varint is refused exactly as long as its
last byte is missing. Nothing here depends on the stream that carries the bytes. -/

namespace Cassobee.Proofs

/-- Bit `0` of the coded word is the sign, and every other bit is a bit of `n` xored with it. -/
private theorem encodeZigzag_bit (w : Nat) (n : BitVec w) (i : Nat) :
    (encodeZigzag w n).getLsbD i = (decide (i < w) && ((decide (1 ≤ i) && n.getLsbD (i - 1)) ^^ n.msb)) := by
  by_cases inside : i < w
  · have signed : (n.sshiftRight (w - 1)).getLsbD i = n.msb := by
      rw [BitVec.getLsbD_sshiftRight]
      by_cases first : i = 0
      · subst i
        simp [BitVec.msb_eq_getLsbD_last]
        omega
      · simp [inside, show ¬ (w - 1 + i < w) by omega]
    simp only [encodeZigzag, BitVec.getLsbD_xor, signed, BitVec.getLsbD_shiftLeft]
    by_cases first : i = 0 <;> simp [inside, first, Nat.one_le_iff_ne_zero, Nat.zero_lt_of_lt inside]
  · simp [encodeZigzag, BitVec.getLsbD_of_ge _ _ (Nat.le_of_not_lt inside), inside]

theorem decodeZigzag_encodeZigzag {w : Nat} (positive : 0 < w) (n : BitVec w) :
    decodeZigzag w (encodeZigzag w n) = n := by
  have odd : encodeZigzag w n &&& 1#w = if n.msb then 1#w else 0#w := by
    apply BitVec.eq_of_getLsbD_eq
    intro i inside
    rw [BitVec.getLsbD_and, encodeZigzag_bit]
    by_cases first : i = 0 <;> cases n.msb <;> simp [inside, first, positive]
  apply BitVec.eq_of_getLsbD_eq
  intro i inside
  simp only [decodeZigzag, odd, BitVec.getLsbD_xor, BitVec.getLsbD_ushiftRight, encodeZigzag_bit]
  have sign : (-(if n.msb then 1#w else 0#w)).getLsbD i = n.msb := by
    cases n.msb with
    | false => simp
    | true => simp [BitVec.neg_one_eq_allOnes, inside]
  rw [sign]
  by_cases last : 1 + i < w
  · cases n.msb <;> simp [last]
  · have top : n.msb = n.getLsbD i := by
      rw [BitVec.msb_eq_getLsbD_last, show w - 1 = i by omega]
    simp [last, top]

/-- The promotion to `int` and the cut back leave the 16-bit arithmetic. -/
private theorem encodeZigzag16_eq (n : BitVec 16) : encodeZigzag16 n = encodeZigzag 16 n := by
  apply BitVec.eq_of_getLsbD_eq
  intro i inside
  have high : ((n.signExtend 32).sshiftRight 15).getLsbD i = n.msb := by
    rw [BitVec.getLsbD_sshiftRight, BitVec.msb_signExtend]
    by_cases first : i = 0
    · subst i
      rw [BitVec.getLsbD_signExtend]
      simp [BitVec.msb_eq_getLsbD_last]
    · rw [BitVec.getLsbD_signExtend]
      simp [show ¬ (15 + i < 16) by omega, show 15 + i < 32 by omega, show ¬ (32 ≤ i) by omega]
  rw [encodeZigzag_bit]
  simp only [encodeZigzag16, BitVec.getLsbD_setWidth, BitVec.getLsbD_xor, high, BitVec.getLsbD_shiftLeft,
    BitVec.getLsbD_signExtend]
  by_cases first : i = 0 <;>
    simp [inside, first, show i < 32 by omega, show i - 1 < 16 by omega, show i - 1 < 32 by omega,
      Nat.one_le_iff_ne_zero]

private theorem decodeZigzag16_eq (n : BitVec 16) : decodeZigzag16 n = decodeZigzag 16 n := by
  apply BitVec.eq_of_getLsbD_eq
  intro i inside
  have odd16 : n &&& 1#16 = if n.getLsbD 0 then 1#16 else 0#16 := by
    apply BitVec.eq_of_getLsbD_eq
    intro j bound
    by_cases first : j = 0
    · subst j
      rw [BitVec.getLsbD_and]
      cases n.getLsbD 0 <;> rfl
    · cases n.getLsbD 0 <;> simp [first]
  have odd32 : (n.setWidth 32 &&& 1#32).setWidth 16 = if n.getLsbD 0 then 1#16 else 0#16 := by
    rw [← odd16]
    apply BitVec.eq_of_getLsbD_eq
    intro j bound
    by_cases first : j = 0 <;> simp [first, bound]
  simp only [decodeZigzag16, decodeZigzag, odd16, odd32]
  cases n.getLsbD 0 with
  | false => simp [inside, show 1 + i < 32 by omega]
  | true =>
    simp [inside, show -(1#16) = BitVec.allOnes 16 from by decide, show i < 32 by omega, show 1 + i < 32 by omega]

theorem decodeZigzag16_encodeZigzag16 (n : BitVec 16) : decodeZigzag16 (encodeZigzag16 n) = n := by
  rw [decodeZigzag16_eq, encodeZigzag16_eq, decodeZigzag_encodeZigzag (by decide)]

/-! ## Varint -/

theorem low_bits (n : Nat) : n &&& 0x7F = n % 128 := Nat.and_two_pow_sub_one_eq_mod n 7

theorem high_bit {n : Nat} (byte : n < 256) : (n &&& 0x80 = 0) ↔ n < 128 := by
  have table : ∀ m : Fin 256, (m.val &&& 0x80 = 0) ↔ m.val < 128 := by decide +kernel
  exact table ⟨n, byte⟩

private theorem continuation_byte (n : Nat) :
    (UInt8.ofNat ((n &&& 0x7F) ||| 0x80)).toNat = n % 128 + 128 := by
  have small : n % 128 < 2 ^ 7 := Nat.mod_lt _ (by decide)
  have sum : n % 128 ||| 0x80 = n % 128 + 128 := by
    rw [Nat.or_comm, Nat.add_comm]
    exact (Nat.two_pow_add_eq_or_of_lt small 1).symm
  rw [low_bits, sum, UInt8.toNat_ofNat']
  omega

theorem writeVarint_small {v : Nat} (small : v < 128) : writeVarint v = [UInt8.ofNat v] := by
  rw [writeVarint, if_neg (by omega)]

theorem writeVarint_large {v : Nat} (large : 128 ≤ v) :
    writeVarint v = UInt8.ofNat ((v &&& 0x7F) ||| 0x80) :: writeVarint (v / 128) := by
  rw [writeVarint, if_pos large, Nat.shiftRight_eq_div_pow]

theorem writeVarint_ne_nil (v : Nat) : writeVarint v ≠ [] := by
  by_cases small : v < 128
  · simp [writeVarint_small small]
  · simp [writeVarint_large (Nat.le_of_not_lt small)]

/-- The accumulated bits lie below `shift`, so the `|=` of the loop adds. -/
private theorem accumulate {acc digit shift : Nat} (below : acc < 2 ^ shift) (fits : digit <<< shift < wordSize) :
    acc ||| (digit <<< shift) % wordSize = acc + digit * 2 ^ shift := by
  rw [Nat.mod_eq_of_lt fits, Nat.shiftLeft_eq, Nat.mul_comm, Nat.or_comm, ← Nat.two_pow_add_eq_or_of_lt below]
  omega

/-- The digit that a continuation byte carries, and what is left for the bytes behind it. -/
private theorem split_digit (v shift : Nat) : v * 2 ^ shift = v % 128 * 2 ^ shift + v / 128 * 2 ^ (shift + 7) := by
  have split : v % 128 + 128 * (v / 128) = v := Nat.mod_add_div v 128
  have power : 2 ^ (shift + 7) = 128 * 2 ^ shift := by rw [Nat.pow_add]; omega
  calc v * 2 ^ shift = (v % 128 + 128 * (v / 128)) * 2 ^ shift := by rw [split]
    _ = v % 128 * 2 ^ shift + v / 128 * (128 * 2 ^ shift) := by ring
    _ = v % 128 * 2 ^ shift + v / 128 * 2 ^ (shift + 7) := by rw [power]

/-- As long as there is something left of a word, the loop has not come to its end. -/
private theorem shift_room {rest shift : Nat} (left : 0 < rest) (fits : rest * 2 ^ shift < wordSize) : shift < 64 := by
  have within : 2 ^ shift < 2 ^ 64 := Nat.lt_of_le_of_lt (Nat.le_mul_of_pos_left _ left) fits
  exact (Nat.pow_lt_pow_iff_right Nat.one_lt_two).mp within

private theorem readVarintLoop_writeVarint (v shift acc read : Nat) (rest : List UInt8)
    (room : shift < 64) (below : acc < 2 ^ shift) (fits : v * 2 ^ shift < wordSize) :
    readVarintLoop shift acc read (writeVarint v ++ rest) =
      some (acc + v * 2 ^ shift, read + (writeVarint v).length) := by
  induction v using Nat.strongRecOn generalizing shift acc read with
  | ind v ih =>
    have positive : 0 < 2 ^ shift := Nat.two_pow_pos shift
    have digits : v % 128 * 2 ^ shift ≤ v * 2 ^ shift := Nat.mul_le_mul_right _ (Nat.mod_le _ _)
    by_cases small : v < 128
    · have byte : (UInt8.ofNat v).toNat = v := by rw [UInt8.toNat_ofNat']; omega
      rw [writeVarint_small small]
      simp only [List.singleton_append, readVarintLoop, room, if_true, byte, (high_bit (by omega)).mpr small,
        low_bits, Nat.mod_eq_of_lt small, List.length_singleton]
      rw [accumulate below (by rw [Nat.shiftLeft_eq]; exact fits)]
    · have large : 128 ≤ v := Nat.le_of_not_lt small
      have byte := continuation_byte v
      have value := split_digit v shift
      have higher : v / 128 * 2 ^ (shift + 7) < wordSize := by omega
      have shiftRoom : shift + 7 < 64 := shift_room (by omega) higher
      have power : 2 ^ (shift + 7) = 128 * 2 ^ shift := by rw [Nat.pow_add]; omega
      have notLast : ¬ ((UInt8.ofNat ((v &&& 0x7F) ||| 0x80)).toNat &&& 0x80 = 0) := by
        rw [byte, high_bit (by omega)]
        omega
      rw [writeVarint_large large]
      simp only [List.cons_append, readVarintLoop, room, if_true, notLast, if_false]
      rw [byte, low_bits, Nat.add_mod_right, Nat.mod_mod, accumulate below (by rw [Nat.shiftLeft_eq]; omega),
        ih (v / 128) (by omega) (shift + 7) _ _ shiftRoom ?_ higher]
      · simp only [List.length_cons, Option.some.injEq, Prod.mk.injEq]
        omega
      · have : v % 128 * 2 ^ shift ≤ 127 * 2 ^ shift := Nat.mul_le_mul_right _ (by omega)
        omega

/-- Reading what was written returns the value and stops at the bytes behind it. -/
theorem readVarint_writeVarint {v : Nat} (word : v < wordSize) (rest : List UInt8) :
    readVarint (writeVarint v ++ rest) = some (v, (writeVarint v).length) := by
  have read := readVarintLoop_writeVarint v 0 0 0 rest (by decide) (by decide) (by simpa using word)
  simpa [readVarint] using read

/-- Every byte but the last announces another one. -/
theorem writeVarint_shape (v : Nat) :
    ∃ front last, writeVarint v = front ++ [last] ∧ (∀ byte ∈ front, 128 ≤ byte.toNat) ∧ last.toNat < 128 := by
  induction v using Nat.strongRecOn with
  | ind v ih =>
    by_cases small : v < 128
    · refine ⟨[], UInt8.ofNat v, writeVarint_small small, fun _ nothing => (List.not_mem_nil nothing).elim, ?_⟩
      rw [UInt8.toNat_ofNat']
      omega
    · have large : 128 ≤ v := Nat.le_of_not_lt small
      obtain ⟨front, last, shape, continued, ends⟩ := ih (v / 128) (by omega)
      refine ⟨UInt8.ofNat ((v &&& 0x7F) ||| 0x80) :: front, last, ?_, ?_, ends⟩
      · rw [writeVarint_large large, shape]
        rfl
      · intro byte member
        rcases List.mem_cons.mp member with rfl | inside
        · rw [continuation_byte]
          omega
        · exact continued byte inside

theorem continued_of_cut {v : Nat} {bytes : List UInt8} (before : bytes <+: writeVarint v)
    (strict : bytes ≠ writeVarint v) : ∀ byte ∈ bytes, 128 ≤ byte.toNat := by
  obtain ⟨front, last, shape, continued, -⟩ := writeVarint_shape v
  rw [shape] at before strict
  have within : bytes <+: front := (List.prefix_concat_iff.1 before).resolve_left strict
  exact fun byte member => continued byte (within.subset member)

private theorem readVarintLoop_continued (shift value read : Nat) {bytes : List UInt8}
    (continued : ∀ byte ∈ bytes, 128 ≤ byte.toNat) : readVarintLoop shift value read bytes = none := by
  induction bytes generalizing shift value read with
  | nil => rfl
  | cons head tail ih =>
    have more : ¬ (head.toNat &&& 0x80 = 0) := by
      rw [high_bit head.toNat_lt]
      exact Nat.not_lt.mpr (continued head (by simp))
    simp only [readVarintLoop, more, if_false]
    split
    · exact ih _ _ _ (fun byte member => continued byte (by simp [member]))
    · rfl

/-- A varint whose last byte has not arrived is refused. -/
theorem readVarint_cut {v : Nat} {bytes : List UInt8} (before : bytes <+: writeVarint v)
    (strict : bytes ≠ writeVarint v) : readVarint bytes = none :=
  readVarintLoop_continued 0 0 0 (continued_of_cut before strict)

theorem bitLength_le_iff (value bits : Nat) : bitLength value ≤ bits ↔ value < 2 ^ bits := by
  unfold bitLength
  split
  next zero => simp [zero]
  next nonzero => rw [Nat.add_one_le_iff, Nat.log2_lt nonzero]

/-- What a continuation byte takes off. -/
private theorem bitLength_div {v : Nat} (large : 128 ≤ v) : bitLength v = bitLength (v / 128) + 7 := by
  have log : v.log2 = (v / 128).log2 + 7 := by
    rw [Nat.log2_eq_iff (by omega)]
    obtain ⟨low, high⟩ := (Nat.log2_eq_iff (n := v / 128) (k := (v / 128).log2) (by omega)).mp rfl
    have power : 2 ^ ((v / 128).log2 + 7) = 2 ^ (v / 128).log2 * 128 := Nat.pow_add ..
    have above : 2 ^ ((v / 128).log2 + 7 + 1) = 2 ^ (v / 128).log2 * 2 * 128 := by
      rw [Nat.pow_succ, power]
      ring
    rw [Nat.pow_succ] at high
    rw [power, above]
    omega
  simp only [bitLength, show v ≠ 0 by omega, show v / 128 ≠ 0 by omega, if_false]
  omega

/-- Seven bits a byte, and one byte for zero. -/
theorem length_writeVarint (v : Nat) : (writeVarint v).length = max 1 ((bitLength v + 6) / 7) := by
  induction v using Nat.strongRecOn with
  | ind v ih =>
    by_cases small : v < 128
    · have bits : bitLength v ≤ 7 := (bitLength_le_iff v 7).mpr small
      rw [writeVarint_small small]
      simp only [List.length_singleton]
      omega
    · have large : 128 ≤ v := Nat.le_of_not_lt small
      have positive : 1 ≤ bitLength (v / 128) := by
        simp [bitLength, show v / 128 ≠ 0 by omega]
      rw [writeVarint_large large, List.length_cons, ih (v / 128) (by omega), bitLength_div large]
      omega

theorem bitLength_lt {size : Nat} (word : size < wordSize) : bitLength size < 65 :=
  Nat.lt_succ_of_le ((bitLength_le_iff size 64).mpr word)

theorem length_writeVarint_le {value : Nat} (word : value < wordSize) : (writeVarint value).length ≤ 10 := by
  have := bitLength_lt word
  rw [length_writeVarint]
  omega

/-- Reading undoes writing whatever comes behind, and waits for the last byte, which alone has no top bit. -/
theorem varint_codec (v : UInt64) (rest : List UInt8) :
    readVarint (writeVarint v.toNat ++ rest) = some (v.toNat, (writeVarint v.toNat).length) ∧
    1 ≤ (writeVarint v.toNat).length ∧ (writeVarint v.toNat).length ≤ 10 ∧
    (∃ front last, writeVarint v.toNat = front ++ [last] ∧ (∀ byte ∈ front, 128 ≤ byte.toNat) ∧ last.toNat < 128) ∧
    ∀ bytes, bytes <+: writeVarint v.toNat → bytes ≠ writeVarint v.toNat → readVarint bytes = none := by
  have word : v.toNat < wordSize := v.toNat_lt
  refine ⟨readVarint_writeVarint word rest, ?_, length_writeVarint_le word, writeVarint_shape v.toNat, ?_⟩
  · exact List.length_pos_iff.2 (writeVarint_ne_nil v.toNat)
  · exact fun bytes before strict => readVarint_cut before strict

/-- The first of the two bytes of 300. -/
theorem varint_codec_300 : writeVarint (300 : UInt64).toNat = [172, 2] ∧ readVarint [172] = none := by
  have written : writeVarint (300 : UInt64).toNat = [172, 2] := by
    rw [writeVarint_large (by decide), writeVarint_small (by decide)]
    rfl
  refine ⟨written, ?_⟩
  apply (varint_codec 300 []).2.2.2.2 [172]
  · rw [written]
    exact ⟨[2], rfl⟩
  · rw [written]
    decide

end Cassobee.Proofs
