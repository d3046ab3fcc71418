import Cassobee.Proofs.Grammar

/-! What a compact integer is read from, when the bytes are no honest encoding. The loop stops after
ten groups, of which the last has room for one bit, and the result is cut to the width of the
destination. -/

namespace Cassobee

/-- Every byte but the last announces another one. -/
inductive Groups : List UInt8 → Prop where
  | last {byte : UInt8} (final : byte.toNat < 128) : Groups [byte]
  | more {byte : UInt8} {rest : List UInt8} (continued : 128 ≤ byte.toNat) (groups : Groups rest) : Groups (byte :: rest)

/-- The number that the groups spell, lowest first. -/
def groupsValue : List UInt8 → Nat
  | [] => 0
  | byte :: rest => byte.toNat % 128 + 128 * groupsValue rest

namespace Proofs
open Octetsstream

/-- The call throws, or it returns the very number that the bytes it has consumed spell. -/
def ReadsExactly {w : Nat} (call : StreamM (BitVec w)) (os : Octetsstream) : Prop :=
  match call os with
  | .error _ _ => True
  | .ok value after => ∃ bytes rest, os.unread = bytes ++ rest ∧ Groups bytes ∧
      after = { os with pos := os.pos + bytes.length } ∧ value.toNat = groupsValue bytes

/-- What ten groups or less spell at the cursor fits into the width. -/
def SpelledBelow (w : Nat) (os : Octetsstream) : Prop :=
  ∀ bytes rest, os.unread = bytes ++ rest → Groups bytes → bytes.length ≤ 10 → groupsValue bytes < 2 ^ w

theorem groups_unique {one two rest rest' : List UInt8} (first : Groups one) (second : Groups two)
    (same : one ++ rest = two ++ rest') : one = two := by
  induction first generalizing two with
  | last final =>
    cases second with
    | last final' =>
      rw [List.singleton_append, List.singleton_append] at same
      rw [(List.cons.inj same).1]
    | more continued groups =>
      obtain ⟨rfl, -⟩ := List.cons.inj same
      omega
  | more continued groups ih =>
    cases second with
    | last final' =>
      obtain ⟨rfl, -⟩ := List.cons.inj same
      omega
    | more continued' groups' =>
      obtain ⟨rfl, tails⟩ := List.cons.inj same
      rw [ih groups' tails]

/-- The `|=` of the loop adds, up to the bits that are shifted out of the word. -/
private theorem accumulate_mod {acc digit shift : Nat} (below : acc < 2 ^ shift) (room : shift < 64) :
    acc ||| (digit <<< shift) % wordSize = (acc + digit * 2 ^ shift) % wordSize := by
  have split : wordSize = 2 ^ shift * 2 ^ (64 - shift) := by
    rw [wordSize, ← Nat.pow_add, Nat.add_sub_cancel' (Nat.le_of_lt room)]
  have high : (digit <<< shift) % wordSize = 2 ^ shift * (digit % 2 ^ (64 - shift)) := by
    rw [Nat.shiftLeft_eq, Nat.mul_comm digit, split, Nat.mul_mod_mul_left]
  rw [high, Nat.or_comm, ← Nat.two_pow_add_eq_or_of_lt below, Nat.add_comm acc, Nat.mul_comm digit, split,
    Nat.mod_mul, Nat.mul_add_mod, Nat.mod_eq_of_lt below, Nat.mul_add_div (Nat.two_pow_pos shift),
    Nat.div_eq_of_lt below, Nat.add_zero, Nat.add_comm]

/-- A loop that has `count` groups behind it reads the rest of ten. -/
private theorem readVarintLoop_groups {bytes : List UInt8} (groups : Groups bytes) (rest : List UInt8) (count : Nat)
    {acc read : Nat} (below : acc < 2 ^ (7 * count)) (short : count + bytes.length ≤ 10) :
    readVarintLoop (7 * count) acc read (bytes ++ rest) =
      some ((acc + groupsValue bytes * 2 ^ (7 * count)) % wordSize, read + bytes.length) := by
  induction groups generalizing count acc read with
  | @last byte final =>
    simp only [List.length_singleton] at short ⊢
    have room : 7 * count < 64 := by omega
    have low : byte.toNat &&& 0x7F = byte.toNat := by rw [low_bits, Nat.mod_eq_of_lt final]
    simp only [List.singleton_append, readVarintLoop, if_pos room, (high_bit byte.toNat_lt).mpr final, if_true, low,
      accumulate_mod below room, groupsValue, Nat.mod_eq_of_lt final, Nat.mul_zero, Nat.add_zero]
  | @more byte tail continued groups ih =>
    have positive : 0 < tail.length := by cases groups <;> simp
    simp only [List.length_cons] at short ⊢
    have room : 7 * count < 64 := by omega
    have goes : ¬ (byte.toNat &&& 0x80 = 0) := by
      rw [high_bit byte.toNat_lt]
      omega
    have power : 2 ^ (7 * (count + 1)) = 128 * 2 ^ (7 * count) := by
      rw [show 7 * (count + 1) = 7 * count + 7 by omega, Nat.pow_add]
      omega
    -- a group that is not the last one is not cut
    have digit : byte.toNat % 128 * 2 ^ (7 * count) ≤ 127 * 2 ^ (7 * count) := Nat.mul_le_mul_right _ (by omega)
    have sum : acc + byte.toNat % 128 * 2 ^ (7 * count) < 2 ^ (7 * (count + 1)) := by omega
    have word : 2 ^ (7 * (count + 1)) ≤ wordSize := Nat.pow_le_pow_right (by decide) (by omega)
    have next := @ih (count + 1) _ (read + 1) sum (by omega)
    simp only [List.cons_append, readVarintLoop, if_pos room, if_neg goes, low_bits, accumulate_mod below room]
    rw [Nat.mod_eq_of_lt (Nat.lt_of_lt_of_le sum word), show 7 * count + 7 = 7 * (count + 1) by omega, next, groupsValue,
      power]
    congr 2
    · congr 1
      ring
    · omega

/-- Nothing else is read. -/
private theorem groups_of_readVarintLoop {bytes : List UInt8} (count : Nat) {acc read value total : Nat}
    (found : readVarintLoop (7 * count) acc read bytes = some (value, total)) :
    ∃ one rest, bytes = one ++ rest ∧ Groups one ∧ count + one.length ≤ 10 := by
  induction bytes generalizing count acc read with
  | nil => cases found
  | cons byte bytes ih =>
    rw [readVarintLoop] at found
    split at found
    next room =>
      dsimp only at found
      split at found
      next final => exact ⟨[byte], bytes, rfl, .last ((high_bit byte.toNat_lt).mp final), by simp; omega⟩
      next goes =>
        rw [show 7 * count + 7 = 7 * (count + 1) by omega] at found
        obtain ⟨one, rest, rfl, groups, short⟩ := ih (count + 1) found
        rw [high_bit byte.toNat_lt] at goes
        exact ⟨byte :: one, rest, rfl, .more (by omega) groups, by simp; omega⟩
    next => cases found

theorem readVarint_groups {bytes : List UInt8} (groups : Groups bytes) (short : bytes.length ≤ 10) (rest : List UInt8) :
    readVarint (bytes ++ rest) = some (groupsValue bytes % wordSize, bytes.length) := by
  have read := @readVarintLoop_groups _ groups rest 0 0 0 (by decide) (by omega)
  simpa [readVarint] using read

theorem groups_of_readVarint {bytes : List UInt8} {value total : Nat} (found : readVarint bytes = some (value, total)) :
    ∃ one rest, bytes = one ++ rest ∧ Groups one ∧ one.length ≤ 10 := by
  obtain ⟨one, rest, split, groups, short⟩ := groups_of_readVarintLoop 0 found
  exact ⟨one, rest, split, groups, by omega⟩

private theorem popCompact_groups {os : Octetsstream} {bytes rest : List UInt8} (content : os.unread = bytes ++ rest)
    (groups : Groups bytes) (short : bytes.length ≤ 10) :
    popCompact os = .ok (groupsValue bytes % wordSize) { os with pos := os.pos + bytes.length } := by
  simp only [popCompact, content, readVarint_groups groups short]

/-- What is left of the number in a destination of `w` bits. -/
private theorem readsExactly_iff {w : Nat} (narrow : w ≤ 64) (os : Octetsstream) :
    ReadsExactly (do return BitVec.ofNat w (← popCompact)) os ↔ SpelledBelow w os := by
  have cut (number : Nat) : (BitVec.ofNat w (number % wordSize)).toNat = number % 2 ^ w := by
    rw [BitVec.toNat_ofNat, wordSize]
    exact Nat.mod_mod_of_dvd number (Nat.pow_dvd_pow 2 narrow)
  constructor
  · intro precise bytes rest content groups short
    rw [ReadsExactly, run_bind (popCompact_groups content groups short)] at precise
    obtain ⟨bytes', rest', content', groups', -, value⟩ := precise
    obtain rfl := groups_unique groups groups' (content.symm.trans content')
    rw [cut] at value
    rw [← value]
    exact Nat.mod_lt _ (Nat.two_pow_pos w)
  · intro below
    cases found : readVarint os.unread with
    | none =>
      have thrown : popCompact os = .error (.exception "varint decode failed") os := by simp only [popCompact, found]
      rw [ReadsExactly, run_bind_error thrown]
      trivial
    | some read =>
      obtain ⟨bytes, rest, content, groups, short⟩ := groups_of_readVarint found
      rw [ReadsExactly, run_bind (popCompact_groups content groups short)]
      refine ⟨bytes, rest, content, groups, rfl, ?_⟩
      rw [cut, Nat.mod_eq_of_lt (below bytes rest content groups short)]

/-- An integer is read exactly when the number at the cursor fits into its width. -/
theorem integers_exact_iff (os : Octetsstream) :
    (ReadsExactly popCompactu16 os ↔ SpelledBelow 16 os) ∧ (ReadsExactly popCompactu32 os ↔ SpelledBelow 32 os) ∧
      (ReadsExactly popCompactu64 os ↔ SpelledBelow 64 os) :=
  ⟨readsExactly_iff (by decide) os, readsExactly_iff (by decide) os, readsExactly_iff (by decide) os⟩

/-- The varint of 65536. -/
def wideVarint : Octetsstream := ⟨⟨[0x80, 0x80, 0x04], 3⟩, 0, 0⟩

theorem wideVarint_truncated : wideVarint.data.Valid ∧ ¬ ReadsExactly popCompactu16 wideVarint := by
  have groups : Groups [0x80, 0x80, 0x04] := .more (by decide) (.more (by decide) (.last (by decide)))
  have content : wideVarint.unread = [0x80, 0x80, 0x04] ++ [] := rfl
  refine ⟨Nat.le_refl 3, fun precise => ?_⟩
  rw [ReadsExactly, popCompactu16, run_bind (popCompact_groups content groups (by decide))] at precise
  obtain ⟨bytes, rest, content', groups', -, value⟩ := precise
  obtain rfl := groups_unique groups groups' (content.symm.trans content')
  exact absurd value (by decide)

end Proofs
end Cassobee
