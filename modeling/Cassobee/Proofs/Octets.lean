import Cassobee.Octets
import Cassobee.Proofs.Varint
import Cassobee.Support.Smear

/-! The buffer operations read as operations on the byte list that the buffer holds. Lengths stay
at most `2 ^ 63`, which is where `frob_size` gives up. -/

namespace Cassobee.Proofs
open Support Octets

/-- The shifts spread the highest bit over the whole word. -/
theorem frobSize_eq {n : Nat} (positive : 0 < n) (bound : n ≤ 2 ^ 63) : frobSize n = .ok (max (2 ^ (n - 1).size) 16) := by
  have two := (smeared_self (n - 1)).or_shift (Nat.le_refl 1)
  have four := two.or_shift (Nat.le_refl 2)
  have eight := four.or_shift (Nat.le_refl 4)
  have sixteen := eight.or_shift (Nat.le_refl 8)
  have half := sixteen.or_shift (Nat.le_refl 16)
  have whole := half.or_shift (Nat.le_refl 32)
  have covers : n - 1 < 2 ^ 64 := by omega
  have power := whole.add_one covers
  rw [frobSize, if_neg (Nat.not_lt.2 bound), if_neg (Nat.ne_of_gt positive)]
  dsimp only
  rw [power]
  refine congrArg Except.ok ?_
  split <;> omega

theorem frobSize_ok {n : Nat} (bound : n ≤ 2 ^ 63) : ∃ size, frobSize n = .ok size ∧ n ≤ size := by
  by_cases nothing : n = 0
  · exact ⟨1, by rw [nothing]; rfl, by omega⟩
  · have positive : 0 < n := Nat.pos_of_ne_zero nothing
    have above := (isLeast_two_pow_size positive).1.2
    exact ⟨_, frobSize_eq positive bound, Nat.le_trans above (Nat.le_max_left ..)⟩

theorem frobSize_le {n size : Nat} (found : frobSize n = .ok size) : size ≤ 2 ^ 63 := by
  by_cases bound : n ≤ 2 ^ 63
  · by_cases nothing : n = 0
    · rw [nothing] at found
      cases found
      decide
    · have positive : 0 < n := Nat.pos_of_ne_zero nothing
      rw [frobSize_eq positive bound] at found
      cases found
      have few : (n - 1).size ≤ 63 := Nat.size_le.2 (by omega)
      exact Nat.max_le.2 ⟨Nat.pow_le_pow_right Nat.two_pos few, by decide⟩
  · rw [frobSize, if_pos (Nat.lt_of_not_le bound)] at found
    cases found

theorem le_of_frobSize {n size : Nat} (found : frobSize n = .ok size) : n ≤ size := by
  by_cases bound : n ≤ 2 ^ 63
  · obtain ⟨size', found', large⟩ := frobSize_ok bound
    rw [found] at found'
    cases found'
    exact large
  · rw [frobSize, if_pos (Nat.lt_of_not_le bound)] at found
    cases found

private theorem or_shift_toNat {word : UInt64} {value : Nat} (same : word.toNat = value ∧ value < 2 ^ 63) (shift : UInt64)
    (small : shift.toNat < 64) : (word ||| (word >>> shift)).toNat = value ||| (value >>> shift.toNat) ∧
      value ||| (value >>> shift.toNat) < 2 ^ 63 := by
  obtain ⟨rfl, below⟩ := same
  constructor
  · rw [UInt64.toNat_or, UInt64.toNat_shiftRight, Nat.mod_eq_of_lt small]
  · exact Nat.or_lt_two_pow below (Nat.lt_of_le_of_lt (Nat.shiftRight_le ..) below)

private theorem increment_toNat {word : UInt64} {value : Nat} (same : word.toNat = value ∧ value < 2 ^ 63) :
    (if word + 1 < 16 then 16 else word + 1).toNat = if value + 1 < 16 then 16 else value + 1 := by
  obtain ⟨rfl, below⟩ := same
  have next : (word + 1).toNat = word.toNat + 1 := by
    rw [UInt64.toNat_add, UInt64.toNat_one]
    omega
  have less : word + 1 < 16 ↔ word.toNat + 1 < 16 := by
    rw [UInt64.lt_iff_toNat_lt, next]
    rfl
  by_cases small : word.toNat + 1 < 16
  · rw [if_pos small, if_pos (less.2 small)]
    rfl
  · rw [if_neg small, if_neg fun below => small (less.1 below), next]

/-- No step of the computation wraps. -/
theorem frobSize64_eq (n : UInt64) : (frobSize64 n).map UInt64.toNat = frobSize n.toNat := by
  have top : ((1 : UInt64) <<< 63).toNat = 2 ^ 63 := rfl
  rw [frobSize64, frobSize]
  by_cases large : 2 ^ 63 < n.toNat
  · rw [if_pos large, if_pos (UInt64.lt_iff_toNat_lt.2 (top ▸ large))]
    rfl
  · have bound : ¬ n > (1 : UInt64) <<< 63 := fun above => large (top ▸ UInt64.lt_iff_toNat_lt.1 above)
    rw [if_neg large, if_neg bound]
    by_cases nothing : n = 0
    · rw [nothing]
      rfl
    · have positive : n.toNat ≠ 0 := fun zero => nothing (UInt64.toNat_inj.1 zero)
      have one_le : 1 ≤ n := UInt64.le_iff_toNat_le.2 (Nat.one_le_iff_ne_zero.2 positive)
      have first : (n - 1).toNat = n.toNat - 1 ∧ n.toNat - 1 < 2 ^ 63 := ⟨UInt64.toNat_sub_of_le _ _ one_le, by omega⟩
      have two := or_shift_toNat first 1 (by decide)
      have four := or_shift_toNat two 2 (by decide)
      have eight := or_shift_toNat four 4 (by decide)
      have sixteen := or_shift_toNat eight 8 (by decide)
      have half := or_shift_toNat sixteen 16 (by decide)
      have whole := or_shift_toNat half 32 (by decide)
      rw [if_neg nothing, if_neg positive]
      exact congrArg Except.ok (increment_toNat whole)

private theorem frobSize64_throws (n : UInt64) : (∃ thrown, frobSize64 n = .error thrown) ↔ 2 ^ 63 < n.toNat := by
  have words := frobSize64_eq n
  constructor
  · intro ⟨thrown, refused⟩
    rw [refused] at words
    apply Nat.lt_of_not_le
    intro bound
    obtain ⟨size, found, -⟩ := frobSize_ok bound
    cases words.trans found
  · intro large
    rw [frobSize, if_pos large] at words
    cases found : frobSize64 n with
    | ok size =>
      rw [found] at words
      cases words
    | error thrown => exact ⟨thrown, rfl⟩

private theorem frobSize64_ok {n : UInt64} (positive : 0 < n.toNat) (bound : n.toNat ≤ 2 ^ 63) :
    ∃ size, frobSize64 n = .ok size ∧ size.toNat = max (2 ^ (n.toNat - 1).size) 16 := by
  have words := frobSize64_eq n
  rw [frobSize_eq positive bound] at words
  cases found : frobSize64 n with
  | error thrown =>
    rw [found] at words
    cases words
  | ok size =>
    rw [found] at words
    exact ⟨size, rfl, Except.ok.inj words⟩

@[simp] theorem length_bytes {oct : Octets} (valid : oct.Valid) : oct.bytes.length = oct.len := by
  simpa [Octets.bytes, Octets.Valid, Octets.cap] using valid

theorem new_valid : Octets.new.Valid := by simp [Octets.Valid, Octets.new, Octets.cap]

@[simp] theorem new_bytes : Octets.new.bytes = [] := by simp [Octets.bytes, Octets.new]

@[simp] theorem clear_bytes (oct : Octets) : oct.clear.bytes = [] := by simp [Octets.bytes, Octets.clear]

theorem overwrite_length {block data : List UInt8} {pos : Nat} (fits : pos + data.length ≤ block.length) :
    (overwrite block pos data).length = block.length := by
  simp only [overwrite, List.length_append, List.length_take, List.length_drop]
  omega

/-- A block that is overwritten behind its content keeps it and gains the new bytes. -/
theorem take_overwrite {block data : List UInt8} {pos : Nat} (fits : pos ≤ block.length) :
    (overwrite block pos data).take (pos + data.length) = block.take pos ++ data := by
  have first : (block.take pos ++ data).length = pos + data.length := by
    simp only [List.length_append, List.length_take]
    omega
  rw [overwrite, ← first, List.take_left]

private theorem create_spec {oct : Octets} (valid : oct.Valid) (size : Nat) :
    (create oct.buf oct.len size).Valid ∧ (create oct.buf oct.len size).bytes = oct.bytes ∧
      (create oct.buf oct.len size).len = oct.len ∧ size ≤ (create oct.buf oct.len size).cap := by
  have copied : (oct.buf.take oct.len).length = oct.len := length_bytes valid
  refine ⟨?_, ?_, rfl, ?_⟩
  · simp only [Octets.Valid, create, Octets.cap, List.length_append, copied, List.length_replicate]
    omega
  · simp only [Octets.bytes, create]
    conv_lhs => rw [← copied]
    rw [copied, List.take_append_of_le_length (Nat.le_of_eq copied.symm), List.take_take, Nat.min_self]
  · simp only [create, Octets.cap, List.length_append, copied, List.length_replicate]
    omega

theorem reserve_spec {oct : Octets} (valid : oct.Valid) {size : Nat} (bound : size ≤ 2 ^ 63) :
    ∃ grown, oct.reserve size = .ok grown ∧ grown.Valid ∧ grown.bytes = oct.bytes ∧ grown.len = oct.len ∧
      size ≤ grown.cap := by
  unfold Octets.reserve
  split
  · exact ⟨oct, rfl, valid, rfl, rfl, by assumption⟩
  · obtain ⟨total, found, enough⟩ := frobSize_ok bound
    obtain ⟨kept, same, length, large⟩ := create_spec valid total
    exact ⟨create oct.buf oct.len total, by simp [found, bind, Except.bind], kept, same, length, enough.trans large⟩

theorem reserve_of_fits {oct : Octets} {size : Nat} (fits : size ≤ oct.cap) : oct.reserve size = .ok oct :=
  if_pos fits

theorem reserve_ok {oct grown : Octets} {size : Nat} (valid : oct.Valid) (block : oct.cap ≤ 2 ^ 63)
    (reserved : oct.reserve size = .ok grown) :
    grown.Valid ∧ grown.len = oct.len ∧ grown.cap ≤ 2 ^ 63 ∧ size ≤ grown.cap := by
  unfold Octets.reserve at reserved
  split at reserved
  next large =>
    cases reserved
    exact ⟨valid, rfl, block, large⟩
  next =>
    cases found : frobSize size with
    | error thrown => simp [found, bind, Except.bind] at reserved
    | ok total =>
      simp only [found, bind, Except.bind, Except.ok.injEq] at reserved
      subst reserved
      have small := frobSize_le found
      have copied : (oct.buf.take oct.len).length = oct.len := length_bytes valid
      obtain ⟨kept, -, length, large⟩ := create_spec valid total
      refine ⟨kept, length, ?_, Nat.le_trans (le_of_frobSize found) large⟩
      have fits : oct.len ≤ oct.cap := valid
      simp only [create, Octets.cap, List.length_append, copied, List.length_replicate] at fits block ⊢
      omega

/-- A fresh buffer after `reserve`. -/
theorem reserve_new {size : Nat} {oct : Octets} (reserved : Octets.new.reserve size = .ok oct) :
    oct.Valid ∧ oct.len = 0 ∧ oct.cap ≤ 2 ^ 63 ∧ size ≤ oct.cap :=
  reserve_ok new_valid (by decide) reserved

/-- Appending adds the bytes at the end. -/
theorem append_spec {oct : Octets} (valid : oct.Valid) {data : List UInt8} (bound : oct.len + data.length ≤ 2 ^ 63) :
    ∃ grown, oct.append data = .ok grown ∧ grown.Valid ∧ grown.bytes = oct.bytes ++ data ∧
      grown.len = oct.len + data.length := by
  unfold Octets.append
  split
  next nothing =>
    rw [List.length_eq_zero_iff.mp nothing]
    exact ⟨oct, rfl, valid, by simp, by simp⟩
  next =>
    rw [Nat.mod_eq_of_lt (by simp only [wordSize]; omega)]
    obtain ⟨grown, reserved, kept, same, length, room⟩ := reserve_spec valid bound
    refine ⟨⟨overwrite grown.buf grown.len data, grown.len + data.length⟩, ?_, ?_, ?_, by rw [length]⟩
    · simp [reserved, bind, Except.bind]
    · simp only [Octets.Valid, Octets.cap]
      rw [overwrite_length (by rw [length]; exact room), length]
      exact room
    · rw [← same]
      exact take_overwrite kept

theorem reserve_bytes {oct grown : Octets} {size : Nat} (valid : oct.Valid) (block : oct.cap ≤ 2 ^ 63)
    (reserved : oct.reserve size = .ok grown) : grown.bytes = oct.bytes := by
  obtain ⟨-, -, small, large⟩ := reserve_ok valid block reserved
  obtain ⟨other, same, -, bytes, -⟩ := reserve_spec valid (Nat.le_trans large small)
  cases reserved.symm.trans same
  exact bytes

/-- An append that does not fail, whatever the length is. -/
theorem append_ok {oct grown : Octets} (valid : oct.Valid) (block : oct.cap ≤ 2 ^ 63) {data : List UInt8}
    (bounded : data.length < 2 ^ 63) (appended : oct.append data = .ok grown) :
    grown.Valid ∧ grown.cap ≤ 2 ^ 63 ∧ grown.bytes = oct.bytes ++ data := by
  unfold Octets.append at appended
  split at appended
  next nothing =>
    cases appended
    exact ⟨valid, block, by simp [List.length_eq_zero_iff.mp nothing]⟩
  next =>
    have fits : oct.len ≤ oct.cap := valid
    rw [Nat.mod_eq_of_lt (by simp only [wordSize]; omega)] at appended
    cases reserved : oct.reserve (oct.len + data.length) with
    | error thrown => simp [reserved, bind, Except.bind] at appended
    | ok middle =>
      obtain ⟨kept, length, small, large⟩ := reserve_ok valid block reserved
      have size : (overwrite middle.buf oct.len data).length = middle.buf.length := overwrite_length large
      have content : oct.bytes = middle.buf.take oct.len := by
        rw [← reserve_bytes valid block reserved, Octets.bytes, length]
      simp only [reserved, bind, Except.bind, Except.ok.injEq] at appended
      subst appended
      refine ⟨?_, ?_, ?_⟩
      · simp only [Octets.Valid, Octets.cap, length, size]
        exact large
      · simp only [Octets.cap, length, size]
        exact small
      · rw [content]
        simp only [Octets.bytes, length]
        exact take_overwrite (Nat.le_trans (Nat.le_add_right ..) large)

/-- Within the capacity an append leaves the block where it is. -/
theorem append_of_fits {oct : Octets} (valid : oct.Valid) {data : List UInt8} (fits : oct.len + data.length ≤ oct.cap)
    (bound : oct.len + data.length < wordSize) :
    ∃ grown, oct.append data = .ok grown ∧ grown.Valid ∧ grown.bytes = oct.bytes ++ data ∧
      grown.len = oct.len + data.length ∧ grown.cap = oct.cap := by
  unfold Octets.append
  split
  next nothing =>
    rw [List.length_eq_zero_iff.mp nothing]
    exact ⟨oct, rfl, valid, by simp, by simp, rfl⟩
  next =>
    rw [Nat.mod_eq_of_lt bound, reserve_of_fits fits]
    have size : (overwrite oct.buf oct.len data).length = oct.buf.length := overwrite_length fits
    refine ⟨⟨overwrite oct.buf oct.len data, oct.len + data.length⟩, rfl, ?_, take_overwrite valid, rfl, size⟩
    simp only [Octets.Valid, Octets.cap, size]
    exact fits

/-- Erasing a prefix keeps the bytes behind it and the block. -/
theorem erase_front {oct : Octets} (valid : oct.Valid) {count : Nat} (inside : count ≤ oct.len) :
    (oct.erase 0 count).Valid ∧ (oct.erase 0 count).bytes = oct.bytes.drop count ∧
      (oct.erase 0 count).len = oct.len - count ∧ (oct.erase 0 count).cap = oct.cap := by
  have moved : ((oct.buf.drop count).take (oct.len - count)).length = oct.len - count := by
    simp only [Octets.Valid, Octets.cap] at valid
    simp only [List.length_take, List.length_drop]
    omega
  have size : (overwrite oct.buf 0 ((oct.buf.drop count).take (oct.len - count))).length = oct.buf.length := by
    apply overwrite_length
    simp only [Octets.Valid, Octets.cap] at valid
    omega
  simp only [Octets.erase, Nat.min_zero, Nat.sub_zero, Nat.min_eq_right inside, Nat.zero_add]
  refine ⟨?_, ?_, trivial, size⟩
  · simp only [Octets.Valid, Octets.cap, size] at valid ⊢
    omega
  · have kept : (overwrite oct.buf 0 ((oct.buf.drop count).take (oct.len - count))).take (0 + _) = _ :=
      take_overwrite (Nat.zero_le _)
    rw [Nat.zero_add, moved] at kept
    simp only [Octets.bytes, kept, List.take_zero, List.nil_append, List.drop_take]

end Cassobee.Proofs
