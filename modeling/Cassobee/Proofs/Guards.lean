import Cassobee.Proofs.Grammar

/-! The guards of the pops that read their length from the stream. `_pos + size` and the product before
it are sums and products of `size_t`, and `reserve` speaks first where a container has it. -/

namespace Cassobee.Proofs
open Octetsstream

variable {α : Type}

/-- Of `total` bytes behind the length, all are taken or none: the bytes are there, or the call throws
what the guard throws. -/
def TakesWhole (total : Nat) (value : α) (result : EStateM.Result Thrown Octetsstream α) (after : Octetsstream) : Prop :=
  if total > after.size - after.pos then
    result = .error (.exception "no enough data!!!") after
  else
    result = .ok value { after with pos := after.pos + total } ∧ after.pos + total ≤ after.size

/-- `pop(octets)`, for whatever length it reads. -/
def OctetsGuarded (destination : List UInt8) (os : Octetsstream) : Prop :=
  ∀ n after, popSize os = .ok n after → TakesWhole n (destination ++ after.unread.take n) (popOctets destination os) after

/-- `pop_container` of plain data stored contiguously. -/
def ContiguousGuarded (kind : Contiguous α) (os : Octetsstream) : Prop :=
  ∀ n after, popSize os = .ok n after →
    TakesWhole (n * kind.scalar.pod.size)
      (splitElements kind.scalar.pod n (after.unread.take (n * kind.scalar.pod.size))) (popContiguous kind os) after

theorem popSize_ok {os after : Octetsstream} {n : Nat} (valid : os.data.Valid) (inside : os.pos ≤ os.size)
    (popped : popSize os = .ok n after) :
    after.data = os.data ∧ after.transpos = os.transpos ∧ os.pos ≤ after.pos ∧ after.pos ≤ after.size := by
  cases found : readVarint os.unread with
  | none =>
    have thrown : popCompact os = .error (.exception "varint decode failed") os := by simp only [popCompact, found]
    rw [popSize, popCompactu64, run_bind_error (run_bind_error thrown)] at popped
    cases popped
  | some read =>
    obtain ⟨value, count⟩ := read
    have returned : popCompact os = .ok value { os with pos := os.pos + count } := by simp only [popCompact, found]
    obtain ⟨one, rest, content, rfl, -⟩ := readVarint_splits found
    have word : popCompactu64 os = .ok (BitVec.ofNat 64 value) { os with pos := os.pos + one.length } := by
      rw [popCompactu64, run_bind returned]
      rfl
    rw [popSize, run_bind word] at popped
    cases popped
    exact ⟨rfl, rfl, Nat.le_add_right _ _, pos_behind valid inside content⟩

/-- A copy that stays inside the content copies what is unread. -/
theorem take_inside {os : Octetsstream} {len : Nat} (enough : os.pos + len ≤ os.size) :
    (os.data.buf.drop os.pos).take len = os.unread.take len := by
  simp only [Octetsstream.size] at enough
  rw [Octetsstream.unread, Octets.bytes, List.drop_take, List.take_take, Nat.min_eq_left (by omega)]

/-- A guard that takes the sum for a smaller one lets everything pass. -/
theorem wrapped_le {pos size total : Nat} (inside : pos ≤ size) (small : total < wordSize) (wraps : pos + total ≥ wordSize)
    (word : size < wordSize) : (pos + total) % wordSize ≤ size := by
  rw [Nat.mod_eq_sub_mod wraps, Nat.mod_eq_of_lt (by omega)]
  omega

theorem popAppend_guarded {after : Octetsstream} {n : Nat} (destination : List UInt8) (inside : after.pos ≤ after.size)
    (word : after.size < wordSize) (small : n < wordSize) :
    TakesWhole n (destination ++ after.unread.take n) (popAppend destination n after) after ↔ after.pos + n < wordSize := by
  rw [TakesWhole, popAppend, show after.data.len = after.size from rfl]
  by_cases wraps : after.pos + n ≥ wordSize
  · have passes := wrapped_le inside small wraps word
    rw [if_pos (show n > after.size - after.pos by omega), if_neg (Nat.not_lt.2 passes), if_pos wraps]
    refine iff_of_false (fun same => ?_) (Nat.not_lt.2 wraps)
    rw [appendBeyond] at same
    split at same <;> cases same
  · have sum : after.pos + n < wordSize := Nat.lt_of_not_le wraps
    refine iff_of_true ?_ sum
    rw [Nat.mod_eq_of_lt sum]
    by_cases short : n > after.size - after.pos
    · rw [if_pos short, if_pos (show after.pos + n > after.size by omega)]
    · have enough : after.pos + n ≤ after.size := by omega
      rw [if_neg short, if_neg (Nat.not_lt.2 enough), if_neg wraps, take_inside enough]
      exact ⟨rfl, enough⟩

/-- Where the sum wraps, bytes from beyond the content are copied. -/
theorem popRaw_wrapped {after : Octetsstream} {len : Nat} (inside : after.pos ≤ after.size) (word : after.size < wordSize)
    (small : len < wordSize) (wraps : after.pos + len ≥ wordSize) : ∃ value stopped, popRaw len after = .ok value stopped := by
  have passes : (after.pos + len) % wordSize ≤ after.data.len := wrapped_le inside small wraps word
  rw [popRaw, if_neg (Nat.not_lt.2 passes)]
  exact ⟨_, _, rfl⟩

theorem popRaw_guarded {after : Octetsstream} {len : Nat} (inside : after.pos ≤ after.size)
    (sum : after.pos + len < wordSize) : TakesWhole len (after.unread.take len) (popRaw len after) after := by
  rw [TakesWhole, popRaw, Nat.mod_eq_of_lt sum, show after.data.len = after.size from rfl]
  by_cases short : len > after.size - after.pos
  · rw [if_pos short, if_pos (show after.pos + len > after.size by omega)]
  · have enough : after.pos + len ≤ after.size := by omega
    rw [if_neg short, if_neg (Nat.not_lt.2 enough), take_inside enough]
    exact ⟨rfl, enough⟩

theorem size_word {os after : Octetsstream} {n : Nat} (popped : popSize os = .ok n after) : n < wordSize := by
  rw [popSize] at popped
  obtain ⟨value, stopped, -, found⟩ := ok_of_bind popped
  cases found
  exact value.isLt

theorem octetsGuarded_iff {os : Octetsstream} (valid : os.data.Valid) (inside : os.pos ≤ os.size) (word : os.size < wordSize)
    (destination : List UInt8) :
    OctetsGuarded destination os ↔ ∀ n after, popSize os = .ok n after → after.pos + n < wordSize := by
  refine forall_congr' fun n => forall_congr' fun after => forall_congr' fun popped => ?_
  obtain ⟨data, -, -, within⟩ := popSize_ok valid inside popped
  rw [popOctets, run_bind popped]
  refine popAppend_guarded destination within ?_ (size_word popped)
  simp only [Octetsstream.size] at word ⊢
  rwa [data]

theorem contiguousGuarded_iff {os : Octetsstream} (valid : os.data.Valid) (inside : os.pos ≤ os.size)
    (word : os.size < wordSize) (kind : Contiguous α) :
    ContiguousGuarded kind os ↔ ∀ n after, popSize os = .ok n after →
      n ≤ kind.maxSize.room ∧ after.pos + n * kind.scalar.pod.size < wordSize := by
  refine forall_congr' fun n => forall_congr' fun after => forall_congr' fun popped => ?_
  obtain ⟨data, -, -, within⟩ := popSize_ok valid inside popped
  rw [popContiguous, run_bind popped]
  by_cases large : n > kind.maxSize.room
  · -- `reserve` throws before the guard is reached
    obtain ⟨thrown, either, refused⟩ := reserve_refuses ⟨rfl, large⟩
    rw [refused]
    refine iff_of_false (fun guarded => ?_) fun condition => Nat.not_le.2 large condition.1
    rw [TakesWhole] at guarded
    split at guarded
    next => rcases either with rfl | rfl <;> cases guarded
    next => cases guarded.1
  · have fits : n ≤ kind.maxSize.room := Nat.le_of_not_lt large
    have bytes := kind.bytes_lt fits
    have small : n * kind.scalar.pod.size < wordSize := Nat.lt_trans bytes (by decide)
    have bound : after.size < wordSize := by
      simp only [Octetsstream.size] at word ⊢
      rwa [data]
    rw [reserve_accepts fun refused => large refused.2, pure_bind]
    simp only [Nat.mod_eq_of_lt small]
    constructor
    · intro guarded
      refine ⟨fits, Nat.lt_of_not_le fun wraps => ?_⟩
      obtain ⟨value, stopped, copied⟩ := popRaw_wrapped within bound small wraps
      rw [run_bind copied, TakesWhole, if_pos (show _ > _ by omega)] at guarded
      cases guarded
    · rintro ⟨-, sum⟩
      have raw := popRaw_guarded within sum
      rw [TakesWhole] at raw ⊢
      split at raw
      next short => rw [if_pos short, run_bind_error raw]
      next enough =>
        rw [if_neg enough, run_bind raw.1]
        exact ⟨rfl, raw.2⟩

/-- The guard of `pop(octets)` is right exactly where its sum does not wrap; that of a contiguous
container, where `reserve` also accepts the length. -/
theorem guards_hold_iff {os : Octetsstream} (valid : os.data.Valid) (inside : os.pos ≤ os.size) (word : os.size < wordSize) :
    (∀ destination, OctetsGuarded destination os ↔ ∀ n after, popSize os = .ok n after → after.pos + n < wordSize) ∧
      ∀ {α : Type} (kind : Contiguous α), ContiguousGuarded kind os ↔ ∀ n after, popSize os = .ok n after →
        n ≤ kind.maxSize.room ∧ after.pos + n * kind.scalar.pod.size < wordSize :=
  ⟨octetsGuarded_iff valid inside word, contiguousGuarded_iff valid inside word⟩

/-- Two octets behind their length. -/
def twoOctets : Octetsstream := ⟨⟨[2, 7, 9], 3⟩, 0, 0⟩

/-- `std::string`. -/
def shortString : Contiguous UInt8 := ⟨.raw Pod.byte, .thousand, by decide⟩

theorem guards_hold_of_two : OctetsGuarded [] twoOctets ∧ ContiguousGuarded shortString twoOctets := by
  have popped : popSize twoOctets = .ok 2 { twoOctets with pos := 1 } := rfl
  have same {n : Nat} {after : Octetsstream} (read : popSize twoOctets = .ok n after) :
      n = 2 ∧ after = { twoOctets with pos := 1 } := by
    rw [popped] at read
    cases read
    exact ⟨rfl, rfl⟩
  obtain ⟨octets, contiguous⟩ := @guards_hold_iff twoOctets (Nat.le_refl 3) (by decide) (by decide)
  constructor
  · refine (octets []).2 fun n after read => ?_
    obtain ⟨rfl, rfl⟩ := same read
    decide
  · refine (contiguous shortString).2 fun n after read => ?_
    obtain ⟨rfl, rfl⟩ := same read
    decide

/-- A length of `2 ^ 64 - 1`, and nothing behind it. -/
def hugeLength : Octetsstream := ⟨⟨List.replicate 9 0xFF ++ [1], 10⟩, 0, 0⟩

theorem hugeLength_passes_guard :
    hugeLength.data.Valid ∧ hugeLength.pos ≤ hugeLength.size ∧ hugeLength.size < wordSize ∧ ¬ OctetsGuarded [] hugeLength := by
  have popped : popSize hugeLength = .ok (2 ^ 64 - 1) { hugeLength with pos := 10 } := rfl
  have valid : hugeLength.data.Valid := Nat.le_refl 10
  refine ⟨valid, by decide, by decide, fun guarded => ?_⟩
  have fits := (octetsGuarded_iff valid (by decide) (by decide) []).1 guarded _ _ popped
  exact absurd fits (by decide)

end Cassobee.Proofs
