import Mathlib.Algebra.Group.Nat.Defs
import Mathlib.Data.Nat.Size
import Mathlib.Order.Bounds.Basic
import Mathlib.Order.MinMax

/-! Rounding up to a power of two by spreading the highest bit over all places below it. -/

namespace Cassobee.Support

/-- A place of the word is set where the value has a bit at it, or less than `reach` places above it. -/
def Smeared (value reach word : Nat) : Prop :=
  ∀ place, word.testBit place = true ↔ ∃ source, place ≤ source ∧ source < place + reach ∧ value.testBit source = true

variable {value reach word : Nat}

theorem smeared_self (value : Nat) : Smeared value 1 value := by
  intro place
  constructor
  · exact fun set => ⟨place, Nat.le_refl _, Nat.lt_succ_self _, set⟩
  · intro ⟨source, above, below, set⟩
    obtain rfl : source = place := by omega
    exact set

/-- Another copy, by no more places than the bits reach already. -/
theorem Smeared.or_shift (smeared : Smeared value reach word) {shift : Nat} (within : shift ≤ reach) :
    Smeared value (reach + shift) (word ||| (word >>> shift)) := by
  intro place
  rw [Nat.testBit_or, Nat.testBit_shiftRight, Bool.or_eq_true, smeared place, smeared (shift + place)]
  constructor
  · intro either
    obtain ⟨source, above, below, set⟩ | ⟨source, above, below, set⟩ := either
    · exact ⟨source, above, by omega, set⟩
    · exact ⟨source, by omega, by omega, set⟩
  · intro ⟨source, above, below, set⟩
    by_cases near : source < place + reach
    · exact .inl ⟨source, above, near, set⟩
    · exact .inr ⟨source, by omega, by omega, set⟩

theorem exists_bit_iff (value place : Nat) : (∃ source, place ≤ source ∧ value.testBit source = true) ↔ place < value.size := by
  rw [Nat.lt_size]
  constructor
  · intro ⟨source, above, set⟩
    exact (Nat.pow_le_pow_right Nat.two_pos above).trans (Nat.ge_two_pow_of_testBit set)
  · intro large
    obtain ⟨source, above, set⟩ := Nat.exists_ge_and_testBit_of_ge_two_pow large
    exact ⟨source, above, set⟩

/-- Once the bits reach over the whole value, the word is one less than a power of two. -/
theorem Smeared.add_one (smeared : Smeared value reach word) (covers : value < 2 ^ reach) : word + 1 = 2 ^ value.size := by
  have filled : word = 2 ^ value.size - 1 := by
    apply Nat.eq_of_testBit_eq
    intro place
    rw [Nat.testBit_two_pow_sub_one, Bool.eq_iff_iff, decide_eq_true_iff, smeared place, ← exists_bit_iff]
    constructor
    · exact fun ⟨source, above, _, set⟩ => ⟨source, above, set⟩
    · intro ⟨source, above, set⟩
      have inside : source < reach := by
        apply (Nat.pow_lt_pow_iff_right Nat.one_lt_two).1
        exact Nat.lt_of_le_of_lt (Nat.ge_two_pow_of_testBit set) covers
      exact ⟨source, above, by omega, set⟩
  rw [filled, Nat.sub_add_cancel (Nat.two_pow_pos _)]

theorem isLeast_two_pow_size {bound : Nat} (positive : 0 < bound) :
    IsLeast {power : Nat | power.isPowerOfTwo ∧ bound ≤ power} (2 ^ (bound - 1).size) := by
  have below (place : Nat) : bound ≤ 2 ^ place ↔ (bound - 1).size ≤ place := by
    rw [Nat.size_le]
    omega
  constructor
  · exact ⟨⟨_, rfl⟩, (below _).2 (Nat.le_refl _)⟩
  · intro power ⟨⟨place, same⟩, above⟩
    rw [same] at above ⊢
    exact Nat.pow_le_pow_right Nat.two_pos ((below place).1 above)

/-- The least one above two bounds is the larger one of the least ones. -/
theorem isLeast_max {α : Type} [LinearOrder α] {holds : α → Prop} {one two first second : α}
    (least : IsLeast {item | holds item ∧ one ≤ item} first) (least' : IsLeast {item | holds item ∧ two ≤ item} second) :
    IsLeast {item | holds item ∧ max one two ≤ item} (max first second) := by
  obtain ⟨⟨holds₁, above₁⟩, lowest₁⟩ := least
  obtain ⟨⟨holds₂, above₂⟩, lowest₂⟩ := least'
  constructor
  · refine ⟨?_, max_le_max above₁ above₂⟩
    cases max_choice first second with
    | inl same => rwa [same]
    | inr same => rwa [same]
  · intro item ⟨has, above⟩
    exact max_le (lowest₁ ⟨has, (le_max_left ..).trans above⟩) (lowest₂ ⟨has, (le_max_right ..).trans above⟩)

end Cassobee.Support
