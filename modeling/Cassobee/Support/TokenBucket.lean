import Mathlib.Algebra.GroupWithZero.Nat

/-! A bucket that fills at a rate up to its capacity. What is taken from it within a window of time is bounded. -/

namespace Cassobee.Support

/-- The amounts are taken one after another, the first from a bucket that had this level at that time. A bucket may
lose what it could have kept. -/
inductive Spends (capacity rate : Nat) : Int → Nat → List (Int × Nat) → Prop where
  | nil {last : Int} {level : Nat} : Spends capacity rate last level []
  | cons {last now : Int} {level left amount : Nat} {spent : List (Int × Nat)} (later : last ≤ now)
      (room : left + amount ≤ min capacity (level + (now - last).toNat * rate)) (rest : Spends capacity rate now left spent) :
      Spends capacity rate last level ((now, amount) :: spent)

def spentIn (first last : Int) (spent : List (Int × Nat)) : Nat :=
  ((spent.filter fun item => first ≤ item.1 ∧ item.1 ≤ last).map Prod.snd).sum

namespace Spends
variable {capacity rate level : Nat} {last first final : Int} {spent : List (Int × Nat)}

theorem after_window (spends : Spends capacity rate last level spent) (first : Int) (past : final < last) :
    spentIn first final spent = 0 := by
  induction spends with
  | nil => rfl
  | cons later _ _ ih =>
    have passed := ih (by omega)
    rw [spentIn, List.filter_cons_of_neg (by simp; omega)]
    exact passed

theorem within_window (spends : Spends capacity rate last level spent) (first : Int) (inside : last ≤ final) :
    spentIn first final spent ≤ level + (final - last).toNat * rate := by
  induction spends with
  | nil => simp [spentIn]
  | @cons last now level left amount spent later room rest ih =>
    by_cases past : final < now
    · have nothing := rest.after_window first past
      rw [spentIn, List.filter_cons_of_neg (by simp; omega)]
      rw [spentIn] at nothing
      omega
    · have tail := ih (by omega)
      have filled : (now - last).toNat * rate + (final - now).toNat * rate = (final - last).toNat * rate := by
        rw [← Nat.add_mul]
        congr 1
        omega
      have bound : amount + spentIn first final spent ≤ level + (final - last).toNat * rate := by omega
      rw [spentIn] at bound ⊢
      rw [List.filter_cons]
      split
      · rwa [List.map_cons, List.sum_cons]
      · omega

theorem bounded (spends : Spends capacity rate last level spent) (fits : level ≤ capacity) :
    spentIn first final spent ≤ capacity + (final - first).toNat * rate := by
  induction spends with
  | nil => simp [spentIn]
  | @cons last now level left amount spent later room rest ih =>
    have tail := ih (by omega)
    rw [spentIn] at tail ⊢
    rw [List.filter_cons]
    split
    next inside =>
      simp only [decide_eq_true_eq] at inside
      have behind := rest.within_window first inside.2
      have shorter : (final - now).toNat * rate ≤ (final - first).toNat * rate := Nat.mul_le_mul_right _ (by omega)
      rw [spentIn] at behind
      rw [List.map_cons, List.sum_cons]
      omega
    next => exact tail

end Spends
end Cassobee.Support
