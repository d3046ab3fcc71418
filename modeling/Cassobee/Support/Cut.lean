import Mathlib.Data.List.Basic

/-! Cutting a list at the first element with a property. -/

namespace Cassobee.Support

variable {α : Type} {p : α → Bool}

/-- The property is met for the first time at `a`. -/
theorem findIdx?_of_first {before after : List α} {a : α} (clean : ∀ b ∈ before, p b = false) (hit : p a) :
    (before ++ a :: after).findIdx? p = some before.length := by
  rw [List.findIdx?_append, List.findIdx?_eq_none_iff.2 clean, List.findIdx?_cons, if_pos hit]
  simp

theorem cut_first (p : α → Bool) (list : List α) :
    (∀ a ∈ list, p a = false) ∨
      ∃ before a after, list = before ++ a :: after ∧ (∀ b ∈ before, p b = false) ∧ p a := by
  induction list with
  | nil => exact .inl (by simp)
  | cons a list ih =>
    cases hit : p a with
    | true => exact .inr ⟨[], a, list, rfl, by simp, hit⟩
    | false =>
      obtain clean | ⟨before, b, after, rfl, clean, first⟩ := ih
      · exact .inl (by simpa [hit] using clean)
      · exact .inr ⟨a :: before, b, after, rfl, by simpa [hit] using clean, first⟩

/-- There is one way to cut at the first hit. -/
theorem cut_unique {before before' after after' : List α} {a a' : α} (clean : ∀ b ∈ before, p b = false)
    (clean' : ∀ b ∈ before', p b = false) (hit : p a) (hit' : p a') (same : before ++ a :: after = before' ++ a' :: after') :
    before = before' ∧ a = a' ∧ after = after' := by
  have length : some before.length = some before'.length := by
    rw [← findIdx?_of_first clean hit, same, findIdx?_of_first clean' hit']
  obtain ⟨first, rest⟩ := List.append_inj same (Option.some.inj length)
  exact ⟨first, List.cons.inj rest⟩

end Cassobee.Support
