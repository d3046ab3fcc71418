import Mathlib.Data.List.Nodup
import Mathlib.Data.List.Perm.Basic
import Mathlib.Logic.Function.Basic

/-! Lists that share no element: every element is in one list at most, and there once. -/

namespace Cassobee.Support

variable {ι ν : Type}

structure Apart (contents : ι → List ν) : Prop where
  nodup (i : ι) : (contents i).Nodup
  only {i j : ι} {a : ν} (one : a ∈ contents i) (two : a ∈ contents j) : i = j

namespace Apart
variable [DecidableEq ι] [DecidableEq ν] {contents contents' : ι → List ν} {a : ν} {source target : ι}

/-- What is where after one element has changed its list. -/
theorem mem_moved (apart : Apart contents) (here : a ∈ contents source)
    (left : contents' source = (contents source).erase a) (arrived : (contents' target).Perm (a :: contents target))
    (rest : ∀ i, i ≠ source → i ≠ target → contents' i = contents i) {i : ι} {b : ν} :
    b ∈ contents' i ↔ b ≠ a ∧ b ∈ contents i ∨ b = a ∧ i = target := by
  have elsewhere {j : ι} (different : j ≠ source) : a ∉ contents j := fun there => different (apart.only there here)
  by_cases atTarget : i = target
  · subst atTarget
    rw [arrived.mem_iff, List.mem_cons]
    by_cases same : b = a
    · simp [same]
    · simp [same]
  · by_cases atSource : i = source
    · subst atSource
      rw [left, (apart.nodup i).mem_erase_iff]
      simp [atTarget]
    · rw [rest i atSource atTarget]
      simp only [atTarget, and_false, or_false, iff_and_self]
      rintro member rfl
      exact elsewhere atSource member

theorem move (apart : Apart contents) (here : a ∈ contents source) (different : source ≠ target)
    (left : contents' source = (contents source).erase a) (arrived : (contents' target).Perm (a :: contents target))
    (rest : ∀ i, i ≠ source → i ≠ target → contents' i = contents i) : Apart contents' := by
  refine ⟨?_, ?_⟩
  · intro i
    by_cases atTarget : i = target
    · subst atTarget
      rw [arrived.nodup_iff, List.nodup_cons]
      exact ⟨fun there => different (apart.only here there), apart.nodup i⟩
    · by_cases atSource : i = source
      · subst atSource
        rw [left]
        exact (apart.nodup i).erase a
      · rw [rest i atSource atTarget]
        exact apart.nodup i
  · intro i j b one two
    rcases (apart.mem_moved here left arrived rest).mp one with ⟨other, before⟩ | ⟨same, there⟩
    · rcases (apart.mem_moved here left arrived rest).mp two with ⟨-, before'⟩ | ⟨same, -⟩
      · exact apart.only before before'
      · exact absurd same other
    · rcases (apart.mem_moved here left arrived rest).mp two with ⟨other, -⟩ | ⟨-, there'⟩
      · exact absurd same other
      · rw [there, there']

omit [DecidableEq ν] in
theorem mem_added (arrived : (contents' target).Perm (a :: contents target))
    (rest : ∀ i, i ≠ target → contents' i = contents i) {i : ι} {b : ν} :
    b ∈ contents' i ↔ b ∈ contents i ∨ b = a ∧ i = target := by
  by_cases here : i = target
  · subst here
    rw [arrived.mem_iff, List.mem_cons]
    simp [or_comm]
  · simp [rest i here, here]

omit [DecidableEq ν] in
/-- A new element. -/
theorem add (apart : Apart contents) (fresh : ∀ i, a ∉ contents i) (arrived : (contents' target).Perm (a :: contents target))
    (rest : ∀ i, i ≠ target → contents' i = contents i) : Apart contents' := by
  refine ⟨fun i => ?_, fun {i j b} one two => ?_⟩
  · by_cases here : i = target
    · subst here
      rw [arrived.nodup_iff, List.nodup_cons]
      exact ⟨fresh i, apart.nodup i⟩
    · rw [rest i here]
      exact apart.nodup i
  · rcases (mem_added arrived rest).mp one with old | ⟨rfl, rfl⟩
    · rcases (mem_added arrived rest).mp two with old' | ⟨rfl, -⟩
      · exact apart.only old old'
      · exact absurd old (fresh i)
    · rcases (mem_added arrived rest).mp two with old' | ⟨-, rfl⟩
      · exact absurd old' (fresh j)
      · rfl

end Apart
end Cassobee.Support
