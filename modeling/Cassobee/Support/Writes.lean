import Mathlib.Logic.Function.Basic
import Mathlib.Data.List.Basic

/-! A list of writes to a map, of which the last one to each key counts. -/

namespace Cassobee.Support

variable {κ ν : Type} [DecidableEq κ] {ones twos : List (κ × ν)} {key : κ}

def assignAll (writes : List (κ × ν)) (map : κ → Option ν) : κ → Option ν :=
  writes.foldl (fun map write => Function.update map write.1 (some write.2)) map

/-- Of two lists of writes to the same keys, the last ones to each key are the same. -/
def LastAgree : List (κ × ν) → List (κ × ν) → Prop
  | (key, one) :: ones, (_, two) :: twos => (key ∉ ones.map Prod.fst → one = two) ∧ LastAgree ones twos
  | _, _ => True

theorem assignAll_of_not_mem (absent : key ∉ ones.map Prod.fst) (map : κ → Option ν) :
    assignAll ones map key = map key := by
  induction ones generalizing map with
  | nil => rfl
  | cons write ones ih =>
    obtain ⟨other, later⟩ : key ≠ write.1 ∧ key ∉ ones.map Prod.fst := by
      simpa only [List.map_cons, List.mem_cons, not_or] using absent
    exact (ih later _).trans (Function.update_of_ne other ..)

theorem assignAll_of_mem (member : key ∈ ones.map Prod.fst) (map map' : κ → Option ν) :
    assignAll ones map key = assignAll ones map' key := by
  induction ones generalizing map map' with
  | nil => simp at member
  | cons write ones ih =>
    by_cases later : key ∈ ones.map Prod.fst
    · exact ih later _ _
    · obtain rfl : key = write.1 := by
        rw [List.map_cons, List.mem_cons] at member
        exact member.resolve_right later
      calc assignAll ones (Function.update map write.1 (some write.2)) write.1
        _ = some write.2 := by rw [assignAll_of_not_mem later, Function.update_self]
        _ = assignAll ones (Function.update map' write.1 (some write.2)) write.1 := by
          rw [assignAll_of_not_mem later, Function.update_self]

theorem assignAll_eq_iff (keys : ones.map Prod.fst = twos.map Prod.fst) (map : κ → Option ν) :
    assignAll ones map = assignAll twos map ↔ LastAgree ones twos := by
  induction ones generalizing twos map with
  | nil =>
    obtain rfl : twos = [] := by simpa using keys.symm
    simp [LastAgree]
  | cons write ones ih =>
    obtain ⟨key, one⟩ := write
    obtain _ | ⟨⟨other, two⟩, twos⟩ := twos
    · simp at keys
    obtain ⟨rfl, later⟩ : key = other ∧ ones.map Prod.fst = twos.map Prod.fst := by simpa using keys
    rw [LastAgree, ← ih later (Function.update map key (some one))]
    constructor
    · intro same
      have apart (k : κ) := congrFun same k
      refine ⟨fun absent => ?_, funext fun k => ?_⟩
      · have here := apart key
        simp only [assignAll, List.foldl_cons] at here
        have last := (assignAll_of_not_mem absent _).symm.trans (here.trans (assignAll_of_not_mem (later ▸ absent) _))
        simpa using last
      · by_cases member : k ∈ ones.map Prod.fst
        · exact (apart k).trans (assignAll_of_mem (later ▸ member) _ _)
        · rw [assignAll_of_not_mem member, assignAll_of_not_mem (later ▸ member)]
    · rintro ⟨last, same⟩
      refine same.trans (funext fun k => ?_)
      by_cases member : k ∈ twos.map Prod.fst
      · exact assignAll_of_mem member _ _
      · change _ = assignAll twos (Function.update map key (some two)) k
        rw [assignAll_of_not_mem member, assignAll_of_not_mem member]
        by_cases here : k = key
        · subst here
          rw [last (later ▸ member)]
        · rw [Function.update_of_ne here, Function.update_of_ne here]

end Cassobee.Support
