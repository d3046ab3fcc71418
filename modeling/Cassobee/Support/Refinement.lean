import Cassobee.Support.Run

/-! A machine that is run beside its abstraction, both with the same actions. -/

namespace Cassobee.Support

variable {σ τ α β : Type} (machine : σ → α → Option (β × σ)) (abstract : τ → α → β × τ)

/-- A step is not possible where the machine fails. -/
def beside (pair : σ × τ) (action : α) : Option (σ × τ) :=
  (machine pair.1 action).map fun outcome => (outcome.2, (abstract pair.2 action).2)

/-- The machine does not fail, and it answers what the abstraction answers. -/
def SameAnswer (pair : σ × τ) (action : α) : Prop :=
  (machine pair.1 action).map Prod.fst = some (abstract pair.2 action).1

def Refines (related : σ → τ → Prop) (pair : σ × τ) (actions : List α) : Prop :=
  EachStep (beside machine abstract) (SameAnswer machine abstract) pair actions ∧
    Throughout (beside machine abstract) (fun pair => related pair.1 pair.2) pair actions

/-- Each step is made under a condition on both. -/
def EachBeside (meets : σ → τ → α → Prop) (pair : σ × τ) (actions : List α) : Prop :=
  EachStep (beside machine abstract) (fun pair action => meets pair.1 pair.2 action) pair actions

variable {machine abstract} {related inv : σ → τ → Prop} {state : σ} {spec : τ} {actions : List α}

theorem beside_eq_some {pair next : σ × τ} {action : α} (stepped : beside machine abstract pair action = some next) :
    ∃ answer, machine pair.1 action = some (answer, next.1) ∧ next.2 = (abstract pair.2 action).2 := by
  obtain ⟨⟨answer, after⟩, computed, rfl⟩ := Option.map_eq_some_iff.1 stepped
  exact ⟨answer, computed, rfl⟩

section
variable {meets : σ → τ → α → Prop} (enough : ∀ {s t}, inv s t → related s t)
  (simulates : ∀ {s t a}, inv s t → meets s t a → ∃ next, machine s a = some ((abstract t a).1, next) ∧ inv next (abstract t a).2)
include simulates

theorem beside_keeps {pair next : σ × τ} {action : α} (before : inv pair.1 pair.2) (met : meets pair.1 pair.2 action)
    (stepped : beside machine abstract pair action = some next) : inv next.1 next.2 := by
  obtain ⟨answer, computed, after⟩ := beside_eq_some stepped
  obtain ⟨machine', same, later⟩ := simulates before met
  cases same.symm.trans computed
  exact after ▸ later

include enough

/-- Where a step that meets the condition simulates, the machine refines its abstraction under that condition. -/
theorem refines_of_eachStep (start : inv state spec) (each : EachBeside machine abstract meets (state, spec) actions) :
    Refines machine abstract related (state, spec) actions := by
  constructor
  · refine eachStep_of_kept (fun rest pair => inv pair.1 pair.2 ∧ EachBeside machine abstract meets pair rest) ?_ ?_ ⟨start, each⟩
    · rintro action rest pair ⟨before, met, -⟩
      obtain ⟨next, computed, -⟩ := simulates before met
      rw [SameAnswer, computed]
      rfl
    · rintro action rest pair next ⟨before, met, later⟩ - stepped
      exact ⟨beside_keeps simulates before met stepped, later next stepped⟩
  · exact throughout_of_eachStep (fun before => enough before) (beside_keeps simulates) start each

/-- Where moreover only such a step answers alike and keeps the relation, the condition says when the machine refines its
abstraction. -/
theorem refines_iff_eachStep (needed : ∀ {s t a}, inv s t → SameAnswer machine abstract (s, t) a →
      (∀ answer next, machine s a = some (answer, next) → related next (abstract t a).2) → meets s t a)
    (start : inv state spec) :
    Refines machine abstract related (state, spec) actions ↔ EachBeside machine abstract meets (state, spec) actions := by
  refine ⟨fun ⟨answers, every⟩ => ?_, refines_of_eachStep enough simulates start⟩
  refine eachStep_of_kept (fun rest pair => inv pair.1 pair.2 ∧ Refines machine abstract related pair rest) ?_ ?_
    ⟨start, answers, every⟩
  · rintro action rest pair ⟨before, answers, every⟩
    apply needed before answers.1
    intro answer next computed
    have stepped : beside machine abstract pair action = some (next, (abstract pair.2 action).2) := by simp [beside, computed]
    exact (every.2 _ stepped).start
  · rintro action rest pair next ⟨before, answers, every⟩ met stepped
    exact ⟨beside_keeps simulates before met stepped, answers.2 next stepped, every.2 next stepped⟩

end

theorem refines_of_simulates (enough : ∀ {s t}, inv s t → related s t)
    (simulates : ∀ {s t a}, inv s t → ∃ next, machine s a = some ((abstract t a).1, next) ∧ inv next (abstract t a).2)
    (start : inv state spec) : Refines machine abstract related (state, spec) actions := by
  let always : σ → τ → α → Prop := fun _ _ _ => True
  have each : EachBeside machine abstract always (state, spec) actions := eachStep_true _ _
  exact refines_of_eachStep enough (fun before _ => simulates before) start each

end Cassobee.Support
