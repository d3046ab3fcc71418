/-! Finite runs of a labelled step relation, and the rule by which what every step keeps is kept by
every run. -/

namespace Cassobee.Support

variable {σ α : Type}

inductive Run (step : σ → α → σ → Prop) : σ → List α → σ → Prop where
  | done (state : σ) : Run step state [] state
  | cons {before middle after : σ} {action : α} {actions : List α} (first : step before action middle)
      (rest : Run step middle actions after) : Run step before (action :: actions) after

namespace Run
variable {step other : σ → α → σ → Prop} {before middle after : σ} {actions later : List α}

theorem invariant (holds : σ → Prop) (kept : ∀ {s a t}, holds s → step s a t → holds t)
    (run : Run step before actions after) (start : holds before) : holds after := by
  induction run with
  | done => exact start
  | cons first _ ih => exact ih (kept start first)

/-- The invariant may also speak about what is left of the run. -/
theorem invariant_of_rest (holds : σ → List α → Prop)
    (kept : ∀ {s a t rest}, holds s (a :: rest) → step s a t → holds t rest)
    (run : Run step before actions after) (start : holds before actions) : holds after [] := by
  induction run with
  | done => exact start
  | cons first _ ih => exact ih (kept start first)

theorem mono (weaker : ∀ {s a t}, step s a t → other s a t) (run : Run step before actions after) :
    Run other before actions after := by
  induction run with
  | done => exact .done _
  | cons first _ ih => exact .cons (weaker first) ih

theorem append (run : Run step before actions middle) (next : Run step middle later after) :
    Run step before (actions ++ later) after := by
  induction run with
  | done => exact next
  | cons first _ ih => exact .cons first (ih next)

theorem of_foldlM {call : σ → α → Option σ} {actions : List α} {before after : σ}
    (computed : actions.foldlM call before = some after) :
    Run (fun s a t => call s a = some t) before actions after := by
  induction actions generalizing before with
  | nil =>
    obtain rfl : before = after := by simpa using computed
    exact .done _
  | cons action actions ih =>
    rw [List.foldlM_cons, Option.bind_eq_bind, Option.bind_eq_some_iff] at computed
    obtain ⟨middle, first, rest⟩ := computed
    exact .cons first (ih rest)

end Run

/-- A loop over a list: the invariant speaks about the items that are left, and each item is done
without failure. -/
theorem foldlM_keeps {call : σ → α → Option σ} (holds : List α → σ → Prop)
    (kept : ∀ a rest s, holds (a :: rest) s → ∃ t, call s a = some t ∧ holds rest t) {items : List α} {state : σ}
    (start : holds items state) : ∃ final, items.foldlM call state = some final ∧ holds [] final := by
  induction items generalizing state with
  | nil => exact ⟨state, rfl, start⟩
  | cons item items ih =>
    obtain ⟨middle, first, before⟩ := kept item items state start
    obtain ⟨final, rest, after⟩ := ih before
    refine ⟨final, ?_, after⟩
    rw [List.foldlM_cons, first]
    exact rest

/-! Properties of all states, and of all steps, of the run of a list of actions. A step that is not
possible ends the run. -/

section
variable (call : σ → α → Option σ)

def Throughout (holds : σ → Prop) : σ → List α → Prop
  | state, [] => holds state
  | state, action :: actions => holds state ∧ ∀ next, call state action = some next → Throughout holds next actions

def EachStep (meets : σ → α → Prop) : σ → List α → Prop
  | _, [] => True
  | state, action :: actions =>
    meets state action ∧ ∀ next, call state action = some next → EachStep meets next actions

instance EachStep.decidable (meets : σ → α → Prop) [∀ s a, Decidable (meets s a)] :
    ∀ state actions, Decidable (EachStep call meets state actions)
  | _, [] => isTrue trivial
  | state, action :: actions =>
    match stepped : call state action with
    | none => decidable_of_iff (meets state action) ⟨fun now => ⟨now, by simp [stepped]⟩, And.left⟩
    | some next =>
      have := EachStep.decidable meets next actions
      decidable_of_iff (meets state action ∧ EachStep call meets next actions)
        ⟨fun ⟨now, later⟩ => ⟨now, by simpa [stepped] using later⟩, fun ⟨now, later⟩ => ⟨now, later next stepped⟩⟩

variable {call}

theorem Throughout.after {holds : σ → Prop} {actions later : List α} {before after : σ}
    (every : Throughout call holds before (actions ++ later)) (computed : actions.foldlM call before = some after) :
    Throughout call holds after later := by
  induction actions generalizing before with
  | nil =>
    obtain rfl : before = after := by simpa using computed
    exact every
  | cons action actions ih =>
    rw [List.foldlM_cons, Option.bind_eq_bind, Option.bind_eq_some_iff] at computed
    obtain ⟨middle, first, rest⟩ := computed
    exact ih (every.2 middle first) rest

theorem Throughout.last {holds : σ → Prop} {actions : List α} {before after : σ}
    (every : Throughout call holds before actions) (computed : actions.foldlM call before = some after) :
    holds after := by
  have extended : Throughout call holds before (actions ++ []) := by rwa [List.append_nil]
  exact extended.after computed

theorem Throughout.imp {holds other : σ → Prop} (weaker : ∀ {s}, holds s → other s) {actions : List α} {state : σ}
    (every : Throughout call holds state actions) : Throughout call other state actions := by
  induction actions generalizing state with
  | nil => exact weaker every
  | cons action actions ih => exact ⟨weaker every.1, fun next stepped => ih (every.2 next stepped)⟩

theorem Throughout.start {holds : σ → Prop} {actions : List α} {state : σ} (every : Throughout call holds state actions) :
    holds state := by
  cases actions with
  | nil => exact every
  | cons => exact every.1

theorem EachStep.cons {meets : σ → α → Prop} {action : α} {actions : List α} {state next : σ} (now : meets state action)
    (stepped : call state action = some next) (later : EachStep call meets next actions) :
    EachStep call meets state (action :: actions) := by
  refine ⟨now, fun other also => ?_⟩
  cases stepped.symm.trans also
  exact later

theorem EachStep.append {meets : σ → α → Prop} {actions later : List α} {state : σ}
    (each : EachStep call meets state actions) (rest : ∀ next, EachStep call meets next later) :
    EachStep call meets state (actions ++ later) := by
  induction actions generalizing state with
  | nil => exact rest state
  | cons action actions ih => exact ⟨each.1, fun next stepped => ih (each.2 next stepped)⟩

/-- A condition on the actions alone is one on the steps. -/
theorem EachStep.and_all {meets : σ → α → Prop} {allowed : α → Prop} {actions : List α} {state : σ}
    (each : EachStep call meets state actions) (all : ∀ action ∈ actions, allowed action) :
    EachStep call (fun s a => allowed a ∧ meets s a) state actions := by
  induction actions generalizing state with
  | nil => trivial
  | cons action actions ih =>
    refine ⟨⟨all action (List.mem_cons_self ..), each.1⟩, fun next stepped => ?_⟩
    exact ih (each.2 next stepped) fun later member => all later (List.mem_cons_of_mem _ member)

theorem throughout_of_eachStep {inv holds : σ → Prop} {meets : σ → α → Prop} (enough : ∀ {s}, inv s → holds s)
    (kept : ∀ {s a t}, inv s → meets s a → call s a = some t → inv t) {state : σ} {actions : List α} (start : inv state)
    (each : EachStep call meets state actions) : Throughout call holds state actions := by
  induction actions generalizing state with
  | nil => exact enough start
  | cons action actions ih =>
    obtain ⟨now, later⟩ := each
    exact ⟨enough start, fun next stepped => ih (kept start now stepped) (later next stepped)⟩

/-- A step that meets the condition is possible. -/
theorem runs_of_eachStep {inv : σ → Prop} {meets : σ → α → Prop}
    (kept : ∀ {s a}, inv s → meets s a → ∃ t, call s a = some t ∧ inv t) {state : σ} {actions : List α} (start : inv state)
    (each : EachStep call meets state actions) : ∃ final, actions.foldlM call state = some final ∧ inv final := by
  induction actions generalizing state with
  | nil => exact ⟨state, rfl, start⟩
  | cons action actions ih =>
    obtain ⟨now, later⟩ := each
    obtain ⟨next, stepped, after⟩ := kept start now
    obtain ⟨final, rest, last⟩ := ih after (later next stepped)
    refine ⟨final, ?_, last⟩
    rw [List.foldlM_cons, stepped]
    exact rest

/-- Where every step that meets the condition is possible, the whole run is. -/
theorem completes_of_eachStep {inv holds : σ → Prop} {meets : σ → α → Prop} (enough : ∀ {s}, inv s → holds s)
    (kept : ∀ {s a}, inv s → meets s a → ∃ t, call s a = some t ∧ inv t) {state : σ} {actions : List α} (start : inv state)
    (each : EachStep call meets state actions) :
    Throughout call holds state actions ∧ (actions.foldlM call state).isSome := by
  constructor
  · refine throughout_of_eachStep enough (fun now met stepped => ?_) start each
    obtain ⟨after, same, later⟩ := kept now met
    cases same.symm.trans stepped
    exact later
  · obtain ⟨final, ran, -⟩ := runs_of_eachStep kept start each
    rw [ran]
    rfl

theorem eachStep_of_kept {meets : σ → α → Prop} (holds : List α → σ → Prop)
    (enough : ∀ a rest s, holds (a :: rest) s → meets s a)
    (kept : ∀ a rest s t, holds (a :: rest) s → meets s a → call s a = some t → holds rest t) {state : σ} {actions : List α}
    (start : holds actions state) : EachStep call meets state actions := by
  induction actions generalizing state with
  | nil => trivial
  | cons action actions ih =>
    have now := enough action actions state start
    exact ⟨now, fun next stepped => ih (kept action actions state next start now stepped)⟩

/-- Two conditions that say the same wherever the run can be. -/
theorem eachStep_congr {inv : σ → Prop} {one two : σ → α → Prop} (same : ∀ {s a}, inv s → (one s a ↔ two s a))
    (kept : ∀ {s a t}, inv s → two s a → call s a = some t → inv t) {state : σ} {actions : List α} (start : inv state) :
    EachStep call one state actions ↔ EachStep call two state actions := by
  induction actions generalizing state with
  | nil => exact Iff.rfl
  | cons action actions ih =>
    constructor
    · rintro ⟨now, later⟩
      have meets := (same start).1 now
      exact ⟨meets, fun next stepped => (ih (kept start meets stepped)).1 (later next stepped)⟩
    · rintro ⟨now, later⟩
      exact ⟨(same start).2 now, fun next stepped => (ih (kept start now stepped)).2 (later next stepped)⟩

theorem eachStep_of_throughout {holds : σ → Prop} {meets : σ → α → Prop}
    (needed : ∀ {s a}, (∀ t, call s a = some t → holds t) → meets s a) {state : σ} {actions : List α}
    (every : Throughout call holds state actions) : EachStep call meets state actions := by
  induction actions generalizing state with
  | nil => trivial
  | cons action actions ih =>
    obtain ⟨-, later⟩ := every
    refine ⟨needed fun next stepped => ?_, fun next stepped => ih (later next stepped)⟩
    have rest := later next stepped
    cases actions with
    | nil => exact rest
    | cons => exact rest.1

/-- Where every step that the property allows meets the condition, the property and the condition
say the same of a run. What `allowed` says of the steps is taken for granted. -/
theorem throughout_iff_of_allowed {inv holds : σ → Prop} {allowed meets : σ → α → Prop} (enough : ∀ {s}, inv s → holds s)
    (kept : ∀ {s a t}, inv s → allowed s a → meets s a → call s a = some t → inv t)
    (needed : ∀ {s a}, inv s → (∀ t, call s a = some t → holds t) → meets s a) {state : σ} {actions : List α}
    (start : inv state) (each : EachStep call allowed state actions) :
    Throughout call holds state actions ↔ EachStep call meets state actions := by
  induction actions generalizing state with
  | nil => exact ⟨fun _ => trivial, fun _ => enough start⟩
  | cons action actions ih =>
    obtain ⟨fine, next⟩ := each
    constructor
    · rintro ⟨-, later⟩
      have now : meets state action := by
        refine needed start fun after stepped => ?_
        have rest := later after stepped
        cases actions with
        | nil => exact rest
        | cons => exact rest.1
      exact ⟨now, fun after stepped => (ih (kept start fine now stepped) (next after stepped)).1 (later after stepped)⟩
    · rintro ⟨now, later⟩
      exact ⟨enough start,
        fun after stepped => (ih (kept start fine now stepped) (next after stepped)).2 (later after stepped)⟩

theorem eachStep_true (state : σ) (actions : List α) : EachStep call (fun _ _ => True) state actions := by
  induction actions generalizing state with
  | nil => trivial
  | cons action actions ih => exact ⟨trivial, fun next _ => ih next⟩

theorem throughout_iff_eachStep {inv holds : σ → Prop} {meets : σ → α → Prop} (enough : ∀ {s}, inv s → holds s)
    (kept : ∀ {s a t}, inv s → meets s a → call s a = some t → inv t)
    (needed : ∀ {s a}, inv s → (∀ t, call s a = some t → holds t) → meets s a) {state : σ} {actions : List α}
    (start : inv state) : Throughout call holds state actions ↔ EachStep call meets state actions :=
  throughout_iff_of_allowed enough (fun before _ now stepped => kept before now stepped) needed start
    (eachStep_true state actions)

end
end Cassobee.Support
