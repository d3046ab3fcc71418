import Cassobee.Support.Run
import Mathlib.Logic.Function.Basic

/-! Linearizability. The atomic object answers as many threads as there are; a call takes its effect at
once, at some moment between the call and the answer. A machine is linearizable when its callers
cannot tell it from that object. -/

namespace Cassobee.Support

variable {σ α ε : Type}

/-- What is seen of the run of a list of actions. -/
def history (step : σ → α → Option σ) (seen : σ → α → List ε) : σ → List α → List ε
  | _, [] => []
  | state, action :: actions =>
    match step state action with
    | none => []
    | some next => seen state action ++ history step seen next actions

theorem history_append {step : σ → α → Option σ} {seen : σ → α → List ε} {actions later : List α} {state middle : σ}
    (ran : actions.foldlM step state = some middle) :
    history step seen state (actions ++ later) = history step seen state actions ++ history step seen middle later := by
  induction actions generalizing state with
  | nil =>
    obtain rfl : state = middle := by simpa using ran
    rfl
  | cons action actions ih =>
    rw [List.foldlM_cons, Option.bind_eq_bind, Option.bind_eq_some_iff] at ran
    obtain ⟨next, first, rest⟩ := ran
    simp only [List.cons_append, history, first, ih rest, List.append_assoc]

/-- What callers see: `β` is what an operation answers. -/
inductive Observation (ι ο β : Type) where
  | call (thread : ι) (op : ο)
  | answer (thread : ι) (answer : β)
  deriving DecidableEq, Repr

/-- How far the call of a thread has come. -/
inductive AtomicCall (ο β : Type) where
  | outside
  | called (op : ο)
  | done (answer : β)
  deriving DecidableEq, Repr

structure AtomicObject (ι ο β γ : Type) where
  content : γ
  calls : ι → AtomicCall ο β

inductive AtomicAction (ι ο : Type) where
  | call (thread : ι) (op : ο)
  | effect (thread : ι)
  | answer (thread : ι)
  deriving DecidableEq, Repr

namespace AtomicObject
variable {ι ο β γ : Type}

def fresh (content : γ) : AtomicObject ι ο β γ := ⟨content, fun _ => .outside⟩

def seen (object : AtomicObject ι ο β γ) : AtomicAction ι ο → List (Observation ι ο β)
  | .call thread op => [.call thread op]
  | .effect _ => []
  | .answer thread =>
    match object.calls thread with
    | .done answer => [.answer thread answer]
    | _ => []

variable [DecidableEq ι] (apply : ο → γ → β × γ)

def set (object : AtomicObject ι ο β γ) (thread : ι) (call : AtomicCall ο β) : AtomicObject ι ο β γ :=
  { object with calls := Function.update object.calls thread call }

def step (object : AtomicObject ι ο β γ) : AtomicAction ι ο → Option (AtomicObject ι ο β γ)
  | .call thread op =>
    match object.calls thread with
    | .outside => some (object.set thread (.called op))
    | _ => none
  | .effect thread =>
    match object.calls thread with
    | .called op =>
      let (answer, content) := apply op object.content
      some ({ object with content }.set thread (.done answer))
    | _ => none
  | .answer thread =>
    match object.calls thread with
    | .done _ => some (object.set thread .outside)
    | _ => none

/-- The object can be seen like this. -/
def Admits (content : γ) (events : List (Observation ι ο β)) : Prop :=
  ∃ effects object, effects.foldlM (step apply) (fresh content) = some object ∧
    history (step apply) seen (fresh content) effects = events

/-- Some steps of the object, what is seen of them, and where they lead. -/
def Goes (object : AtomicObject ι ο β γ) (events : List (Observation ι ο β)) (after : AtomicObject ι ο β γ) : Prop :=
  ∃ effects : List (AtomicAction ι ο), effects.foldlM (step apply) object = some after ∧
    history (step apply) seen object effects = events

variable {apply} {object middle after : AtomicObject ι ο β γ} {thread : ι} {events later : List (Observation ι ο β)}

theorem Goes.refl (object : AtomicObject ι ο β γ) : Goes apply object [] object := ⟨[], rfl, rfl⟩

theorem Goes.trans (first : Goes apply object events middle) (next : Goes apply middle later after) :
    Goes apply object (events ++ later) after := by
  obtain ⟨effects, ran, saw⟩ := first
  obtain ⟨effects', ran', saw'⟩ := next
  refine ⟨effects ++ effects', ?_, ?_⟩
  · rw [List.foldlM_append, ran]
    exact ran'
  · rw [history_append ran, saw, saw']

theorem goes_call {op : ο} (here : object.calls thread = .outside) :
    Goes apply object [.call thread op] (object.set thread (.called op)) := by
  refine ⟨[.call thread op], ?_, ?_⟩
  · simp [step, here]
  · simp [history, step, seen, here]

theorem goes_effect {op : ο} (here : object.calls thread = .called op) :
    Goes apply object [] ({ object with content := (apply op object.content).2 }.set thread (.done (apply op object.content).1)) := by
  refine ⟨[.effect thread], ?_, ?_⟩
  · simp [step, here]
  · simp [history, step, seen, here]

theorem goes_answer {answer : β} (here : object.calls thread = .done answer) :
    Goes apply object [.answer thread answer] (object.set thread .outside) := by
  refine ⟨[.answer thread], ?_, ?_⟩
  · simp [step, here]
  · simp [history, step, seen, here]

/-- The effect and the answer at once. -/
theorem goes_through {op : ο} (here : object.calls thread = .called op) :
    Goes apply object [.answer thread (apply op object.content).1]
      ({ object with content := (apply op object.content).2 }.set thread .outside) := by
  have effect : Goes apply object [] _ := goes_effect here
  have answered := effect.trans (goes_answer (Function.update_self ..))
  rwa [set, set, Function.update_idem] at answered

/-- Where every step of a machine goes with some steps of the object, and shows what they show, the
object admits everything that the machine shows. -/
theorem admits_of_simulates {call : σ → α → Option σ} {shown : σ → α → List (Observation ι ο β)} {content : γ}
    {meets : σ → α → Prop} (inv : σ → AtomicObject ι ο β γ → Prop)
    (simulates : ∀ {state object action next}, inv state object → meets state action → call state action = some next →
      ∃ after, Goes apply object (shown state action) after ∧ inv next after)
    {state final : σ} {actions : List α} (start : inv state (fresh content)) (each : EachStep call meets state actions)
    (ran : actions.foldlM call state = some final) : Admits apply content (history call shown state actions) := by
  have goes {actions : List α} {state : σ} {object : AtomicObject ι ο β γ} (start : inv state object)
      (each : EachStep call meets state actions) (ran : actions.foldlM call state = some final) :
      ∃ after, Goes apply object (history call shown state actions) after := by
    induction actions generalizing state object with
    | nil => exact ⟨object, .refl object⟩
    | cons action actions ih =>
      rw [List.foldlM_cons, Option.bind_eq_bind, Option.bind_eq_some_iff] at ran
      obtain ⟨next, first, rest⟩ := ran
      obtain ⟨middle, gone, held⟩ := simulates start each.1 first
      obtain ⟨after, further⟩ := ih held (each.2 next first) rest
      refine ⟨after, ?_⟩
      simp only [history, first]
      exact gone.trans further
  obtain ⟨after, effects, computed, saw⟩ := goes start each ran
  exact ⟨effects, after, computed, saw⟩

end AtomicObject
end Cassobee.Support
