/-! A property of the state that a computation keeps, whether it returns or throws. -/

namespace Cassobee.Support
variable {ε σ α β : Type}

/-- The state that a computation leaves. -/
def stateOf : EStateM.Result ε σ α → σ
  | .ok _ state => state
  | .error _ state => state

def Keeps (holds : σ → Prop) (call : EStateM ε σ α) : Prop := ∀ state, holds state → holds (stateOf (call state))

namespace Keeps
variable {holds : σ → Prop}

theorem pure (value : α) : Keeps holds (pure value : EStateM ε σ α) := fun _ start => start

theorem throw (thrown : ε) : Keeps holds (throw thrown : EStateM ε σ α) := fun _ start => start

theorem get : Keeps holds (get : EStateM ε σ σ) := fun _ start => start

theorem bind {first : EStateM ε σ α} {next : α → EStateM ε σ β} (start : Keeps holds first)
    (rest : ∀ value, Keeps holds (next value)) : Keeps holds (first >>= next) := by
  intro state before
  have middle := start state before
  cases result : first state with
  | ok value after =>
    rw [result] at middle
    simpa only [Bind.bind, EStateM.bind, result] using rest value after middle
  | error thrown after =>
    rw [result] at middle
    simp only [Bind.bind, EStateM.bind, result]
    exact middle

theorem ite {condition : Prop} [Decidable condition] {one two : EStateM ε σ α} (yes : Keeps holds one) (no : Keeps holds two) :
    Keeps holds (if condition then one else two) := by
  split
  · exact yes
  · exact no

theorem ok {call : EStateM ε σ α} {before after : σ} {value : α} (kept : Keeps holds call) (start : holds before)
    (returned : call before = .ok value after) : holds after := by
  have last := kept before start
  rwa [returned] at last

end Keeps

end Cassobee.Support
