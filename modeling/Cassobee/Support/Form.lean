/-! Wire forms: which strings spell which values, how forms follow one another, and when a string
shows by itself where a form ends. -/

namespace Cassobee.Support

/-- `form string value`: the string spells the value. -/
abbrev Form (τ α : Type) := List τ → α → Prop

namespace Form
variable {τ α β : Type}

/-- Nothing, for a value that is known. -/
def done (value : α) : Form τ α := fun string found => string = [] ∧ found = value

/-- As many symbols as there are, whatever they are. -/
def symbols (count : Nat) : Form τ Unit := fun string _ => string.length = count

/-- One form and then another, which may depend on the value of the first. -/
def «then» (first : Form τ α) (next : α → Form τ β) : Form τ β := fun string value =>
  ∃ one two middle, string = one ++ two ∧ first one middle ∧ next middle two value

def times (form : Form τ Unit) : Nat → Form τ Unit
  | 0 => done ()
  | count + 1 => form.then fun _ => form.times count

/-- No string of the form goes on to be another one. -/
def Separate (form : Form τ α) : Prop :=
  ∀ ⦃one two rest rest' : List τ⦄ ⦃value value' : α⦄, form one value → form two value' → one ++ rest = two ++ rest' →
    one = two ∧ value = value'

theorem done_separate (value : α) : (done value : Form τ α).Separate := by
  intro one two rest rest' found found' first second _
  exact ⟨first.1.trans second.1.symm, first.2.trans second.2.symm⟩

theorem symbols_separate (count : Nat) : (symbols count : Form τ Unit).Separate := by
  intro one two rest rest' _ _ first second same
  exact ⟨(List.append_inj same (first.trans second.symm)).1, rfl⟩

theorem then_separate {first : Form τ α} {next : α → Form τ β} (start : first.Separate)
    (others : ∀ middle, (next middle).Separate) : (first.then next).Separate := by
  intro string string' rest rest' value value' spelled spelled' same
  obtain ⟨one, two, middle, rfl, head, tail⟩ := spelled
  obtain ⟨one', two', middle', rfl, head', tail'⟩ := spelled'
  rw [List.append_assoc, List.append_assoc] at same
  obtain ⟨rfl, rfl⟩ := start head head' same
  obtain ⟨rfl, rfl⟩ := others middle tail tail' (List.append_cancel_left same)
  exact ⟨rfl, rfl⟩

theorem times_separate {form : Form τ Unit} (each : form.Separate) (count : Nat) : (form.times count).Separate := by
  induction count with
  | zero => exact done_separate ()
  | succ count ih => exact then_separate each fun _ => ih

/-- A form restricted by a condition that does not depend on the string. -/
theorem guard_separate {form : Form τ α} {allowed : Prop} (each : form.Separate) :
    Separate fun string value => allowed ∧ form string value := by
  intro one two rest rest' value value' first second same
  exact each first.2 second.2 same

end Form
end Cassobee.Support
