import Cassobee.LrContainers
import Cassobee.Support.Run

/-! When the two instances of a container hold the same as the plain one. -/

namespace Cassobee
open Support

def LrContainer.InStep {γ : Type} (lr : LrContainer γ) : Prop := ∀ side, lr.inst side = lr.plain

/-- What is moved from keeps its value. -/
def SequenceCall.Keeps {τ : Type} (moved : τ → τ) : SequenceCall τ → Prop
  | .pushFront value true | .pushBack value true | .emplaceFront value true | .emplaceBack value true => moved value = value
  | _ => True

/-- A key and a value that are moved into the map keep their value, and what is left of a key that was
there before is a key that is there. `operator[]` finds its key. -/
def MapCall.Keeps {κ ν : Type} (setting : MapSetting κ ν) (map : κ → Option ν) : MapCall κ ν → Prop
  | .emplace key value movingKey movingValue =>
    (map key = none → (movingKey → setting.movedKey key = key) ∧ (movingValue → setting.movedValue value = value)) ∧
      (map key ≠ none → setting.eager → movingKey → map (setting.movedKey key) ≠ none)
  | .index key => map key ≠ none
  | _ => True

namespace Proofs

section
variable {γ ο : Type} {methods : LrMethods γ ο}

/-- A call does the same a second time, and nothing when it reads. -/
def Stable (methods : LrMethods γ ο) (op : ο) (content : γ) : Prop :=
  ∀ first, methods.apply op content = some first →
    if methods.reads op then first = content
    else ∀ second, methods.apply (methods.consumed op content) content = some second → second = first

theorem side_cases (side other : Side) : other = side ∨ other = side.other := by
  cases side <;> cases other <;> simp [Side.other]

theorem other_ne (side : Side) : side.other ≠ side := by
  cases side <;> decide

/-- A read is done to the instance that is read. -/
theorem step_of_reads {lr : LrContainer γ} (inStep : lr.InStep) {op : ο} (reads : methods.reads op) {first : γ}
    (applied : methods.apply op lr.plain = some first) :
    lr.step methods op = some ⟨Function.update lr.inst lr.leftRight first, lr.leftRight, first⟩ := by
  simp [LrContainer.step, LrContainer.applyRead, reads, inStep _, applied]

theorem step_of_writes {lr : LrContainer γ} (inStep : lr.InStep) {op : ο} (writes : ¬ methods.reads op) {first : γ}
    (applied : methods.apply op lr.plain = some first) :
    lr.step methods op = (methods.apply (methods.consumed op lr.plain) lr.plain).map fun second =>
      ⟨Function.update (Function.update lr.inst lr.leftRight.other first) lr.leftRight second, lr.leftRight.other, first⟩ := by
  simp [LrContainer.step, LrContainer.applyWrite, writes, inStep _, applied, Function.comp_def]

theorem step_inStep_iff {lr : LrContainer γ} (inStep : lr.InStep) (op : ο) :
    (∀ after, lr.step methods op = some after → after.InStep) ↔ Stable methods op lr.plain := by
  cases applied : methods.apply op lr.plain with
  | none => simp [Stable, LrContainer.step, applied]
  | some first =>
    by_cases reads : methods.reads op
    · have stable : Stable methods op lr.plain ↔ first = lr.plain := by simp [Stable, applied, reads]
      rw [stable]
      constructor
      · intro every
        have other := every _ (step_of_reads inStep reads applied) lr.leftRight.other
        simp only [Function.update_of_ne (other_ne _)] at other
        rw [← other, inStep]
      · intro same after stepped side
        rw [step_of_reads inStep reads applied] at stepped
        cases stepped
        rcases side_cases lr.leftRight side with rfl | rfl
        · exact Function.update_self ..
        · simp only [Function.update_of_ne (other_ne _), same]
          exact inStep _
    · have stable : Stable methods op lr.plain ↔
          ∀ second, methods.apply (methods.consumed op lr.plain) lr.plain = some second → second = first := by
        simp [Stable, applied, reads]
      rw [stable, step_of_writes inStep reads applied]
      constructor
      · intro every second again
        have here := every _ (Option.map_eq_some_iff.mpr ⟨second, again, rfl⟩) lr.leftRight
        simpa using here
      · rintro same after stepped side
        obtain ⟨second, again, rfl⟩ := Option.map_eq_some_iff.mp stepped
        rcases side_cases lr.leftRight side with rfl | rfl
        · simpa using same second again
        · simp [Function.update_of_ne (other_ne _)]

theorem stable_of_kept {op : ο} {content : γ} (writes : methods.reads op = false) (same : methods.consumed op content = op) :
    Stable methods op content := by
  intro first applied
  rw [writes, same, applied]
  simp

theorem stable_of_read {op : ο} {content : γ} (reads : methods.reads op = true)
    (same : ∀ {first}, methods.apply op content = some first → first = content) : Stable methods op content := by
  intro first applied
  rw [reads]
  exact same applied

/-- It is enough to look at each call where the instances are still the same. -/
theorem inStep_iff {meets : LrContainer γ → ο → Prop}
    (exact : ∀ {lr op}, lr.InStep → (meets lr op ↔ Stable methods op lr.plain)) (content : γ) (calls : List ο) :
    Throughout (LrContainer.step methods) LrContainer.InStep (.new content) calls ↔
      EachStep (LrContainer.step methods) meets (.new content) calls := by
  refine throughout_iff_eachStep id (fun inStep met stepped => ?_) (fun inStep every => ?_) fun _ => rfl
  · exact (step_inStep_iff inStep _).mpr ((exact inStep).mp met) _ stepped
  · exact (exact inStep).mpr ((step_inStep_iff inStep _).mp every)

end

theorem sequence_stable_iff {τ : Type} (moved : τ → τ) (call : SequenceCall τ) (list : List τ) :
    call.Keeps moved ↔ Stable (SequenceCall.methods moved) call list := by
  cases call with
  | pushFront value moving | emplaceFront value moving | pushBack value moving | emplaceBack value moving =>
    cases moving with
    | false => exact iff_of_true trivial (stable_of_kept rfl rfl)
    | true =>
      simp [Stable, SequenceCall.Keeps, SequenceCall.methods, SequenceCall.apply, SequenceCall.consumed, SequenceCall.reads]
  | popFront | popBack | clear => exact iff_of_true trivial (stable_of_kept rfl rfl)
  | size =>
    refine iff_of_true trivial (stable_of_read rfl fun applied => ?_)
    exact (Option.some.inj applied).symm
  | front =>
    refine iff_of_true trivial (stable_of_read rfl fun applied => ?_)
    cases list with
    | nil => cases applied
    | cons => exact (Option.some.inj applied).symm

section
variable {κ ν : Type} [DecidableEq κ] {setting : MapSetting κ ν} {map : κ → Option ν}

theorem insertAbsent_of_some {key : κ} (present : map key ≠ none) (value : ν) : MapCall.insertAbsent map key value = map := by
  rw [MapCall.insertAbsent]
  split
  next => rfl
  next absent => exact absurd absent present

theorem insertAbsent_of_none {key : κ} (absent : map key = none) (value : ν) :
    MapCall.insertAbsent map key value = Function.update map key (some value) := by
  rw [MapCall.insertAbsent, absent]

theorem insertAbsent_elsewhere {key other : κ} (different : other ≠ key) (value : ν) :
    MapCall.insertAbsent map key value other = map other := by
  by_cases absent : map key = none
  · rw [insertAbsent_of_none absent, Function.update_of_ne different]
  · rw [insertAbsent_of_some absent]

/-- Nothing is inserted exactly where the key is there. -/
theorem insertAbsent_eq_self_iff {key : κ} (value : ν) : MapCall.insertAbsent map key value = map ↔ map key ≠ none := by
  constructor
  · intro same absent
    rw [insertAbsent_of_none absent] at same
    have here := congrFun same key
    rw [Function.update_self, absent] at here
    cases here
  · exact fun present => insertAbsent_of_some present value

/-- The same is inserted only by the same key and value. -/
theorem insertAbsent_inj_iff {key other : κ} {value changed : ν} (absent : map key = none) :
    MapCall.insertAbsent map other changed = MapCall.insertAbsent map key value ↔ other = key ∧ changed = value := by
  constructor
  · intro same
    have here := congrFun same key
    rw [insertAbsent_of_none absent, Function.update_self] at here
    by_cases equal : other = key
    · rw [equal, insertAbsent_of_none absent, Function.update_self] at here
      exact ⟨equal, Option.some.inj here⟩
    · rw [insertAbsent_elsewhere (Ne.symm equal), absent] at here
      cases here
  · rintro ⟨rfl, rfl⟩
    rfl

theorem emplace_stable_iff (key : κ) (value : ν) (movingKey movingValue : Bool) :
    (MapCall.emplace key value movingKey movingValue).Keeps setting map ↔
      Stable (MapCall.methods setting) (.emplace key value movingKey movingValue) map := by
  by_cases absent : map key = none
  · have stable : Stable (MapCall.methods setting) (.emplace key value movingKey movingValue) map ↔
        MapCall.insertAbsent map (if movingKey then setting.movedKey key else key)
          (if movingValue then setting.movedValue value else value) = MapCall.insertAbsent map key value := by
      simp [Stable, MapCall.methods, MapCall.apply, MapCall.consumed, MapCall.reads, absent]
    rw [stable, insertAbsent_inj_iff absent]
    cases movingKey <;> cases movingValue <;> simp [MapCall.Keeps, absent]
  · by_cases eager : setting.eager
    · have stable : Stable (MapCall.methods setting) (.emplace key value movingKey movingValue) map ↔
          MapCall.insertAbsent map (if movingKey then setting.movedKey key else key)
            (if movingValue then setting.movedValue value else value) = map := by
        simp [Stable, MapCall.methods, MapCall.apply, MapCall.consumed, MapCall.reads, eager, insertAbsent_of_some absent]
      rw [stable, insertAbsent_eq_self_iff]
      cases movingKey <;> simp [MapCall.Keeps, absent, eager]
    · have unmoved : (MapCall.methods setting).consumed (.emplace key value movingKey movingValue) map =
          .emplace key value movingKey movingValue := by
        simp [MapCall.methods, MapCall.consumed, eager, absent]
      exact iff_of_true ⟨fun missing => absurd missing absent, fun _ early => absurd early eager⟩ (stable_of_kept rfl unmoved)

theorem map_stable_iff (call : MapCall κ ν) : call.Keeps setting map ↔ Stable (MapCall.methods setting) call map := by
  cases call with
  | emplace key value movingKey movingValue => exact emplace_stable_iff key value movingKey movingValue
  | erase key | clear => exact iff_of_true trivial (stable_of_kept rfl rfl)
  | find key | contains key | count key | empty =>
    exact iff_of_true trivial (stable_of_read rfl fun applied => (Option.some.inj applied).symm)
  | index key =>
    have stable : Stable (MapCall.methods setting) (.index key) map ↔
        MapCall.insertAbsent map key setting.defaultValue = map := by
      simp [Stable, MapCall.methods, MapCall.apply, MapCall.reads]
    rw [stable, insertAbsent_eq_self_iff]
    rfl

end

/-- Every sequence of calls, on a list or vector and on a map. -/
theorem containers_in_step_iff {τ κ ν : Type} [DecidableEq κ] (moved : τ → τ) (list : List τ) (calls : List (SequenceCall τ))
    (setting : MapSetting κ ν) (map : κ → Option ν) (mapCalls : List (MapCall κ ν)) :
    (Throughout (LrContainer.step (SequenceCall.methods moved)) LrContainer.InStep (.new list) calls ↔
      EachStep (LrContainer.step (SequenceCall.methods moved)) (fun _ call => call.Keeps moved) (.new list) calls) ∧
    (Throughout (LrContainer.step (MapCall.methods setting)) LrContainer.InStep (.new map) mapCalls ↔
      EachStep (LrContainer.step (MapCall.methods setting)) (fun lr call => call.Keeps setting lr.plain) (.new map) mapCalls) :=
  ⟨inStep_iff (fun _ => sequence_stable_iff moved _ _) list calls, inStep_iff (fun _ => map_stable_iff _) map mapCalls⟩

/-- A string that is moved into a list, and a key that is looked up in an empty map. -/
theorem containers_drift :
    ¬ Throughout (LrContainer.step (SequenceCall.methods fun _ : String => "")) LrContainer.InStep (.new []) [.pushBack "a" true] ∧
      ¬ Throughout (LrContainer.step (MapCall.methods (⟨id, id, 0, false⟩ : MapSetting Nat Nat))) LrContainer.InStep
        (.new fun _ => none) [.index 1] := by
  constructor
  · intro inStep
    have last : [""] = ["a"] := inStep.2 _ rfl .left
    exact absurd last (by decide)
  · intro inStep
    have last := congrFun (inStep.2 _ rfl .right) 1
    cases last

end Proofs
end Cassobee
