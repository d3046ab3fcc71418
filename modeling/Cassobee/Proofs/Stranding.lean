import Cassobee.Proofs.Integrity
import Cassobee.Proofs.Schedule

/-! When a timer is left behind. A timer that is due before the tick in which it is put into a slot is
taken for one that is due in almost `2 ^ 64` ticks. -/

namespace Cassobee
open Support

/-- `_nexttime` stays in its type when a timer is accepted. -/
def aheadTerms (ticktime : Int) (positive : 0 < ticktime) : Terms where
  ticktime := ticktime
  positive := positive
  accepts _ _ nexttime := nexttime < 2 ^ 63
  deletes := False

/-- `_nexttime` stays in its type when a timer is armed again. -/
def Representable (wheel : Wheel Sequences) : WheelAction → Prop
  | .call _ => True
  | .tick script => ∀ t ∈ wheel.due wheel.lists, (script (wheel.nodes t).uid).result = true →
      (wheel.nodes t).counted.repeats ≠ 0 → (wheel.nodes t).nexttime + (wheel.nodes t).timeout < 2 ^ 63

/-- An accepted timer is due in the tick that loads it or later, a timer that is armed again is due
later than before, and the links are left alone. -/
structure StepAhead (ticktime : Int) (positive : 0 < ticktime) (wheel : Wheel Sequences) (action : WheelAction) : Prop where
  meets : StepMeets (aheadTerms ticktime positive) wheel action
  harmless : Harmless wheel action
  representable : Representable wheel action

/-- Every active timer is due now or later, the unsigned difference is the true one, and the timer is in
the slot of its tick or in the hanging list until its lap comes. -/
structure NotStranded (lists : Sequences) (wheel : Wheel Links) : Prop where
  linked : WellLinked lists wheel
  ahead {t : Nat} (inside : t < wheel.cap) (active : (wheel.nodes t).state = .active) :
    wheel.tickcount ≤ (wheel.nodes t).nexttime
  unwrapped {t : Nat} (inside : t < wheel.cap) (active : (wheel.nodes t).state = .active) :
    (wheel.ticksLeft t : Int) = (wheel.nodes t).nexttime - wheel.tickcount
  hanging {t : Nat} (member : t ∈ lists .hanging) : lapEnd wheel.tickcount ≤ (wheel.nodes t).nexttime
  placed {t : Nat} (inside : t < wheel.cap) (active : (wheel.nodes t).state = .active) :
    t ∈ lists .hanging ∨ t ∈ lists (.near ((wheel.nodes t).nexttime % (nearSlots : Int)).toNat) ∧
      (wheel.nodes t).nexttime < wheel.tickcount + nearSlots

namespace Proofs
variable {terms : Terms} {wheel : Wheel Sequences} {links : Links}

theorem notStranded_of_steady (steady : Steady terms wheel) (woven : Woven .active [] wheel links) :
    NotStranded wheel.lists (wheel.over links) := by
  have found {t : Nat} (inside : t < wheel.cap) (active : (wheel.nodes t).state = .active) :
      t ∈ wheel.lists .hanging ∧ lapEnd wheel.tickcount ≤ (wheel.nodes t).nexttime ∧
          (wheel.nodes t).nexttime < wheel.tickcount + 2 ^ 63 ∨
        t ∈ wheel.lists (.near ((wheel.nodes t).nexttime % (nearSlots : Int)).toNat) ∧
          wheel.tickcount ≤ (wheel.nodes t).nexttime ∧ (wheel.nodes t).nexttime < wheel.tickcount + nearSlots := by
    obtain ⟨place, member⟩ := steady.tidy.covered.mp inside
    have fit := steady.tidy.fits member
    cases place with
    | pool => simp [Timely, active] at fit
    | todo => cases member
    | list name =>
      cases name with
      | near slot =>
        obtain ⟨-, -, slot_eq, lower, upper⟩ := fit
        rw [slot_eq] at member
        exact .inr ⟨member, lower, upper⟩
      | hanging => exact .inl ⟨member, fit.2.2⟩
      | change index => simp [Timely, active] at fit
      | active => cases member
  have soon := lt_lapEnd wheel.tickcount
  refine ⟨.of_woven woven, fun inside active => ?_, fun inside active => ?_, fun {t} member => ?_, fun inside active => ?_⟩
  · change (wheel.tickcount : Int) ≤ (wheel.nodes _).nexttime
    rcases found inside active with ⟨-, lower, -⟩ | ⟨-, lower, -⟩ <;> omega
  · apply ticksLeft_eq
    · change (wheel.tickcount : Int) ≤ (wheel.nodes _).nexttime
      rcases found inside active with ⟨-, lower, -⟩ | ⟨-, lower, -⟩ <;> omega
    · change (wheel.nodes _).nexttime < wheel.tickcount + 2 ^ 63
      rcases found inside active with ⟨-, -, upper⟩ | ⟨-, -, upper⟩
      · exact upper
      · simp only [nearSlots] at upper
        omega
  · have there : t ∈ wheel.contents [] (.list .hanging) := member
    exact (steady.tidy.fits there).2.2.1
  · rcases found inside active with ⟨member, -⟩ | ⟨member, -, upper⟩
    · exact .inl member
    · exact .inr ⟨member, upper⟩

/-- The wheel over links goes where the one over sequences goes. -/
theorem ahead_run {ticktime : Int} {positive : 0 < ticktime} {actions : List WheelAction}
    (steady : Steady (aheadTerms ticktime positive) wheel) (woven : Woven .active [] wheel links)
    (ahead : EachStep Wheel.step (StepAhead ticktime positive) wheel actions) :
    ∃ after links', actions.foldlM Wheel.step (wheel.over links) = some (after.over links') ∧
      Steady (aheadTerms ticktime positive) after ∧ Woven .active [] after links' := by
  induction actions generalizing wheel links with
  | nil => exact ⟨wheel, links, rfl, steady, woven⟩
  | cons action actions ih =>
    obtain ⟨now, later⟩ := ahead
    obtain ⟨middle, links', real, stepped, woven'⟩ := woven.step now.harmless
    obtain ⟨middle', stepped', steady'⟩ := steady.step now.meets
    obtain rfl : middle = middle' := Option.some.inj (stepped.symm.trans stepped')
    obtain ⟨after, links'', real', steady'', woven''⟩ := ih steady' woven' (later middle stepped)
    refine ⟨after, links'', ?_, steady'', woven''⟩
    rw [List.foldlM_cons, real]
    exact real'

/-- At the start of every `handle_timer` of such a run no timer has been left behind. What the steps
must meet is read off the wheel over sequences, which the links follow. -/
theorem nothing_stranded {ticktime : Int} (positive : 0 < ticktime) {poolsize : Nat} (bounded : poolsize ≤ objectPoolMax)
    (actions : List WheelAction)
    (ahead : EachStep Wheel.step (StepAhead ticktime positive) (.init ticktime poolsize Sequences.new) actions) :
    ∃ (wheel loaded : Wheel Links) (lists : Sequences),
      actions.foldlM Wheel.step (.init ticktime poolsize Links.new) = some wheel ∧
      wheel.switchChangelist.loadTimers = some loaded ∧ NotStranded lists loaded := by
  obtain ⟨wheel, links, ran, steady, woven⟩ :=
    ahead_run (Steady.init (aheadTerms ticktime positive) poolsize) (Woven.init ticktime bounded) ahead
  obtain ⟨loaded, links', real, loads, woven'⟩ := (woven.congr rfl rfl rfl rfl : Woven .active [] wheel.switchChangelist links).loadTimers
  obtain ⟨loaded', loads', -, steady', -⟩ := steady.load
  obtain rfl : loaded = loaded' := Option.some.inj (loads.symm.trans loads')
  exact ⟨wheel.over links, loaded.over links', loaded.lists, ran, real, notStranded_of_steady steady' woven'⟩

def goOn : Nat → HandlerOutcome := fun _ => ⟨[], true⟩

/-- A timer that runs in every tick has run once. -/
theorem nothing_stranded_of_one :
    ∃ (wheel loaded : Wheel Links) (lists : Sequences),
      List.foldlM Wheel.step (.init 1 1 Links.new) [.call (.add everyTick), .tick goOn, .tick goOn] = some wheel ∧
      wheel.switchChangelist.loadTimers = some loaded ∧ NotStranded lists loaded := by
  apply nothing_stranded (by decide : (0 : Int) < 1) (by decide : 1 ≤ objectPoolMax) _
  have silent (wheel : Wheel Sequences) : (∀ uid, ∀ call ∈ (goOn uid).calls, ∃ request, call = .add request) ∧
      Undisturbed goOn wheel.nodes wheel.pool [] (wheel.due wheel.lists) := by
    refine ⟨?_, undisturbed_of_silent (fun _ => rfl) (List.nil_subset _) _⟩
    intro uid call member
    cases member
  have small : (1 : Int) < 2 ^ 63 := by decide
  refine .cons ⟨.inr ⟨by decide, by decide, small⟩, trivial, trivial⟩ rfl ?_
  refine .cons ⟨fun loaded loads => ?_, silent _, nofun⟩ rfl (.cons ⟨fun loaded loads => ?_, silent _, fun t due _ _ => ?_⟩ rfl trivial)
  · cases loads
    trivial
  · cases loads
    exact ⟨⟨trivial, fun _ _ => by decide⟩, fun _ _ => trivial⟩
  · obtain rfl := List.mem_singleton.mp due
    decide

/-- A timer without a period is armed again for the tick that is over. -/
theorem zero_period_left_behind :
    ∃ wheel loaded : Wheel Links,
      List.foldlM Wheel.step (.init 1 1 Links.new) [.call (.add ⟨true, 0, -1, by decide, by decide⟩), .tick goOn] = some wheel ∧
      wheel.switchChangelist.loadTimers = some loaded ∧ (loaded.nodes 0).state = .active ∧
      (loaded.nodes 0).nexttime < loaded.tickcount := by
  have computed : ((List.foldlM Wheel.step (.init 1 1 Links.new)
      [.call (.add ⟨true, 0, -1, by decide, by decide⟩), .tick goOn]).bind fun wheel : Wheel Links =>
        wheel.switchChangelist.loadTimers).map (fun loaded =>
          ((loaded.nodes 0).state, decide ((loaded.nodes 0).nexttime < loaded.tickcount))) = some (.active, true) := by
    decide +kernel
  obtain ⟨loaded, ran, shown⟩ := Option.map_eq_some_iff.mp computed
  obtain ⟨wheel, ran, loads⟩ := Option.bind_eq_some_iff.mp ran
  simp only [Prod.mk.injEq, decide_eq_true_eq] at shown
  exact ⟨wheel, loaded, ran, loads, shown⟩

end Proofs
end Cassobee
