import Cassobee.Proofs.Ticking

/-! Runs of the wheel over sequences, and when each timer's handler runs. -/

namespace Cassobee
open Support

def StepMeets (terms : Terms) (wheel : Wheel Sequences) : WheelAction → Prop
  | .call call => CallMeets terms wheel.tickcount wheel call
  | .tick script => TickMeets terms script wheel

namespace Steady
open Proofs
variable {terms : Terms} {wheel : Wheel Sequences}

theorem init (terms : Terms) (poolsize : Nat) : Steady terms (.init terms.ticktime poolsize Sequences.new) := by
  refine ⟨rfl, .init _ _ rfl, ?_, ⟨.nil, by simp [Wheel.init, Sequences.new], by simp [Wheel.init]⟩, rfl, by simp⟩
  refine ⟨?_, by simp [Wheel.init], by simp [Wheel.init], by simp [Wheel.init], by simp [Wheel.init], by simp [Wheel.init],
    by simp [Wheel.init], .nil⟩
  intro t _ live
  exact absurd rfl live

theorem step (steady : Steady terms wheel) {action : WheelAction} (meets : StepMeets terms wheel action) :
    ∃ wheel', wheel.step action = some wheel' ∧ Steady terms wheel' := by
  cases action with
  | call call =>
    obtain ⟨after, called, good, aside⟩ := Good.call steady (.inl rfl) meets
    refine ⟨after, called, ?_⟩
    rw [Steady, aside.tickcount]
    exact good
  | tick script =>
    obtain ⟨after, ticked, -, good⟩ := steady.tick meets
    exact ⟨after, ticked, good⟩

theorem run (steady : Steady terms wheel) {actions : List WheelAction}
    (meets : EachStep Wheel.step (StepMeets terms) wheel actions) :
    ∃ wheel', actions.foldlM Wheel.step wheel = some wheel' ∧ Steady terms wheel' := by
  obtain ⟨final, computed, good, -⟩ := foldlM_keeps
    (fun actions now => Steady terms now ∧ EachStep Wheel.step (StepMeets terms) now actions) (by
      rintro action rest now ⟨steady, meets, later⟩
      obtain ⟨after, stepped, steady'⟩ := steady.step meets
      exact ⟨after, stepped, steady', later after stepped⟩) ⟨steady, meets⟩
  exact ⟨final, computed, good⟩

end Steady

/-! Timers that are added with a delay of a tick at least. -/

def TimerCall.Punctual (ticktime : Int) : TimerCall → Prop
  | .add request => request.delay = true ∧ ticktime ≤ request.timeout
  | .del _ => False

def WheelAction.Punctual (ticktime : Int) : WheelAction → Prop
  | .call made => made.Punctual ticktime
  | .tick script => ∀ uid, ∀ call ∈ (script uid).calls, call.Punctual ticktime

/-- What punctual timers are accepted with; nothing is deleted. -/
def punctualTerms (ticktime : Int) (positive : 0 < ticktime) : Terms where
  ticktime := ticktime
  positive := positive
  accepts tick timeout nexttime := nexttime = tick + timeout ∧ 0 < timeout
  deletes := False

/-- The ticks `a + p`, `a + 2p`, ..., as many of them as the timer is to run. -/
def Expected (a : Nat) (p r : Int) (tick : Nat) : Prop :=
  ∃ k : Nat, 1 ≤ k ∧ (tick : Int) = a + k * p ∧ (0 < r → k ≤ r) ∧ (r = 0 → k = 1)

/-- A timer whose handler has always returned true has run in exactly the ticks it should, once in
each. -/
def OnSchedule {S : Type} (wheel : Wheel S) : Prop :=
  ∀ (uid t a : Nat) (p n r : Int), .accepted uid t a p n r ∈ wheel.log → (∀ tick, .fired uid tick false ∉ wheel.log) →
    (firings uid wheel.log).Nodup ∧ ∀ tick, tick ∈ firings uid wheel.log ↔ tick < wheel.tickcount ∧ Expected a p r tick

namespace Proofs
variable {wheel wheel' : Wheel Sequences}

theorem mem_schedule {first period : Int} {times : Nat} {tick : Int} :
    tick ∈ schedule first period times ↔ ∃ i < times, tick = first + i * period := by
  induction times with
  | zero => simp [schedule]
  | succ times ih =>
    rw [schedule, List.mem_cons, ih]
    constructor
    · rintro (rfl | ⟨i, before, rfl⟩)
      · exact ⟨times, Nat.lt_succ_self _, rfl⟩
      · exact ⟨i, before.trans (Nat.lt_succ_self _), rfl⟩
    · rintro ⟨i, before, rfl⟩
      rcases Nat.lt_succ_iff_lt_or_eq.mp before with earlier | rfl
      · exact .inr ⟨i, earlier, rfl⟩
      · exact .inl rfl

theorem schedule_nodup (first : Int) {period : Int} (positive : 0 < period) (times : Nat) : (schedule first period times).Nodup := by
  induction times with
  | zero => exact .nil
  | succ times ih =>
    refine List.nodup_cons.mpr ⟨?_, ih⟩
    rw [mem_schedule]
    rintro ⟨i, before, same⟩
    have cancelled : (times : Int) * period = i * period := by omega
    have := Int.eq_of_mul_eq_mul_right positive.ne' cancelled
    omega

theorem mem_firings {uid : Nat} {log : List TimerEvent} {timeout nexttime : Int} {times tick : Nat}
    (fired : Fired uid log timeout nexttime times) :
    tick ∈ firings uid log ↔ ∃ i < times, (tick : Int) = nexttime + i * timeout := by
  rw [← mem_schedule, ← fired, List.mem_map_of_injective Nat.cast_injective]

theorem fired_of_mem {uid tick : Nat} {log : List TimerEvent} (member : tick ∈ firings uid log) :
    ∃ result, .fired uid tick result ∈ log := by
  obtain ⟨event, recorded, shown⟩ := List.mem_filterMap.mp member
  cases event with
  | fired of tick' result =>
    simp only [Option.ite_none_right_eq_some, Option.some.injEq] at shown
    obtain ⟨rfl, rfl⟩ := shown
    exact ⟨result, recorded⟩
  | accepted => cases shown
  | deleted => cases shown
  | freed => cases shown

/-- No timer waits for a tick that is over. -/
theorem due_later {terms : Terms} (steady : Steady terms wheel) {t : Nat} (inside : t < wheel.cap)
    (live : (wheel.nodes t).state ≠ .none) : wheel.tickcount ≤ (wheel.nodes t).nexttime := by
  obtain ⟨place, member⟩ := steady.tidy.covered.mp inside
  have fit := steady.tidy.fits member
  cases place with
  | pool => exact absurd fit live
  | todo => cases member
  | list name =>
    cases name with
    | near slot => exact fit.2.2.2.1
    | hanging =>
      obtain ⟨-, -, lower, -⟩ := fit
      have := lt_lapEnd wheel.tickcount
      omega
    | change index => exact fit.2.2.1
    | active => cases member

section
variable {ticktime : Int} {positive : 0 < ticktime}

theorem punctual_meets {call : TimerCall} (length : wheel.ticktime = ticktime) (punctual : call.Punctual ticktime) {next : Nat}
    (soon : next ≤ wheel.tickcount + 1) : CallMeets (punctualTerms ticktime positive) next wheel call := by
  cases call with
  | add request =>
    obtain ⟨delayed, long⟩ := punctual
    have period : 1 ≤ request.timeout.tdiv wheel.ticktime := by
      rw [Int.tdiv_eq_ediv_of_nonneg (by omega)]
      exact (Int.le_ediv_iff_mul_le (length ▸ positive)).mpr (by omega)
    refine .inr ⟨by omega, ?_, ?_, ?_⟩
    · simp only [Wheel.admitted, delayed, if_true]
      omega
    · simp [Wheel.admitted, delayed]
    · simp only [Wheel.admitted]
      omega
  | del timerid => exact punctual.elim

theorem punctual_calls {lap : Nat} {todo : List Nat} {calls : List TimerCall}
    (good : Good (punctualTerms ticktime positive) (wheel.tickcount + 1) lap todo wheel)
    (punctual : ∀ call ∈ calls, call.Punctual ticktime) :
    EachStep Wheel.call (CallMeets (punctualTerms ticktime positive) (wheel.tickcount + 1)) wheel calls := by
  refine eachStep_of_kept (fun calls now => Good (punctualTerms ticktime positive) (wheel.tickcount + 1) lap todo now ∧
    now.tickcount = wheel.tickcount ∧ ∀ call ∈ calls, call.Punctual ticktime) ?_ ?_ ⟨good, rfl, punctual⟩
  · rintro call rest now ⟨good, same, punctual⟩
    exact punctual_meets good.ticktime (punctual call (.head _)) (by rw [same])
  · rintro call rest now after ⟨good, same, punctual⟩ meets called
    obtain ⟨after', called', good', aside⟩ := good.call (.inr (by rw [same]; exact Nat.lt_succ_self _)) meets
    obtain rfl : after = after' := by simpa [called] using called'
    exact ⟨good', aside.tickcount.trans same, fun call member => punctual call (.tail _ member)⟩

/-- A timer has the period it was accepted with. -/
theorem period_positive {next lap : Nat} {todo : List Nat} (good : Good (punctualTerms ticktime positive) next lap todo wheel)
    {t : Nat} (inside : t < wheel.cap) (live : (wheel.nodes t).state ≠ .none) : 0 < (wheel.nodes t).timeout := by
  obtain ⟨tick, timeout, nexttime, repeats, times, entry, -, record⟩ := good.ledger.running inside live
  rw [record.period]
  exact (good.ledger.agreed entry).2

theorem punctual_tick (steady : Steady (punctualTerms ticktime positive) wheel) {script : Nat → HandlerOutcome}
    (punctual : (WheelAction.tick script).Punctual ticktime) : TickMeets (punctualTerms ticktime positive) script wheel := by
  intro loaded loads
  obtain ⟨loaded', loads', now, good, idle⟩ := steady.load
  obtain rfl : loaded = loaded' := by simpa [loads] using loads'
  refine eachStep_of_kept (fun rest now => now.tickcount = loaded.tickcount ∧
    Good (punctualTerms ticktime positive) (loaded.tickcount + 1) (lapEnd loaded.tickcount) rest now) ?_ ?_
    ⟨rfl, Good.collect good idle⟩
  · rintro t rest now ⟨same, good⟩
    have here : t ∈ now.contents (t :: rest) .todo := .head _
    have active : (now.nodes t).state = .active := (good.tidy.fits here).1
    rw [← same] at good
    exact ⟨punctual_calls good (punctual _),
      fun _ _ => period_positive good (good.tidy.covered.mpr ⟨_, here⟩) (by simp [active])⟩
  · rintro t rest now after ⟨same, good⟩ meets handled
    rw [← same] at good ⊢
    obtain ⟨after', handled', good', aside⟩ := good.handleNode (lapEnd_le _) meets
    obtain rfl : after = after' := by simpa [handled] using handled'
    exact ⟨aside.tickcount, good'⟩

theorem punctual_run (steady : Steady (punctualTerms ticktime positive) wheel) {actions : List WheelAction}
    (punctual : ∀ action ∈ actions, action.Punctual ticktime) :
    ∃ wheel', actions.foldlM Wheel.step wheel = some wheel' ∧ Steady (punctualTerms ticktime positive) wheel' := by
  apply steady.run
  refine eachStep_of_kept (fun actions now => Steady (punctualTerms ticktime positive) now ∧
    ∀ action ∈ actions, action.Punctual ticktime) ?_ ?_ ⟨steady, punctual⟩
  · rintro action rest now ⟨steady, punctual⟩
    have this := punctual action (.head _)
    cases action with
    | call call => exact punctual_meets steady.ticktime this (Nat.le_succ _)
    | tick script => exact punctual_tick steady this
  · rintro action rest now after ⟨steady, punctual⟩ meets stepped
    obtain ⟨after', stepped', steady'⟩ := steady.step meets
    obtain rfl : after = after' := by simpa [stepped] using stepped'
    exact ⟨steady', fun action member => punctual action (.tail _ member)⟩

end

def addingScript : Nat → HandlerOutcome
  | 0 => ⟨[.add { everyTick with repeats := 1 }], true⟩
  | _ => ⟨[], true⟩

def addingRun : List WheelAction :=
  .call (.add ⟨true, 2, 2, by decide, by decide⟩) :: List.replicate 5 (.tick addingScript)

end Proofs
end Cassobee
