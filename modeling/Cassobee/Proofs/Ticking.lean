import Cassobee.Proofs.Timely

/-! A whole tick over sequences: what was queued is loaded, the timers that are due are handled, and
at the end of a lap the hanging timers of the next one are regrouped. -/

namespace Cassobee
open Support Proofs

/-- The wheel inside `load_timers`, with the nodes that are still to be loaded. -/
structure Loading (terms : Terms) (lap : Nat) (rest : List Nat) (wheel : Wheel Sequences) : Prop where
  ticktime : wheel.ticktime = terms.ticktime
  tidy : Tidy (Timely wheel.tickcount wheel.tickcount lap) [] wheel
  ledger : Ledger terms wheel.tickcount wheel
  queued : Queued rest wheel
  back : wheel.lists (.change !wheel.frontidx) = []
  front {t : Nat} (member : t ∈ rest) : t ∈ wheel.lists (.change wheel.frontidx)
  waiting {t : Nat} (linked : t ∈ wheel.lists (.change wheel.frontidx)) (waits : (wheel.nodes t).state = .add) : t ∈ rest

theorem Queued.tail {t : Nat} {rest : List Nat} {wheel wheel' : Wheel Sequences} (queued : Queued (t :: rest) wheel)
    (others : ∀ u, u ≠ t → wheel'.nodes u = wheel.nodes u) (cap : wheel'.cap = wheel.cap)
    (kept : (wheel'.nodes t).state ≠ .del) : Queued rest wheel' := by
  obtain ⟨outside, nodup⟩ := List.nodup_cons.mp queued.nodup
  refine ⟨nodup, ?_, ?_⟩
  · intro u member
    have different : u ≠ t := by
      rintro rfl
      exact outside member
    rw [cap, others u different]
    exact queued.states (.tail t member)
  · intro u inside deleted
    have different : u ≠ t := by
      rintro rfl
      exact kept deleted
    rw [others u different] at deleted
    exact (List.mem_cons.mp (queued.pending (cap ▸ inside) deleted)).resolve_left different

namespace Loading
variable {terms : Terms} {lap t : Nat} {rest : List Nat} {wheel wheel' : Wheel Sequences}

/-- The node that has been loaded does not wait any more. -/
theorem loaded (loading : Loading terms lap (t :: rest) wheel)
    (tidy : Tidy (Timely wheel.tickcount wheel.tickcount lap) [] wheel') (ledger : Ledger terms wheel.tickcount wheel')
    (others : ∀ u, u ≠ t → wheel'.nodes u = wheel.nodes u) (done : (wheel'.nodes t).state ≠ .add)
    (kept : (wheel'.nodes t).state ≠ .del) (cap : wheel'.cap = wheel.cap) (ticktime : wheel'.ticktime = wheel.ticktime)
    (tickcount : wheel'.tickcount = wheel.tickcount) (frontidx : wheel'.frontidx = wheel.frontidx)
    (changes : ∀ index, wheel'.lists (.change index) = wheel.lists (.change index)) : Loading terms lap rest wheel' := by
  refine ⟨?_, ?_, ?_, loading.queued.tail others cap kept, ?_, ?_, ?_⟩
  · rw [ticktime]
    exact loading.ticktime
  · rw [tickcount]
    exact tidy
  · rw [tickcount]
    exact ledger
  · rw [frontidx, changes]
    exact loading.back
  · intro u member
    rw [frontidx, changes]
    exact loading.front (.tail t member)
  · intro u linked waits
    have different : u ≠ t := by
      rintro rfl
      exact done waits
    rw [frontidx, changes] at linked
    rw [others u different] at waits
    exact (List.mem_cons.mp (loading.waiting linked waits)).resolve_left different

theorem add (loading : Loading terms lap (t :: rest) wheel) (lap_le : lap ≤ wheel.tickcount + nearSlots)
    (waits : (wheel.nodes t).state = .add) :
    Loading terms lap rest (wheel.put (wheel.home t) t { wheel.nodes t with state := .active }) := by
  have here : t ∈ wheel.contents [] (.list (.change wheel.frontidx)) :=
    List.mem_filter.mpr ⟨loading.front (.head _), by simpa using waits⟩
  obtain ⟨-, periodic, lower, upper⟩ := loading.tidy.fits here
  refine loading.loaded ?_ ?_ (fun u different => Function.update_of_ne different _ _) ?_ ?_ rfl rfl rfl rfl
    (fun _ => put_other home_ne_change)
  · exact loading.tidy.load here home_isHome (by simp) (timely_home rfl rfl periodic le_rfl lower upper lap_le)
  · exact loading.ledger.settle (loading.tidy.covered.mpr ⟨_, here⟩) (by simp [waits]) (by simp [waits]) (by simp) (by simp)
      rfl rfl rfl rfl
  · simp [Wheel.put]
  · simp [Wheel.put]

/-- `remove_timer` pops the node from the list it is in. -/
theorem located (loading : Loading terms lap (t :: rest) wheel) (ahead : wheel.tickcount < lap)
    (aligned : wheel.tickcount % nearSlots = 0 → wheel.tickcount + nearSlots ≤ lap)
    (deleted : (wheel.nodes t).state = .del) : t ∈ wheel.contents [] (.list (wheel.sought t)) := by
  have inside : t < wheel.cap := (loading.queued.states (.head _)).1
  obtain ⟨place, here⟩ := loading.tidy.covered.mp inside
  have fit := loading.tidy.fits here
  cases place with
  | pool => simp [Timely, deleted] at fit
  | todo => cases here
  | list name =>
    cases name with
    | near slot =>
      obtain ⟨state, -, slot_eq, lower, upper⟩ := fit
      obtain ⟨-, locatable⟩ := state.resolve_left (by simp [deleted])
      have left := ticksLeft_eq lower (by simp only [nearSlots] at upper; omega)
      have same : wheel.sought t = .near slot := by
        rw [Wheel.sought, if_neg (by omega)]
        congr 1
        simp only [Locatable, nearSlots] at locatable upper slot_eq ⊢
        split <;> omega
      rw [same]
      exact here
    | hanging =>
      obtain ⟨state, -, lower, upper⟩ := fit
      obtain ⟨-, locatable⟩ := state.resolve_left (by simp [deleted])
      have left := ticksLeft_eq (by omega) upper
      have same : wheel.sought t = .hanging := by
        apply if_pos
        rcases locatable with far | lapStart | now
        · omega
        · have := aligned lapStart
          omega
        · omega
      rw [same]
      exact here
    | change index => simp [Timely, deleted] at fit
    | active => cases here

theorem remove (loading : Loading terms lap (t :: rest) wheel) {name : ListName} (isHome : name.isHome)
    (here : t ∈ wheel.contents [] (.list name)) (deleted : (wheel.nodes t).state = .del) :
    Loading terms lap rest ((wheel.dropped name t).freeTimer t) := by
  have inside : t < wheel.cap := (loading.queued.states (.head _)).1
  refine loading.loaded (loading.tidy.remove isHome here rfl) ?_ (fun u different => Function.update_of_ne different _ _) ?_ ?_
    rfl rfl rfl rfl ?_
  · exact loading.ledger.remove inside deleted rfl rfl rfl rfl
  · simp [Wheel.freeTimer, Wheel.setState, Wheel.setNode, Wheel.record]
  · simp [Wheel.freeTimer, Wheel.setState, Wheel.setNode, Wheel.record]
  · intro index
    refine Function.update_of_ne ?_ _ _
    rintro rfl
    cases isHome

theorem loadTimer (loading : Loading terms lap (t :: rest) wheel) (ahead : wheel.tickcount < lap)
    (lap_le : lap ≤ wheel.tickcount + nearSlots)
    (aligned : wheel.tickcount % nearSlots = 0 → wheel.tickcount + nearSlots ≤ lap) :
    ∃ wheel', Wheel.loadTimer t wheel = some wheel' ∧ Loading terms lap rest wheel' ∧ wheel'.tickcount = wheel.tickcount := by
  rcases (loading.queued.states (.head _)).2 with waits | deleted
  · refine ⟨_, ?_, loading.add lap_le waits, rfl⟩
    rw [Wheel.loadTimer, waits]
    exact readdTimer_eq wheel t
  · have here := loading.located ahead aligned deleted
    refine ⟨_, ?_, loading.remove sought_isHome here deleted, rfl⟩
    rw [Wheel.loadTimer, deleted]
    exact removeTimer_eq ((Wheel.mem_home sought_isHome).mp here)

theorem done (loading : Loading terms lap [] wheel) :
    Good terms wheel.tickcount lap [] (wheel.clear (.change wheel.frontidx)) := by
  have cleared : (wheel.clear (.change wheel.frontidx)).lists (.change wheel.frontidx) = [] := by
    simp [Wheel.clear, TimerLists.clear, Sequences.clear]
  have back : (wheel.clear (.change wheel.frontidx)).lists (.change !wheel.frontidx) = [] := by
    rw [clear_other (by simp)]
    exact loading.back
  refine ⟨loading.ticktime, ?_, loading.ledger.transfer rfl rfl rfl rfl, ?_, cleared, by simp⟩
  · refine loading.tidy.congr ?_ rfl rfl
    intro place
    cases place with
    | pool => rfl
    | todo => rfl
    | list name =>
      cases name with
      | near slot => exact clear_other (by simp)
      | hanging => exact clear_other (by simp)
      | active => rfl
      | change index =>
        by_cases front : index = wheel.frontidx
        · have nothing : wheel.contents [] (.list (.change wheel.frontidx)) = [] := by
            rw [Wheel.contents, List.filter_eq_nil_iff]
            intro t linked waits
            cases loading.waiting linked (by simpa using waits)
          rw [front, nothing, Wheel.contents, cleared]
          rfl
        · simp only [Wheel.contents]
          rw [clear_other (by simpa using front)]
          rfl
  · have empty : Queued [] (wheel.clear (.change wheel.frontidx)) :=
      ⟨loading.queued.nodup, loading.queued.states, loading.queued.pending⟩
    rw [← back] at empty
    exact empty

end Loading

namespace Good
variable {terms : Terms} {lap : Nat} {wheel : Wheel Sequences}

theorem loading (good : Good terms wheel.tickcount lap [] wheel) :
    Loading terms lap (wheel.lists (.change !wheel.frontidx)) wheel.switchChangelist := by
  refine ⟨good.ticktime, ?_, good.ledger.transfer rfl rfl rfl rfl, ?_, ?_, fun member => member, fun linked _ => linked⟩
  · exact good.tidy.congr (fun place => by cases place <;> rfl) rfl rfl
  · exact ⟨good.queued.nodup, good.queued.states, good.queued.pending⟩
  · simpa [Wheel.switchChangelist] using good.front

/-- Everything that was queued is loaded, and nothing waits any more. -/
theorem loadTimers (good : Good terms wheel.tickcount lap [] wheel) (ahead : wheel.tickcount < lap)
    (lap_le : lap ≤ wheel.tickcount + nearSlots)
    (aligned : wheel.tickcount % nearSlots = 0 → wheel.tickcount + nearSlots ≤ lap) :
    ∃ wheel', wheel.switchChangelist.loadTimers = some wheel' ∧ Good terms wheel.tickcount lap [] wheel' ∧
      wheel'.tickcount = wheel.tickcount ∧ wheel'.lists (.change !wheel'.frontidx) = [] := by
  obtain ⟨final, walked, loading, now⟩ := foldlM_keeps
    (fun rest now => Loading terms lap rest now ∧ now.tickcount = wheel.tickcount) (by
      rintro t rest now ⟨loading, same⟩
      rw [← same] at ahead lap_le aligned ⊢
      exact loading.loadTimer ahead lap_le aligned) ⟨good.loading, rfl⟩
  refine ⟨final.clear (.change final.frontidx), ?_, now ▸ loading.done, now, ?_⟩
  · rw [loadTimers_eq]
    exact congrArg (Option.map fun wheel => wheel.clear (.change wheel.frontidx)) walked
  · exact Eq.trans (clear_other (by simp [Wheel.clear])) loading.back

/-- The wheel after `++_tickcount`. -/
theorem advance (good : Good terms (wheel.tickcount + 1) lap [] wheel) :
    Good terms (wheel.tickcount + 1) lap [] { wheel with tickcount := wheel.tickcount + 1 } := by
  refine ⟨good.ticktime, ?_, good.ledger.transfer rfl rfl rfl rfl,
    ⟨good.queued.nodup, good.queued.states, good.queued.pending⟩, good.front, by simp⟩
  have tidy : Tidy (Timely (wheel.tickcount + 1) (wheel.tickcount + 1) lap) [] wheel := by
    apply good.tidy.mono
    intro place t member fit
    cases place with
    | pool => exact fit
    | todo => cases member
    | list name =>
      cases name with
      | near slot =>
        obtain ⟨state, periodic, slot, lower, upper⟩ := fit
        exact ⟨state, periodic, slot, lower, by push_cast; omega⟩
      | hanging =>
        obtain ⟨state, periodic, lower, upper⟩ := fit
        exact ⟨state, periodic, lower, by push_cast; omega⟩
      | change index =>
        obtain ⟨state, periodic, lower, upper⟩ := fit
        exact ⟨state, periodic, lower, by push_cast; omega⟩
      | active => cases member
  exact ⟨tidy.apart, tidy.fits, tidy.covered⟩

theorem regroupTimer (good : Good terms wheel.tickcount wheel.tickcount [] wheel) {t : Nat}
    (here : t ∈ wheel.lists .hanging) :
    ∃ wheel', Wheel.regroupTimer t wheel = some wheel' ∧ Good terms wheel.tickcount wheel.tickcount [] wheel' ∧
      wheel'.tickcount = wheel.tickcount ∧ wheel'.nodes = wheel.nodes ∧
      (wheel'.lists .hanging = (wheel.lists .hanging).erase t ∨
        wheel'.lists .hanging = wheel.lists .hanging ∧ wheel.tickcount + nearSlots ≤ (wheel.nodes t).nexttime) := by
  have member : t ∈ wheel.contents [] (.list .hanging) := here
  obtain ⟨state, periodic, lower, upper⟩ := good.tidy.fits member
  have left := ticksLeft_eq lower upper
  by_cases close : wheel.ticksLeft t < nearSlots
  · obtain ⟨slot, slot_eq⟩ : ∃ slot, slot = ((wheel.nodes t).nexttime % (nearSlots : Int)).toNat := ⟨_, rfl⟩
    have chosen : (wheel.dropped .hanging t).nearSlot t = slot := (nearSlot_eq lower upper).trans slot_eq.symm
    have nodes : ((wheel.dropped .hanging t).put (.near slot) t (wheel.nodes t)).nodes = wheel.nodes :=
      Function.update_eq_self t wheel.nodes
    have pushed : (wheel.dropped .hanging t).push (.near slot) t =
        some ((wheel.dropped .hanging t).put (.near slot) t (wheel.nodes t)) := by
      simp [Wheel.push, TimerLists.pushBack, Wheel.put, Wheel.dropped]
    have changes (index : Bool) : ((wheel.dropped .hanging t).put (.near slot) t (wheel.nodes t)).lists (.change index) =
        wheel.lists (.change index) := by
      rw [put_other (by simp), dropped_other (by simp)]
    have waits : (wheel.nodes t).state ≠ .add := by
      rcases state with active | ⟨deleted, -⟩
      · simp [active]
      · simp [deleted]
    refine ⟨(wheel.dropped .hanging t).put (.near slot) t (wheel.nodes t), ?_,
      ⟨good.ticktime, ?_, good.ledger.transfer nodes rfl rfl rfl, ?_, (changes _).trans good.front, by simp⟩, rfl, nodes, .inl ?_⟩
    · rw [Wheel.regroupTimer, if_pos close, unlink_eq here, Option.bind_eq_bind, Option.bind_some, chosen, pushed]
    · exact good.tidy.regroup member waits ⟨state, periodic, slot_eq, lower, by omega⟩
    · rw [changes]
      refine ⟨good.queued.nodup, ?_, ?_⟩
      · rw [nodes]
        exact good.queued.states
      · rw [nodes]
        exact good.queued.pending
    · rw [put_other (by simp), dropped_same]
  · refine ⟨wheel, ?_, good, rfl, rfl, .inr ⟨rfl, by omega⟩⟩
    rw [Wheel.regroupTimer, if_neg close]

theorem regroupTimers {tick : Nat} (good : Good terms tick tick [] wheel) (now : wheel.tickcount = tick) :
    ∃ wheel', wheel.regroupTimers = some wheel' ∧ wheel'.tickcount = tick ∧
      Good terms tick (tick + nearSlots) [] wheel' := by
  subst now
  obtain ⟨final, walked, good', now, nodes, -, -, far⟩ := foldlM_keeps (fun rest now =>
    Good terms wheel.tickcount wheel.tickcount [] now ∧ now.tickcount = wheel.tickcount ∧ now.nodes = wheel.nodes ∧
    rest.Nodup ∧ (∀ t ∈ rest, t ∈ now.lists .hanging) ∧
    ∀ t ∈ now.lists .hanging, t ∈ rest ∨ wheel.tickcount + nearSlots ≤ (wheel.nodes t).nexttime) (by
      rintro t rest now ⟨good, same, nodes, nodup, linked, far⟩
      obtain ⟨outside, nodup⟩ := List.nodup_cons.mp nodup
      rw [← same] at good ⊢
      obtain ⟨after, regrouped, good', same', nodes', hanging⟩ := good.regroupTimer (linked t (.head _))
      refine ⟨after, regrouped, good', same', nodes'.trans nodes, nodup, ?_, ?_⟩
      · intro u member
        have before := linked u (.tail t member)
        rcases hanging with erased | ⟨kept, -⟩
        · have different : u ≠ t := by
            rintro rfl
            exact outside member
          rwa [erased, List.mem_erase_of_ne different]
        · rwa [kept]
      · intro u member
        rcases hanging with erased | ⟨kept, late⟩
        · have distinct : (now.lists .hanging).Nodup := good.tidy.apart.nodup (.list .hanging)
          rw [erased, distinct.mem_erase_iff] at member
          obtain ⟨different, before⟩ := member
          rw [same]
          exact (far u before).imp_left fun found => (List.mem_cons.mp found).resolve_left different
        · rw [kept] at member
          by_cases this : u = t
          · subst this
            rw [nodes] at late
            exact .inr late
          · rw [same]
            exact (far u member).imp_left fun found => (List.mem_cons.mp found).resolve_left this) ⟨good, rfl, rfl, good.tidy.apart.nodup (.list .hanging), fun _ member => member, fun _ member => .inl member⟩
  refine ⟨final, (forEach_eq _ _ _).trans walked, now, good'.ticktime, ?_, good'.ledger, good'.queued, good'.front, by simp⟩
  apply good'.tidy.mono
  intro place t member fit
  cases place with
  | pool => exact fit
  | todo => cases member
  | list name =>
    cases name with
    | near slot => exact fit
    | hanging =>
      obtain ⟨state, periodic, -, upper⟩ := fit
      have late := (far t member).resolve_left (by simp)
      rw [← nodes] at late
      exact ⟨state, periodic, by exact_mod_cast late, upper⟩
    | change index => exact fit
    | active => cases member

end Good

/-- The wheel between ticks. -/
def Steady (terms : Terms) (wheel : Wheel Sequences) : Prop :=
  Good terms wheel.tickcount (lapEnd wheel.tickcount) [] wheel

/-- What the handlers that a tick runs must meet, each in the state it finds. -/
def TickMeets (terms : Terms) (script : Nat → HandlerOutcome) (wheel : Wheel Sequences) : Prop :=
  ∀ loaded, wheel.switchChangelist.loadTimers = some loaded →
    EachStep (fun wheel t => Wheel.handleNode script t wheel) (HandlerMeets terms script) loaded.collected
      (loaded.lists (.near (loaded.tickcount % nearSlots)))

theorem lapEnd_start {tick : Nat} (first : tick % nearSlots = 0) : lapEnd tick = tick + nearSlots := by
  rw [lapEnd, Nat.succ_mul, Nat.div_mul_cancel (Nat.dvd_of_mod_eq_zero first)]

theorem lapEnd_last {tick : Nat} (last : (tick + 1) % nearSlots = 0) : lapEnd tick = tick + 1 := by
  simp only [lapEnd, nearSlots] at last ⊢
  omega

theorem lapEnd_inside {tick : Nat} (inside : (tick + 1) % nearSlots ≠ 0) : lapEnd (tick + 1) = lapEnd tick := by
  simp only [lapEnd, nearSlots] at inside ⊢
  omega

namespace Steady
variable {terms : Terms} {wheel : Wheel Sequences}

theorem load (steady : Steady terms wheel) :
    ∃ loaded, wheel.switchChangelist.loadTimers = some loaded ∧ loaded.tickcount = wheel.tickcount ∧ Steady terms loaded ∧
      loaded.lists (.change !loaded.frontidx) = [] := by
  obtain ⟨loaded, computed, good, now, idle⟩ := Good.loadTimers steady (lt_lapEnd _) (lapEnd_le _)
    fun lapStart => (lapEnd_start lapStart).ge
  refine ⟨loaded, computed, now, ?_, idle⟩
  rw [Steady, now]
  exact good

theorem tick (steady : Steady terms wheel) {script : Nat → HandlerOutcome} (meets : TickMeets terms script wheel) :
    ∃ wheel', wheel.tick script = some wheel' ∧ wheel'.tickcount = wheel.tickcount + 1 ∧ Steady terms wheel' := by
  obtain ⟨loaded, loads, now, good, idle⟩ := steady.load
  obtain ⟨handled, handles, now', good'⟩ := Good.handleTimer good idle (lapEnd_le _) (meets loaded loads)
  rw [← now'] at good'
  have advanced := good'.advance
  rw [tick_eq loads handles, ← now, ← now']
  by_cases lapStart : (handled.tickcount + 1) % nearSlots = 0
  · rw [lapEnd_last lapStart] at advanced
    obtain ⟨final, regrouped, now'', final_good⟩ := advanced.regroupTimers rfl
    refine ⟨final, (if_pos lapStart).trans regrouped, now'', ?_⟩
    rw [Steady, now'', lapEnd_start lapStart]
    exact final_good
  · refine ⟨_, if_neg lapStart, rfl, ?_⟩
    rw [← lapEnd_inside lapStart] at advanced
    exact advanced

end Steady
end Cassobee
