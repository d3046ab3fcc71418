import Cassobee.Proofs.Doomed

/-! A tick over links while nodes are to be removed: `load_timers` takes them out, the handlers may
delete others, and `regroup_timers` must keep off the lists of these. -/

namespace Cassobee
open Support

/-- No node goes to a list that has one to be removed. -/
def LoadClean (wheel : Wheel Sequences) (t : Nat) : Prop := (wheel.nodes t).state = .add → ¬ wheel.Pending (wheel.home t)

namespace Proofs
variable {wheel : Wheel Sequences} {links : Links} {t : Nat}

theorem removeTimer_over {links' : Links} (popped : links.pop (wheel.sought t) t = some links') :
    (wheel.over links).removeTimer t = some (((wheel.dropped (wheel.sought t) t).freeTimer t).over links') := by
  rw [Wheel.removeTimer]
  change ((wheel.over links).unlink (wheel.sought t) t).bind _ = _
  rw [unlink_over popped]
  rfl

end Proofs

/-- The node that waits goes back to the pool. -/
theorem Filling.discard {t : Nat} {rest : List Nat} {wheel : Wheel Sequences} {links : Links}
    (filling : Filling (t :: rest) wheel links) : Filling rest (wheel.freeTimer t) links := by
  have here := filling.front (.head _)
  obtain ⟨outside, distinct⟩ := List.nodup_cons.mp filling.distinct
  have other {u : Nat} (member : u ∈ rest) : u ≠ t := by
    rintro rfl
    exact outside member
  have same (u : Nat) (different : u ≠ t) : (wheel.freeTimer t).nodes u = wheel.nodes u := Function.update_of_ne different _ _
  have gone : ((wheel.freeTimer t).nodes t).state = .none := by
    simp [Wheel.freeTimer, Wheel.setState, Wheel.setNode, Wheel.record]
  refine ⟨⟨filling.woven.tidy.discard here rfl, filling.woven.mirror, ?_, filling.woven.bounded⟩, filling.chain.tail, distinct,
    fun {u} member => ?_, fun {u} member => ?_⟩
  · intro index u read linked
    refine filling.woven.revised here ?_ same read linked
    rintro name this
    cases this
    rfl
  · obtain ⟨linked, state⟩ := List.mem_filter.mp (filling.front (.tail _ member))
    refine List.mem_filter.mpr ⟨linked, ?_⟩
    rw [same u (other member)]
    exact state
  · obtain ⟨linked, state⟩ := List.mem_filter.mp member
    have different : u ≠ t := by
      rintro rfl
      simp [gone] at state
    rw [same u different] at state
    exact (List.mem_cons.mp (filling.waiting (List.mem_filter.mpr ⟨linked, state⟩))).resolve_left different

/-- The wheel inside `load_timers` when there are nodes to be removed. -/
structure Emptying (held : ListName → Bool) (rest : List Nat) (wheel : Wheel Sequences) (links : Links) : Prop where
  filling : Filling rest (wheel.hide held) (links.hide held)
  doomed : Doomed held (.change wheel.frontidx) [] wheel links

namespace Emptying
open Links Proofs
variable {held : ListName → Bool} {rest : List Nat} {wheel : Wheel Sequences} {links : Links} {t : Nat} {name : ListName}

theorem add (emptying : Emptying held (t :: rest) wheel links) (waits : (wheel.nodes t).state = .add)
    (apart : held (wheel.home t) = false) :
    ∃ links', links.pushBack (wheel.home t) t = some links' ∧
      Emptying held rest (wheel.put (wheel.home t) t { wheel.nodes t with state := .active }) links' := by
  obtain ⟨after, shown, real, ideal, filling⟩ := emptying.filling.loadTimer
  have here := emptying.filling.front (.head _)
  have waits' : ((wheel.hide held).nodes t).state = .add := emptying.filling.woven.tidy.fits here
  have node : ({ (wheel.hide held).nodes t with state := .active } : TimerNode) = { wheel.nodes t with state := .active } := by
    simp [Wheel.hide]
  have after_eq : after = (wheel.put (wheel.home t) t { wheel.nodes t with state := .active }).hide held := by
    rw [Wheel.loadTimer, waits', readdTimer_eq, hide_home, node, ← hide_put apart (by simp)] at ideal
    exact (Option.some.inj ideal).symm
  obtain ⟨shown', pushed, woven, -⟩ := emptying.filling.woven.load here
  have same : shown' = shown := by
    have loaded := readdTimer_over pushed
    rw [Wheel.loadTimer, show (((wheel.hide held).over (links.hide held)).nodes t).state = .add from waits', loaded] at real
    exact congrArg Wheel.lists (Option.some.inj real)
  rw [same, hide_home, hide_pushBack apart, Option.map_eq_some_iff] at pushed
  obtain ⟨links', pushed', rfl⟩ := pushed
  rw [after_eq] at filling
  refine ⟨links', pushed', filling, emptying.doomed.keep filling.woven (fun name is => ?_) (fun name is => ?_)
    (fun u different => Function.update_of_ne different _ _) (by simp [waits]) ?_⟩
  · exact put_other fun same => by simp [same, apart] at is
  · exact pushBack_elsewhere pushed' fun same => by simp [same, apart] at is
  · simp [Wheel.put]

theorem remove (emptying : Emptying held (t :: rest) wheel links) (deleted : (wheel.nodes t).state = .del)
    (is : held name = true) (alone : wheel.lists name = [t])
    (only : ∀ other : ListName, other.isHome → t ∈ wheel.lists other → other = name) :
    ∃ links', links.pop name t = some links' ∧
      Emptying (Function.update held name false) rest ((wheel.dropped name t).freeTimer t) links' := by
  obtain ⟨isHome, t', single, -, head, count⟩ := emptying.doomed.alone is
  obtain rfl : t = t' := List.singleton_inj.mp (alone.symm.trans single)
  have back {other : ListName} (different : other ≠ name) : Function.update held name false other = held other :=
    Function.update_of_ne different _ _
  have lists : ((wheel.dropped name t).freeTimer t).hide (Function.update held name false) = (wheel.hide held).freeTimer t := by
    rw [hide_freeTimer]
    congr 1
    simp only [Wheel.hide, Wheel.dropped, Sequences.hide, alone, List.erase_cons_head]
    congr 1
    funext other
    by_cases same : other = name
    · subst same
      simp [ListName.shown, is]
    · simp [ListName.shown, same]
  have hidden : ({ links with head := Function.update links.head name none, count := Function.update links.count name 0 } :
      Links).hide (Function.update held name false) = links.hide held := by
    simp only [Links.hide]
    congr 1
    · funext other
      by_cases same : other = name
      · subst same
        simp [ListName.shown, is]
      · simp [ListName.shown, same]
    · funext other
      by_cases same : other = name
      · subst same
        simp [ListName.shown, is]
      · simp [ListName.shown, same]
  have node {u : Nat} (different : u ≠ t) : ((wheel.dropped name t).freeTimer t).nodes u = wheel.nodes u :=
    Function.update_of_ne different _ _
  have filling := emptying.filling.discard
  rw [← lists, ← hidden] at filling
  refine ⟨_, pop_single head count, filling, filling.woven, fun {other} held' => ?_, fun {u} deleted' => ?_⟩
  · have different : other ≠ name := by
      rintro rfl
      simp at held'
    rw [back different] at held'
    obtain ⟨isHome', u, alone', deleted', head', count'⟩ := emptying.doomed.alone held'
    have elsewhere : u ≠ t := by
      rintro rfl
      exact different (only other isHome' (alone' ▸ .head _))
    refine ⟨isHome', u, (dropped_other different).trans alone', ?_, (Function.update_of_ne different _ _).trans head',
      (Function.update_of_ne different _ _).trans count'⟩
    rw [node elsewhere]
    exact deleted'
  · have elsewhere : u ≠ t := by
      rintro rfl
      simp [Wheel.freeTimer, Wheel.setState, Wheel.setNode, Wheel.record] at deleted'
    rw [node elsewhere] at deleted'
    obtain ⟨other, held', alone'⟩ := emptying.doomed.found deleted'
    have different : other ≠ name := by
      rintro rfl
      exact elsewhere (List.singleton_inj.mp (alone'.symm.trans alone))
    exact ⟨other, (back different).trans held', (dropped_other different).trans alone'⟩

theorem loadTimer {terms : Terms} {lap : Nat} (emptying : Emptying held (t :: rest) wheel links)
    (loading : Loading terms lap (t :: rest) wheel) (ahead : wheel.tickcount < lap)
    (aligned : wheel.tickcount % nearSlots = 0 → wheel.tickcount + nearSlots ≤ lap) (clean : LoadClean wheel t) :
    ∃ held' after links', Wheel.loadTimer t (wheel.over links) = some (after.over links') ∧ Wheel.loadTimer t wheel = some after ∧
      Emptying held' rest after links' := by
  rcases (loading.queued.states (.head _)).2 with waits | deleted
  · obtain ⟨links', pushed, emptying'⟩ := emptying.add waits (emptying.doomed.apart (clean waits))
    refine ⟨held, _, links', ?_, ?_, emptying'⟩
    · rw [Wheel.loadTimer, show ((wheel.over links).nodes t).state = .add from waits]
      exact readdTimer_over pushed
    · rw [Wheel.loadTimer, waits]
      exact readdTimer_eq wheel t
  · have here := loading.located ahead aligned deleted
    have only (other : ListName) (isHome : other.isHome) (there : t ∈ wheel.lists other) : other = wheel.sought t := by
      simpa using loading.tidy.apart.only ((Wheel.mem_home isHome).mpr there) here
    obtain ⟨name, is, alone⟩ := emptying.doomed.found deleted
    obtain rfl := only name (emptying.doomed.alone is).1 (alone ▸ .head _)
    obtain ⟨links', popped, emptying'⟩ := emptying.remove deleted is alone only
    refine ⟨_, _, links', ?_, ?_, emptying'⟩
    · rw [Wheel.loadTimer, show ((wheel.over links).nodes t).state = .del from deleted]
      exact removeTimer_over popped
    · rw [Wheel.loadTimer, deleted]
      exact removeTimer_eq ((Wheel.mem_home sought_isHome).mp here)

/-- Nothing is to be removed any more. -/
theorem done {terms : Terms} {lap : Nat} (emptying : Emptying held [] wheel links) (loading : Loading terms lap [] wheel) :
    Filling [] wheel links ∧ ∀ t, (wheel.nodes t).state ≠ .del := by
  have kept (t : Nat) : (wheel.nodes t).state ≠ .del := by
    intro deleted
    obtain ⟨name, is, alone⟩ := emptying.doomed.found deleted
    have here : t ∈ wheel.contents [] (.list name) := (Wheel.mem_home (emptying.doomed.alone is).1).mpr (alone ▸ .head _)
    cases loading.queued.pending (loading.tidy.covered.mpr ⟨_, here⟩) deleted
  have nothing : held = fun _ => false := by
    funext name
    by_contra is
    obtain ⟨-, t, -, deleted, -⟩ := emptying.doomed.alone (Bool.not_eq_false _ ▸ is)
    exact kept t deleted
  have filling := emptying.filling
  rw [nothing, hide_nothing kept] at filling
  exact ⟨filling, kept⟩

end Emptying

namespace Doomed
open Links Proofs
variable {held : ListName → Bool} {wheel : Wheel Sequences} {links : Links}

theorem loadTimers {terms : Terms} {lap : Nat} (doomed : Doomed held .active [] wheel links)
    (loading : Loading terms lap (wheel.lists (.change wheel.frontidx)) wheel) (ahead : wheel.tickcount < lap)
    (lap_le : lap ≤ wheel.tickcount + nearSlots)
    (aligned : wheel.tickcount % nearSlots = 0 → wheel.tickcount + nearSlots ≤ lap)
    (clean : EachStep (fun wheel t => Wheel.loadTimer t wheel) LoadClean wheel (wheel.lists (.change wheel.frontidx))) :
    ∃ after links', (wheel.over links).loadTimers = some (after.over links') ∧ wheel.loadTimers = some after ∧
      Woven .active [] after links' ∧ ∀ t, (after.nodes t).state ≠ .del := by
  have front : ListName.change wheel.frontidx ≠ .active := by simp
  have unheld := doomed.unheld (.change wheel.frontidx) rfl
  have shown : (wheel.hide held).lists (.change wheel.frontidx) = wheel.lists (.change wheel.frontidx) := shown_apart unheld
  have filling := doomed.woven.filling
  have start : Emptying held (wheel.lists (.change wheel.frontidx)) wheel links := by
    rw [show (wheel.hide held).frontidx = wheel.frontidx from rfl, shown] at filling
    exact ⟨filling, filling.woven, doomed.alone, doomed.found⟩
  have head : links.head (.change wheel.frontidx) = (wheel.lists (.change wheel.frontidx)).head? := by
    rw [← shown, ← doomed.woven.mirror.head front front]
    exact (shown_apart unheld).symm
  have count : links.count (.change wheel.frontidx) = (wheel.lists (.change wheel.frontidx)).length := by
    rw [← shown, ← doomed.woven.mirror.count front front]
    exact (shown_apart unheld).symm
  obtain ⟨after, links', real, loaded, held', emptying, loading', -⟩ := walk_follows
    (fun rest now links => ∃ held, Emptying held rest now links ∧ Loading terms lap rest now ∧
      now.tickcount = wheel.tickcount ∧ EachStep (fun wheel t => Wheel.loadTimer t wheel) LoadClean now rest)
    (by
      rintro t u rest now links ⟨held, emptying, -⟩
      exact (List.isChain_cons_cons.mp emptying.filling.chain).1)
    (by
      rintro t rest now links ⟨held, emptying, loading, same, clean, later⟩
      rw [← same] at ahead lap_le aligned ⊢
      obtain ⟨held', after, links', real, ideal, emptying'⟩ := emptying.loadTimer loading ahead aligned clean
      obtain ⟨after', ideal', loading', same'⟩ := loading.loadTimer ahead lap_le aligned
      cases ideal.symm.trans ideal'
      exact ⟨after, links', real, ideal, held', emptying', loading', same', later after ideal⟩)
    ⟨held, start, loading, rfl, clean⟩ fun _ => head
  obtain ⟨filling', kept⟩ := emptying.done loading'
  refine ⟨after.clear (.change after.frontidx), links'.clear (.change after.frontidx), ?_, ?_, filling'.done, kept⟩
  · exact loadTimers_over count real
  · rw [loadTimers_eq, loaded]
    rfl

end Doomed

/-- No hanging node whose tick is near leaves a list, or goes to one, that has a node to be removed. -/
def RegroupClean (wheel : Wheel Sequences) : Prop :=
  ∀ t ∈ wheel.lists .hanging, wheel.ticksLeft t < nearSlots →
    ¬ wheel.Pending .hanging ∧ ¬ wheel.Pending (.near (wheel.nearSlot t))

structure TickClean (script : Nat → HandlerOutcome) (wheel : Wheel Sequences) : Prop where
  load : EachStep (fun wheel t => Wheel.loadTimer t wheel) LoadClean wheel.switchChangelist (wheel.lists (.change !wheel.frontidx))
  walk {loaded : Wheel Sequences} (loads : wheel.switchChangelist.loadTimers = some loaded) :
    WalkClean script [] (loaded.lists (.near (loaded.tickcount % nearSlots))) loaded.collected
  regroup {loaded handled : Wheel Sequences} (loads : wheel.switchChangelist.loadTimers = some loaded)
    (handles : loaded.handleTimer script = some handled) (lap : (handled.tickcount + 1) % nearSlots = 0) :
    RegroupClean { handled with tickcount := handled.tickcount + 1 }

def StepClean (wheel : Wheel Sequences) : WheelAction → Prop
  | .call call => CallClean wheel call
  | .tick script => TickClean script wheel

namespace Doomed
open Links Proofs
variable {held : ListName → Bool} {wheel : Wheel Sequences} {links : Links} {t : Nat}

theorem regroupTimer (doomed : Doomed held .active [] wheel links) {kept rest : List Nat} (unheld : held .hanging = false)
    (hanging : wheel.lists .hanging = kept ++ t :: rest)
    (apart : wheel.ticksLeft t < nearSlots → held (.near (wheel.nearSlot t)) = false) :
    ∃ after links' kept', Wheel.regroupTimer t (wheel.over links) = some (after.over links') ∧
      Wheel.regroupTimer t wheel = some after ∧ Doomed held .active [] after links' ∧ after.lists .hanging = kept' ++ rest ∧
      after.nodes = wheel.nodes ∧ after.tickcount = wheel.tickcount ∧ after.lists .active = wheel.lists .active := by
  by_cases close : wheel.ticksLeft t < nearSlots
  · have linked : t ∈ wheel.lists .hanging := by simp [hanging]
    have shown : (wheel.hide held).lists .hanging = wheel.lists .hanging := shown_apart unheld
    have linked' : t ∈ (wheel.hide held).lists .hanging := shown ▸ linked
    have active : (wheel.nodes t).shown.state = .active := by
      have member : t ∈ (wheel.hide held).contents [] (.list .hanging) := linked'
      exact doomed.woven.tidy.fits member
    have alive : (wheel.nodes t).state ≠ .del := by
      intro deleted
      simp [TimerNode.shown, deleted] at active
    have free := apart close
    obtain ⟨first, second, popped, pushed, woven⟩ := doomed.woven.regroup linked' (wheel.nearSlot t)
    rw [hide_pop unheld, Option.map_eq_some_iff] at popped
    obtain ⟨links', popped', rfl⟩ := popped
    rw [hide_pushBack free, Option.map_eq_some_iff] at pushed
    obtain ⟨links'', pushed', rfl⟩ := pushed
    rw [show (wheel.hide held).nodes t = wheel.nodes t from shown_eq alive, ← hide_dropped unheld, ← hide_put free alive] at woven
    have nodes : ((wheel.dropped .hanging t).put (.near (wheel.nearSlot t)) t (wheel.nodes t)).nodes = wheel.nodes :=
      Function.update_eq_self t wheel.nodes
    have other {name : ListName} (is : held name = true) : name ≠ .hanging ∧ name ≠ .near (wheel.nearSlot t) := by
      constructor
      · rintro rfl
        simp [unheld] at is
      · rintro rfl
        simp [free] at is
    refine ⟨_, links'', kept, regroupTimer_over close popped' pushed', regroupTimer_eq close linked,
      doomed.keep (t := t) woven (fun name is => ?_) (fun name is => ?_) (fun u _ => by rw [nodes]) alive (by rw [nodes]; exact alive),
      ?_, nodes, rfl, ?_⟩
    · rw [put_other (other is).2, dropped_other (other is).1]
    · have before := pop_elsewhere popped' (other is).1
      have after := pushBack_elsewhere pushed' (other is).2
      exact ⟨after.1.trans before.1, after.2.trans before.2⟩
    · have distinct : (wheel.lists .hanging).Nodup := by
        have apart := doomed.woven.mirror.apart.nodup .hanging
        rwa [owned_other (by simp) (by simp), shown] at apart
      rw [hanging] at distinct
      rw [put_other (by simp), dropped_same, hanging,
        List.erase_append_right _ fun before => (List.nodup_append.mp distinct).2.2 t before t (.head _) rfl, List.erase_cons_head]
    · rw [put_other (by simp), dropped_other (by simp)]
  · exact ⟨wheel, links, kept ++ [t], if_neg close, if_neg close, doomed, by simp [hanging], rfl, rfl, rfl⟩

theorem regroupTimers (doomed : Doomed held .active [] wheel links) (clean : RegroupClean wheel) :
    ∃ after links', (wheel.over links).regroupTimers = some (after.over links') ∧ wheel.regroupTimers = some after ∧
      Doomed held .active [] after links' ∧ after.lists .active = wheel.lists .active := by
  have global : ListName.hanging ≠ .active := by simp
  cases is : held .hanging with
  | true =>
    -- the one node stays where it is
    obtain ⟨-, t, alone, deleted, head, count⟩ := doomed.alone is
    have pending : wheel.Pending .hanging := ⟨t, by simp [alone], deleted⟩
    have far : ¬ wheel.ticksLeft t < nearSlots := fun close => (clean t (by simp [alone]) close).1 pending
    refine ⟨wheel, links, ?_, ?_, doomed, rfl⟩
    · rw [Wheel.regroupTimers, Wheel.forEach]
      change Wheel.walk _ (links.count .hanging) (links.head .hanging) _ = _
      rw [count, head, Wheel.walk]
      change (Wheel.regroupTimer t (wheel.over links)).bind _ = _
      rw [Wheel.regroupTimer, if_neg (show ¬ (wheel.over links).ticksLeft t < nearSlots from far)]
      rfl
    · rw [Wheel.regroupTimers, forEach_eq, alone, List.foldlM_cons, Wheel.regroupTimer, if_neg far]
      rfl
  | false =>
    have shown : (wheel.hide held).lists .hanging = wheel.lists .hanging := shown_apart is
    have head : links.head .hanging = (wheel.lists .hanging).head? := by
      rw [← shown, ← doomed.woven.mirror.head global global]
      exact (shown_apart is).symm
    have count : links.count .hanging = (wheel.lists .hanging).length := by
      rw [← shown, ← doomed.woven.mirror.count global global]
      exact (shown_apart is).symm
    have slots (t : Nat) (member : t ∈ wheel.lists .hanging) (close : wheel.ticksLeft t < nearSlots) :
        held (.near (wheel.nearSlot t)) = false := doomed.apart (clean t member close).2
    obtain ⟨after, links', real, regrouped, -, doomed', -, -, -, -, idle⟩ := walk_follows
      (fun rest now links => ∃ kept, Doomed held .active [] now links ∧ now.lists .hanging = kept ++ rest ∧
        (∀ t ∈ rest, t ∈ wheel.lists .hanging) ∧ now.nodes = wheel.nodes ∧ now.tickcount = wheel.tickcount ∧
        now.lists .active = wheel.lists .active)
      (by
        rintro t u rest now links ⟨kept, doomed, hanging, -⟩
        have ring := doomed.woven.mirror.ring .hanging
        rw [owned_other global global, show (now.hide held).lists .hanging = now.lists .hanging from shown_apart is, hanging] at ring
        exact (List.isChain_cons_cons.mp ring.chain_of_suffix).1.1)
      (by
        rintro t rest now links ⟨kept, doomed, hanging, within, nodes, tick, idle⟩
        have left : now.ticksLeft t = wheel.ticksLeft t := by rw [Wheel.ticksLeft, Wheel.ticksLeft, nodes, tick]
        have slot : now.nearSlot t = wheel.nearSlot t := by rw [Wheel.nearSlot, Wheel.nearSlot, left, nodes, tick]
        obtain ⟨after, links', kept', real, regrouped, doomed', hanging', nodes', tick', idle'⟩ := doomed.regroupTimer is hanging
          (by rw [left, slot]; exact slots t (within t (.head _)))
        exact ⟨after, links', real, regrouped, kept', doomed', hanging', fun u member => within u (.tail _ member),
          nodes'.trans nodes, tick'.trans tick, idle'.trans idle⟩)
      ⟨[], doomed, rfl, fun _ member => member, rfl, rfl, rfl⟩ fun _ => head
    refine ⟨after, links', ?_, ?_, doomed', idle⟩
    · exact regroupTimers_over count real
    · rw [Wheel.regroupTimers, forEach_eq]
      exact regrouped

theorem tick {terms : Terms} (doomed : Doomed held .active [] wheel links) (steady : Steady terms wheel)
    {script : Nat → HandlerOutcome} (clean : TickClean script wheel) :
    ∃ held' after links', (wheel.over links).tick script = some (after.over links') ∧ wheel.tick script = some after ∧
      Doomed held' .active [] after links' ∧ after.lists .active = [] := by
  have switched : Doomed held .active [] wheel.switchChangelist links := by
    refine ⟨?_, doomed.alone, doomed.found⟩
    exact doomed.woven.congr rfl rfl rfl rfl
  obtain ⟨loaded, links', real, loads, woven, kept⟩ := switched.loadTimers (Good.loading steady) (lt_lapEnd _) (lapEnd_le _)
    (fun lapStart => (lapEnd_start lapStart).ge) clean.load
  obtain ⟨held', handled, links'', real', handles, doomed'⟩ := handleTimer woven kept (clean.walk loads)
  have loads' : (wheel.over links).switchChangelist.loadTimers = some (loaded.over links') := real
  have advanced : Doomed held' .active [] { handled with tickcount := handled.tickcount + 1 } links'' :=
    ⟨doomed'.woven.congr rfl rfl rfl rfl, doomed'.alone, doomed'.found⟩
  have idle : handled.lists .active = [] := by
    rw [handleTimer_eq, Option.map_eq_some_iff] at handles
    obtain ⟨walked, -, rfl⟩ := handles
    simp [Wheel.clear, TimerLists.clear, Sequences.clear]
  by_cases lap : (handled.tickcount + 1) % nearSlots = 0
  · obtain ⟨after, links''', real'', regroups, doomed'', same⟩ := advanced.regroupTimers (clean.regroup loads handles lap)
    refine ⟨held', after, links''', ?_, ?_, doomed'', same.trans idle⟩
    · exact (tick_eq loads' real').trans ((if_pos lap).trans real'')
    · exact (tick_eq loads handles).trans ((if_pos lap).trans regroups)
  · refine ⟨held', _, links'', ?_, ?_, advanced, idle⟩
    · exact (tick_eq loads' real').trans (if_neg lap)
    · exact (tick_eq loads handles).trans (if_neg lap)

theorem step {terms : Terms} (doomed : Doomed held .active [] wheel links) (idle : wheel.lists .active = [])
    (steady : Steady terms wheel) {action : WheelAction} (clean : StepClean wheel action) :
    ∃ held' after links', (wheel.over links).step action = some (after.over links') ∧ wheel.step action = some after ∧
      Doomed held' .active [] after links' ∧ after.lists .active = [] := by
  cases action with
  | call call =>
    obtain ⟨held', after, links', real, called, doomed', -, beside⟩ := doomed.call clean
    exact ⟨held', after, links', real, called, doomed', beside.active.trans idle⟩
  | tick script => exact doomed.tick steady clean

end Doomed
end Cassobee
