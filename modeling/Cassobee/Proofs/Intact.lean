import Cassobee.Proofs.Woven

/-! A whole tick over links. What is walked is read off the links that were there when the walk came
to a node, and the walk itself only writes behind itself. -/

namespace Cassobee
open Support

/-- A walk over the links of a list is a walk over its sequence, as long as every node still leads to
the next one when the walk comes to it. -/
theorem Proofs.walk_follows {real : Nat → Wheel Links → Option (Wheel Links)}
    {ideal : Nat → Wheel Sequences → Option (Wheel Sequences)} (holds : List Nat → Wheel Sequences → Links → Prop)
    (leads : ∀ {t u rest wheel links}, holds (t :: u :: rest) wheel links → links.next t = some u)
    (kept : ∀ {t rest wheel links}, holds (t :: rest) wheel links → ∃ after links',
      real t (wheel.over links) = some (after.over links') ∧ ideal t wheel = some after ∧ holds rest after links')
    {todo : List Nat} {wheel : Wheel Sequences} {links : Links} (now : holds todo wheel links) {cursor : Option Nat}
    (start : todo ≠ [] → cursor = todo.head?) :
    ∃ after links', Wheel.walk real todo.length cursor (wheel.over links) = some (after.over links') ∧
      todo.foldlM (fun wheel t => ideal t wheel) wheel = some after ∧ holds [] after links' := by
  induction todo generalizing wheel links cursor with
  | nil => exact ⟨wheel, links, rfl, rfl, now⟩
  | cons t todo ih =>
    obtain rfl : cursor = some t := start (by simp)
    have next : todo ≠ [] → links.next t = todo.head? := by
      intro more
      cases todo with
      | nil => exact absurd rfl more
      | cons u todo => exact leads now
    obtain ⟨middle, links', done, done', later⟩ := kept now
    obtain ⟨after, links'', walked, walked', final⟩ := ih later next
    refine ⟨after, links'', ?_, ?_, final⟩
    · rw [List.length_cons, Wheel.walk]
      change (real t (wheel.over links)).bind _ = _
      rw [done]
      exact walked
    · rw [List.foldlM_cons, done']
      exact walked'

/-! The loops over links, once their walks are known. -/

namespace Proofs
variable {wheel after : Wheel Sequences} {links links' : Links}

theorem handleTimer_over {script : Nat → HandlerOutcome} {swapped : Links} {count : Nat}
    (swaps : swapped = (links.clear .active).swap .active (.near (wheel.tickcount % nearSlots)))
    (length : swapped.count .active = count)
    (walked : Wheel.walk (Wheel.handleNode script) count (swapped.head .active) (wheel.collected.over swapped) = some (after.over links')) :
    (wheel.over links).handleTimer script = some ((after.clear .active).over (links'.clear .active)) := by
  subst swaps length
  exact congrArg (· >>= fun wheel => pure (wheel.clear .active)) walked

theorem loadTimers_over {count : Nat} (length : links.count (.change wheel.frontidx) = count)
    (walked : Wheel.walk Wheel.loadTimer count (links.head (.change wheel.frontidx)) (wheel.over links) = some (after.over links')) :
    (wheel.over links).loadTimers = some ((after.clear (.change after.frontidx)).over (links'.clear (.change after.frontidx))) := by
  subst length
  exact congrArg (· >>= fun next => pure (next.clear (.change next.frontidx))) walked

theorem regroupTimers_over {count : Nat} (length : links.count .hanging = count)
    (walked : Wheel.walk Wheel.regroupTimer count (links.head .hanging) (wheel.over links) = some (after.over links')) :
    (wheel.over links).regroupTimers = some (after.over links') := by
  subst length
  exact walked

end Proofs

namespace Woven
open Links Proofs
variable {passed todo : List Nat} {wheel : Wheel Sequences} {links : Links} {t : Nat}

theorem handleWalk (woven : Woven .active todo wheel links) (around : Around passed todo wheel links)
    {script : Nat → HandlerOutcome} (adds : ∀ uid, ∀ call ∈ (script uid).calls, ∃ request, call = .add request)
    {nodes : Nat → TimerNode} (same : ∀ u ∈ todo, wheel.nodes u = nodes u)
    (undisturbed : Undisturbed script nodes wheel.pool passed todo) {cursor : Option Nat}
    (start : todo ≠ [] → cursor = todo.head?) :
    ∃ after links', Wheel.walk (Wheel.handleNode script) todo.length cursor (wheel.over links) = some (after.over links') ∧
      todo.foldlM (fun wheel t => Wheel.handleNode script t wheel) wheel = some after ∧ Woven .active [] after links' := by
  obtain ⟨after, links', real, handled, passed', woven', -⟩ := walk_follows
    (fun todo wheel links => ∃ passed, Woven .active todo wheel links ∧ Around passed todo wheel links ∧
      (∀ u ∈ todo, wheel.nodes u = nodes u) ∧ Undisturbed script nodes wheel.pool passed todo)
    (by
      rintro t u rest wheel links ⟨passed, -, around, -⟩
      exact arc_next around.arc)
    (by
      rintro t rest wheel links ⟨passed, woven, around, same, undisturbed⟩
      obtain ⟨after, links', passed', real, handled, later⟩ := woven.handleNode around adds same undisturbed
      exact ⟨after, links', real, handled, passed', later⟩) ⟨passed, woven, around, same, undisturbed⟩ start
  exact ⟨after, links', real, handled, woven'⟩

/-- `handle_timer` takes the list of the slot. -/
theorem collect (woven : Woven .active [] wheel links) :
    ∃ links', links' = (links.clear .active).swap .active (.near (wheel.tickcount % nearSlots)) ∧
      Woven .active (wheel.lists (.near (wheel.tickcount % nearSlots))) wheel.collected links' ∧
      Around [] (wheel.lists (.near (wheel.tickcount % nearSlots))) wheel.collected links' := by
  obtain ⟨slot, slot_eq⟩ : ∃ slot, slot = wheel.tickcount % nearSlots := ⟨_, rfl⟩
  have due : wheel.collected.lists .active = wheel.lists (.near slot) := by
    simp [Wheel.collected, Sequences.swap, Sequences.clear, slot_eq]
  have taken : wheel.collected.lists (.near slot) = [] := by
    simp [Wheel.collected, Sequences.swap, Sequences.clear, slot_eq]
  have rest (name : ListName) (other : name ≠ .near slot) (global : name ≠ .active) :
      wheel.collected.lists name = wheel.lists name := by
    rw [slot_eq] at other
    simp [Wheel.collected, Sequences.swap, Sequences.clear, other, global]
  have near : ListName.near slot ≠ .active := by simp
  have head := woven.mirror.head near near
  have count := woven.mirror.count near near
  have ring := woven.mirror.ring (.near slot)
  have distinct := woven.mirror.apart.nodup (.near slot)
  rw [owned_other near near] at ring distinct
  rw [← slot_eq]
  refine ⟨_, rfl, ⟨?_, ?_, ?_, woven.bounded⟩, ⟨?_, ?_, ?_, ring_arc ring, by simpa using distinct, by simp⟩⟩
  · refine woven.tidy.collect taken rest (fun {u} member => ?_) fun member _ => woven.tidy.fits member
    have active : Standing (.list (.near slot)) (wheel.nodes u) := woven.tidy.fits member
    exact active
  · have same : wheel.collected.lists.owned .active = Function.update (wheel.lists.owned .active) (.near slot) [] := by
      funext other
      by_cases here : other = .near slot
      · subst here
        rw [owned_other near near, taken, Function.update_self]
      · rw [Function.update_of_ne here]
        by_cases active : other = .active
        · simp [Sequences.owned, active]
        · rw [owned_other active active, owned_other active active, rest other here active]
    rw [same]
    have released := woven.mirror.release (.near slot)
    refine ⟨fun {other} global read => ?_, fun {other} global read => ?_, released.ring, released.apart⟩
    · by_cases here : other = .near slot
      · subst here
        rw [taken]
        simp [Links.swap, Links.clear]
      · rw [rest other here global, ← woven.mirror.head global read]
        simp [Links.swap, Links.clear, here, global]
    · by_cases here : other = .near slot
      · subst here
        rw [taken]
        simp [Links.swap, Links.clear]
      · rw [rest other here global, ← woven.mirror.count global read]
        simp [Links.swap, Links.clear, here, global]
  · intro index u read linked
    rw [rest _ (by simp) (by simp)] at linked
    exact woven.waiting read linked
  · exact due
  · rw [List.nil_append, ← head]
    simp [Links.swap, Links.clear]
  · rw [List.nil_append, ← count]
    simp [Links.swap, Links.clear]

theorem clear_active (woven : Woven .active todo wheel links) :
    Woven .active todo (wheel.clear .active) (links.clear .active) := by
  refine ⟨woven.tidy.clear_active, ?_, ?_, woven.bounded⟩
  · refine Mirror.disregard (woven.mirror.frame (fun name global => ?_) (fun name global => ?_) fun _ _ => ⟨rfl, rfl⟩)
    · exact Function.update_of_ne global _ _
    · exact Function.update_of_ne global _ _
  · intro index u read linked
    rw [clear_other (by simp)] at linked
    exact woven.waiting read linked

theorem handleTimer (woven : Woven .active [] wheel links) {script : Nat → HandlerOutcome}
    (adds : ∀ uid, ∀ call ∈ (script uid).calls, ∃ request, call = .add request)
    (undisturbed : Undisturbed script wheel.nodes wheel.pool [] (wheel.lists (.near (wheel.tickcount % nearSlots)))) :
    ∃ after links', (wheel.over links).handleTimer script = some (after.over links') ∧ wheel.handleTimer script = some after ∧
      Woven .active [] after links' := by
  obtain ⟨swapped, swapped_eq, woven', around⟩ := woven.collect
  have start := around.head
  have length := around.count
  rw [List.nil_append] at start length
  obtain ⟨after, links', real, handled, woven''⟩ := woven'.handleWalk around adds (fun _ _ => rfl) undisturbed fun _ => start
  refine ⟨after.clear .active, links'.clear .active, ?_, ?_, woven''.clear_active⟩
  · exact handleTimer_over swapped_eq length real
  · rw [handleTimer_eq, handled]
    rfl

end Woven
/-- The wheel inside `load_timers`, with the nodes that are still to be loaded. -/
structure Filling (rest : List Nat) (wheel : Wheel Sequences) (links : Links) : Prop where
  woven : Woven (.change wheel.frontidx) [] wheel links
  chain : rest.IsChain fun a b => links.next a = some b
  distinct : rest.Nodup
  front {t : Nat} (member : t ∈ rest) : t ∈ wheel.contents [] (.list (.change wheel.frontidx))
  waiting {t : Nat} (member : t ∈ wheel.contents [] (.list (.change wheel.frontidx))) : t ∈ rest

namespace Filling
open Links Proofs
variable {rest : List Nat} {wheel : Wheel Sequences} {links : Links} {t : Nat}

theorem loadTimer (filling : Filling (t :: rest) wheel links) :
    ∃ after links', Wheel.loadTimer t (wheel.over links) = some (after.over links') ∧ Wheel.loadTimer t wheel = some after ∧
      Filling rest after links' := by
  have here := filling.front (.head _)
  have waits : (wheel.nodes t).state = .add := filling.woven.tidy.fits here
  obtain ⟨links', real, woven, keeps⟩ := filling.woven.load here
  obtain ⟨outside, distinct⟩ := List.nodup_cons.mp filling.distinct
  have other {u : Nat} (member : u ∈ rest) : u ≠ t := by
    rintro rfl
    exact outside member
  have kept {u : Nat} (member : u ∈ rest) : links'.next u = links.next u := by
    refine (keeps.links u ⟨other member, fun linked => ?_⟩).2
    have there := filling.woven.mem_contents home_ne_change.symm home_ne_active.symm linked
    exact home_ne_change (by simpa using filling.woven.tidy.apart.only (filling.front (.tail _ member)) there)
  have same (u : Nat) (different : u ≠ t) :
      (wheel.put (wheel.home t) t { wheel.nodes t with state := .active }).nodes u = wheel.nodes u :=
    Function.update_of_ne different _ _
  have changes : (wheel.put (wheel.home t) t { wheel.nodes t with state := .active }).lists (.change wheel.frontidx) =
      wheel.lists (.change wheel.frontidx) := put_other home_ne_change
  refine ⟨wheel.put (wheel.home t) t { wheel.nodes t with state := .active }, links', ?_, ?_,
    ⟨woven, ?_, distinct, ?_, ?_⟩⟩
  · rw [Wheel.loadTimer, show ((wheel.over links).nodes t).state = .add from waits]
    exact readdTimer_over real
  · rw [Wheel.loadTimer, waits]
    exact readdTimer_eq wheel t
  · refine filling.chain.tail.imp_of_mem_imp fun a b member _ linked => ?_
    rw [kept member]
    exact linked
  · intro u member
    obtain ⟨linked, state⟩ := List.mem_filter.mp (filling.front (.tail _ member))
    refine List.mem_filter.mpr ⟨?_, ?_⟩
    · exact changes ▸ linked
    · rw [same u (other member)]
      exact state
  · intro u member
    obtain ⟨linked, state⟩ := List.mem_filter.mp member
    have different : u ≠ t := by
      rintro rfl
      simp [Wheel.put] at state
    rw [same u different] at state
    have linked' : u ∈ wheel.lists (.change wheel.frontidx) := changes ▸ linked
    exact (List.mem_cons.mp (filling.waiting (List.mem_filter.mpr ⟨linked', state⟩))).resolve_left different

/-- Everything is loaded, and the changelist is cleared. -/
theorem done (filling : Filling [] wheel links) :
    Woven .active [] (wheel.clear (.change wheel.frontidx)) (links.clear (.change wheel.frontidx)) := by
  have cleared : (wheel.clear (.change wheel.frontidx)).lists (.change wheel.frontidx) = [] := by
    simp [Wheel.clear, TimerLists.clear, Sequences.clear]
  have other {name : ListName} (different : name ≠ .change wheel.frontidx) :
      (wheel.clear (.change wheel.frontidx)).lists name = wheel.lists name := clear_other different
  have same : (wheel.clear (.change wheel.frontidx)).lists.owned .active = wheel.lists.owned (.change wheel.frontidx) := by
    funext name
    by_cases front : name = .change wheel.frontidx
    · rw [front, owned_other (by simp) (by simp), cleared]
      simp [Sequences.owned]
    · simp [Sequences.owned, front, other front]
  refine ⟨filling.woven.tidy.congr (fun place => ?_) rfl rfl, ?_, ?_, filling.woven.bounded⟩
  · cases place with
    | pool => rfl
    | todo => rfl
    | list name =>
      cases name with
      | near slot => exact other (by simp)
      | hanging => exact other (by simp)
      | active => rfl
      | change index =>
        by_cases front : index = wheel.frontidx
        · have nothing : wheel.contents [] (.list (.change wheel.frontidx)) = [] :=
            List.eq_nil_iff_forall_not_mem.mpr fun t member => by cases filling.waiting member
          rw [front, nothing, Wheel.contents, cleared]
          rfl
        · simp only [Wheel.contents]
          rw [other (by simpa using front)]
          rfl
  · have mirror := filling.woven.mirror
    rw [same]
    refine ⟨fun {name} global _ => ?_, fun {name} global _ => ?_, mirror.ring, mirror.apart⟩
    · by_cases front : name = .change wheel.frontidx
      · rw [front, cleared]
        simp [Links.clear]
      · rw [other front, ← mirror.head global front]
        exact Function.update_of_ne front _ _
    · by_cases front : name = .change wheel.frontidx
      · rw [front, cleared]
        simp [Links.clear]
      · rw [other front, ← mirror.count global front]
        exact Function.update_of_ne front _ _
  · intro index t _ linked
    by_cases front : index = wheel.frontidx
    · rw [front, cleared] at linked
      cases linked
    · rw [other (by simpa using front)] at linked
      exact filling.woven.waiting (by simpa using front) linked

end Filling

namespace Proofs
variable {wheel : Wheel Sequences} {links links' links'' : Links} {t : Nat}

theorem regroupTimer_over (close : wheel.ticksLeft t < nearSlots) (popped : links.pop .hanging t = some links')
    (pushed : links'.pushBack (.near (wheel.nearSlot t)) t = some links'') :
    Wheel.regroupTimer t (wheel.over links) =
      some (((wheel.dropped .hanging t).put (.near (wheel.nearSlot t)) t (wheel.nodes t)).over links'') := by
  rw [Wheel.regroupTimer, if_pos (show (wheel.over links).ticksLeft t < nearSlots from close), Wheel.unlink,
    show TimerLists.pop .hanging t (wheel.over links).lists = some links' from popped]
  change ((wheel.dropped .hanging t).over links').push (.near (wheel.nearSlot t)) t = _
  rw [Wheel.push, show TimerLists.pushBack (.near (wheel.nearSlot t)) t ((wheel.dropped .hanging t).over links').lists =
    some links'' from pushed]
  simp [Wheel.over, Wheel.put, Wheel.dropped]

theorem regroupTimer_eq (close : wheel.ticksLeft t < nearSlots) (linked : t ∈ wheel.lists .hanging) :
    Wheel.regroupTimer t wheel = some ((wheel.dropped .hanging t).put (.near (wheel.nearSlot t)) t (wheel.nodes t)) := by
  rw [Wheel.regroupTimer, if_pos close, unlink_eq linked, Option.bind_eq_bind, Option.bind_some]
  change (wheel.dropped .hanging t).push (.near (wheel.nearSlot t)) t = _
  simp [Wheel.push, TimerLists.pushBack, Wheel.put, Wheel.dropped]

end Proofs

namespace Woven
open Links Proofs
variable {wheel : Wheel Sequences} {links : Links}

theorem filling (woven : Woven .active [] wheel links) : Filling (wheel.lists (.change wheel.frontidx)) wheel links := by
  have front : ListName.change wheel.frontidx ≠ .active := by simp
  have ring := woven.mirror.ring (.change wheel.frontidx)
  have distinct := woven.mirror.apart.nodup (.change wheel.frontidx)
  rw [owned_other front front] at ring distinct
  refine ⟨⟨woven.tidy, ?_, ?_, woven.bounded⟩, ring.1.imp fun _ _ linked => linked.1, distinct, ?_, ?_⟩
  · have same : wheel.lists.owned (.change wheel.frontidx) =
        Function.update (wheel.lists.owned .active) (.change wheel.frontidx) [] := by
      funext name
      by_cases this : name = .change wheel.frontidx
      · simp [Sequences.owned, this]
      · simp [Sequences.owned, this]
    have released := woven.mirror.release (.change wheel.frontidx)
    rw [same]
    exact ⟨fun global _ => woven.mirror.head global global, fun global _ => woven.mirror.count global global,
      released.ring, released.apart⟩
  · intro index t _ linked
    exact woven.waiting (by simp) linked
  · exact fun member => woven.mem_contents front front member
  · exact fun member => List.mem_of_mem_filter member

theorem loadTimers (woven : Woven .active [] wheel links) :
    ∃ after links', (wheel.over links).loadTimers = some (after.over links') ∧ wheel.loadTimers = some after ∧
      Woven .active [] after links' := by
  have front : ListName.change wheel.frontidx ≠ .active := by simp
  obtain ⟨after, links', real, loaded, filling⟩ := walk_follows Filling
    (fun filling => (List.isChain_cons_cons.mp filling.chain).1) (fun filling => filling.loadTimer) woven.filling
    fun _ => woven.mirror.head front front
  refine ⟨after.clear (.change after.frontidx), links'.clear (.change after.frontidx), ?_, ?_, filling.done⟩
  · exact loadTimers_over (woven.mirror.count front front) real
  · rw [loadTimers_eq, loaded]
    rfl

variable {name : ListName} {todo : List Nat} {t : Nat}

/-- A node of a near slot or of the hanging list is taken out of it. -/
theorem takeOut (woven : Woven .active todo wheel links) (isHome : name.isHome) (linked : t ∈ wheel.lists name) :
    ∃ links', links.pop name t = some links' ∧
      Mirror .active links' (wheel.dropped name t).lists ((wheel.dropped name t).lists.owned .active) ∧
      (∀ other, t ∉ (wheel.dropped name t).lists.owned .active other) ∧ Keeps (fun u => u ∉ wheel.lists name) links links' := by
  have global : name ≠ .active := by
    rintro rfl
    cases isHome
  have own : wheel.lists.owned .active name = wheel.lists name := owned_other global global
  have distinct : (wheel.lists name).Nodup := own ▸ woven.mirror.apart.nodup name
  have member := woven.mem_contents global global linked
  have small : (wheel.lists name).length < wordSize :=
    woven.length_lt distinct fun u there => woven.inside (woven.mem_contents global global there)
  obtain ⟨links', popped, mirror, keeps⟩ := woven.mirror.pop global global own small linked
  have dropped : (wheel.dropped name t).lists.owned .active =
      Function.update (wheel.lists.owned .active) name ((wheel.lists.owned .active name).erase t) := by
    rw [own]
    exact owned_update global global
  rw [own] at keeps
  refine ⟨links', popped, ?_, fun other there => ?_, keeps⟩
  · rw [dropped]
    exact mirror
  · rw [dropped] at there
    by_cases same : other = name
    · rw [same, Function.update_self, own] at there
      exact (distinct.mem_erase_iff.mp there).1 rfl
    · rw [Function.update_of_ne same] at there
      have only := (woven.only member there).1
      simp only [Place.list.injEq] at only
      exact same only.symm

/-- A hanging node goes to a near slot, and the list closes behind it. -/
theorem regroup (woven : Woven .active [] wheel links) (linked : t ∈ wheel.lists .hanging) (slot : Nat) :
    ∃ links' links'', links.pop .hanging t = some links' ∧ links'.pushBack (.near slot) t = some links'' ∧
      Woven .active [] ((wheel.dropped .hanging t).put (.near slot) t (wheel.nodes t)) links'' := by
  have member : t ∈ wheel.contents [] (.list .hanging) := linked
  have active : (wheel.nodes t).state = .active := woven.tidy.fits member
  have near : ListName.near slot ≠ .active := by simp
  obtain ⟨links', popped, mirror, outside, -⟩ := woven.takeOut rfl linked
  have own : (wheel.dropped .hanging t).lists.owned .active (.near slot) = (wheel.dropped .hanging t).lists (.near slot) :=
    owned_other near near
  obtain ⟨links'', pushed, mirror', -⟩ := mirror.push near near own outside
  have nodes : ((wheel.dropped .hanging t).put (.near slot) t (wheel.nodes t)).nodes = wheel.nodes :=
    Function.update_eq_self t wheel.nodes
  refine ⟨links', links'', popped, pushed, woven.tidy.regroup member (by simp [active]) active, ?_, ?_, woven.bounded⟩
  · have same : ((wheel.dropped .hanging t).put (.near slot) t (wheel.nodes t)).lists.owned .active =
        ((wheel.dropped .hanging t).lists.owned .active).pushBack (.near slot) t := by
      apply Eq.trans (owned_update near near)
      rw [Sequences.pushBack, own]
    rw [same]
    exact mirror'
  · intro index u read there
    rw [put_other (by simp), dropped_other (by simp)] at there
    rw [nodes]
    exact woven.waiting read there

/-- A hanging node whose tick is near goes to its slot. -/
theorem regroupTimer (woven : Woven .active [] wheel links) {kept rest : List Nat} (hanging : wheel.lists .hanging = kept ++ t :: rest) :
    ∃ after links' kept', Wheel.regroupTimer t (wheel.over links) = some (after.over links') ∧
      Wheel.regroupTimer t wheel = some after ∧ Woven .active [] after links' ∧ after.lists .hanging = kept' ++ rest := by
  by_cases close : wheel.ticksLeft t < nearSlots
  · have linked : t ∈ wheel.lists .hanging := by simp [hanging]
    obtain ⟨links', links'', popped, pushed, woven'⟩ := woven.regroup linked (wheel.nearSlot t)
    have distinct := woven.mirror.apart.nodup .hanging
    rw [owned_other (by simp) (by simp), hanging] at distinct
    refine ⟨_, links'', kept, regroupTimer_over close popped pushed, regroupTimer_eq close linked, woven', ?_⟩
    rw [put_other (by simp), dropped_same, hanging,
      List.erase_append_right _ fun before => (List.nodup_append.mp distinct).2.2 t before t (.head _) rfl, List.erase_cons_head]
  · exact ⟨wheel, links, kept ++ [t], if_neg close, if_neg close, woven, by simp [hanging]⟩

theorem regroupTimers (woven : Woven .active [] wheel links) :
    ∃ after links', (wheel.over links).regroupTimers = some (after.over links') ∧ wheel.regroupTimers = some after ∧
      Woven .active [] after links' := by
  have global : ListName.hanging ≠ .active := by simp
  obtain ⟨after, links', real, regrouped, -, woven', -⟩ := walk_follows
    (fun rest wheel links => ∃ kept, Woven .active [] wheel links ∧ wheel.lists .hanging = kept ++ rest)
    (by
      rintro t u rest wheel links ⟨kept, woven, hanging⟩
      have ring := woven.mirror.ring .hanging
      rw [owned_other global global, hanging] at ring
      exact (List.isChain_cons_cons.mp ring.chain_of_suffix).1.1)
    (by
      rintro t rest wheel links ⟨kept, woven, hanging⟩
      obtain ⟨after, links', kept', real, regrouped, woven', hanging'⟩ := woven.regroupTimer hanging
      exact ⟨after, links', real, regrouped, kept', woven', hanging'⟩) ⟨[], woven, rfl⟩
    fun _ => woven.mirror.head global global
  refine ⟨after, links', ?_, ?_, woven'⟩
  · exact regroupTimers_over (woven.mirror.count global global) real
  · rw [Wheel.regroupTimers, forEach_eq]
    exact regrouped

/-- A tick over links is the tick over sequences. -/
theorem tick (woven : Woven .active [] wheel links) {script : Nat → HandlerOutcome}
    (adds : ∀ uid, ∀ call ∈ (script uid).calls, ∃ request, call = .add request)
    (undisturbed : ∀ loaded, wheel.switchChangelist.loadTimers = some loaded →
      Undisturbed script loaded.nodes loaded.pool [] (loaded.lists (.near (loaded.tickcount % nearSlots)))) :
    ∃ after links', (wheel.over links).tick script = some (after.over links') ∧ wheel.tick script = some after ∧
      Woven .active [] after links' := by
  obtain ⟨loaded, links', real, loads, woven'⟩ := (woven.congr rfl rfl rfl rfl : Woven .active [] wheel.switchChangelist links).loadTimers
  obtain ⟨handled, links'', real', handles, woven''⟩ := woven'.handleTimer adds (undisturbed loaded loads)
  have loads' : (wheel.over links).switchChangelist.loadTimers = some (loaded.over links') := real
  have advanced : Woven .active [] { handled with tickcount := handled.tickcount + 1 } links'' :=
    woven''.congr rfl rfl rfl rfl
  by_cases lap : (handled.tickcount + 1) % nearSlots = 0
  · obtain ⟨after, links''', real'', regroups, woven'''⟩ := advanced.regroupTimers
    refine ⟨after, links''', ?_, ?_, woven'''⟩
    · exact (tick_eq loads' real').trans ((if_pos lap).trans real'')
    · exact (tick_eq loads handles).trans ((if_pos lap).trans regroups)
  · refine ⟨_, links'', ?_, ?_, advanced⟩
    · exact (tick_eq loads' real').trans (if_neg lap)
    · exact (tick_eq loads handles).trans (if_neg lap)

end Woven
end Cassobee
