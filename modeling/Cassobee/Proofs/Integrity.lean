import Cassobee.Proofs.Intact

/-! What a tick does to well-formed lists. A timer whose handler returns false is freed where it is,
and the pool hands the node that was freed last out first: when a later handler of the same tick gets
it, taking the next timer out of the walked list writes into a node of a changelist. -/

namespace Cassobee
open Support

/-- The same wheel over sequences. -/
def Wheel.through (wheel : Wheel Links) (lists : Sequences) : Wheel Sequences :=
  ⟨wheel.ticktime, wheel.tickcount, wheel.frontidx, lists, wheel.nodes, wheel.pool, wheel.cap, wheel.accepted, wheel.log⟩

def ListName.standing : ListName → TimerState
  | .near _ | .hanging | .active => .active
  | .change _ => .add

/-- Every list is a ring of exactly its nodes; a timer that was accepted and not freed is in one list,
and a node of the pool in none. -/
structure WellLinked (lists : Sequences) (wheel : Wheel Links) : Prop where
  head {name : ListName} (global : name ≠ .active) : wheel.lists.head name = (lists name).head?
  count {name : ListName} (global : name ≠ .active) : wheel.lists.count name = (lists name).length
  ring {name : ListName} (global : name ≠ .active) : Ring wheel.lists.prev wheel.lists.next (lists name)
  distinct {name : ListName} (global : name ≠ .active) : (lists name).Nodup
  only {one other : ListName} (global : one ≠ .active) (global' : other ≠ .active) {t : Nat} (here : t ∈ lists one)
    (there : t ∈ lists other) : one = other
  listed {name : ListName} (global : name ≠ .active) {t : Nat} (linked : t ∈ lists name) :
    t < wheel.cap ∧ (wheel.nodes t).state = name.standing
  pooled : wheel.pool.Nodup
  freed {t : Nat} (free : t ∈ wheel.pool) : t < wheel.cap ∧ (wheel.nodes t).state = .none ∧ ∀ name, name ≠ .active → t ∉ lists name
  somewhere {t : Nat} (inside : t < wheel.cap) (live : t ∉ wheel.pool) : ∃ name, name ≠ .active ∧ t ∈ lists name
  bounded : wheel.cap ≤ objectPoolMax

/-- What the next `handle_timer` will walk. -/
def Wheel.due {S : Type} (wheel : Wheel S) (lists : Sequences) : List Nat :=
  lists (.near (wheel.tickcount % nearSlots)) ++
    (lists (.change !wheel.frontidx)).filter fun t => wheel.home t = .near (wheel.tickcount % nearSlots)

namespace WellLinked
open Proofs
variable {wheel : Wheel Links} {lists : Sequences} {t : Nat}

theorem origin {place : Place} (here : t ∈ (wheel.through lists).contents [] place) :
    (place = .pool ∧ t ∈ wheel.pool) ∨ ∃ name, name ≠ .active ∧ place = .list name ∧ t ∈ lists name := by
  cases place with
  | pool => exact .inl ⟨rfl, here⟩
  | todo => cases here
  | list name =>
    cases name with
    | near slot => exact .inr ⟨.near slot, by simp, rfl, here⟩
    | hanging => exact .inr ⟨.hanging, by simp, rfl, here⟩
    | active => cases here
    | change index => exact .inr ⟨.change index, by simp, rfl, List.mem_of_mem_filter here⟩

theorem contents (linked : WellLinked lists wheel) {name : ListName} (global : name ≠ .active)
    (here : t ∈ lists name) : t ∈ (wheel.through lists).contents [] (.list name) := by
  cases name with
  | near slot => exact here
  | hanging => exact here
  | active => exact absurd rfl global
  | change index => exact List.mem_filter.mpr ⟨here, decide_eq_true (linked.listed global here).2⟩

theorem tidy (linked : WellLinked lists wheel) : Tidy Standing [] (wheel.through lists) := by
  refine ⟨⟨fun place => ?_, fun {one two t} first second => ?_⟩, fun {place t} member => ?_, fun {t} => ⟨fun inside => ?_, ?_⟩⟩
  · cases place with
    | pool => exact linked.pooled
    | todo => exact .nil
    | list name =>
      cases name with
      | near slot => exact linked.distinct (by simp)
      | hanging => exact linked.distinct (by simp)
      | active => exact .nil
      | change index => exact (linked.distinct (by simp)).filter _
  · rcases origin first with ⟨rfl, free⟩ | ⟨name, global, rfl, here⟩
    · rcases origin second with ⟨rfl, -⟩ | ⟨name, global, rfl, there⟩
      · rfl
      · exact absurd there ((linked.freed free).2.2 name global)
    · rcases origin second with ⟨rfl, free⟩ | ⟨name', global', rfl, there⟩
      · exact absurd here ((linked.freed free).2.2 name global)
      · rw [linked.only global global' here there]
  · rcases origin member with ⟨rfl, free⟩ | ⟨name, global, rfl, here⟩
    · exact (linked.freed free).2.1
    · have state := (linked.listed global here).2
      cases name with
      | near slot => exact state
      | hanging => exact state
      | active => exact absurd rfl global
      | change index => exact state
  · by_cases free : t ∈ wheel.pool
    · exact ⟨.pool, free⟩
    · obtain ⟨name, global, here⟩ := linked.somewhere inside free
      exact ⟨.list name, linked.contents global here⟩
  · rintro ⟨place, member⟩
    rcases origin member with ⟨rfl, free⟩ | ⟨name, global, rfl, here⟩
    · exact (linked.freed free).1
    · exact (linked.listed global here).1

theorem woven (linked : WellLinked lists wheel) : Woven .active [] (wheel.through lists) wheel.lists := by
  refine ⟨linked.tidy, ⟨fun global _ => linked.head global, fun global _ => linked.count global, fun name => ?_, ?_⟩, ?_,
    linked.bounded⟩
  · by_cases global : name = .active
    · simpa [Sequences.owned, global] using ring_nil
    · rw [owned_other global global]
      exact linked.ring global
  · refine ⟨fun name => ?_, fun {one two t} first second => ?_⟩
    · by_cases global : name = .active
      · simp [Sequences.owned, global]
      · rw [owned_other global global]
        exact linked.distinct global
    · obtain ⟨-, global, here⟩ := mem_owned first
      obtain ⟨-, global', there⟩ := mem_owned second
      exact linked.only global global' here there
  · intro index t _ here
    exact (linked.listed (by simp) here).2

theorem of_woven {wheel : Wheel Sequences} {links : Links} (woven : Woven .active [] wheel links) :
    WellLinked wheel.lists (wheel.over links) where
  head global := woven.mirror.head global global
  count global := woven.mirror.count global global
  ring {name} global := by
    have ring := woven.mirror.ring name
    rwa [owned_other global global] at ring
  distinct {name} global := by
    have distinct := woven.mirror.apart.nodup name
    rwa [owned_other global global] at distinct
  only global global' _ here there := by
    have same := woven.tidy.apart.only (woven.mem_contents global global here) (woven.mem_contents global' global' there)
    simpa using same
  listed {name} global t here := by
    have member := woven.mem_contents global global here
    refine ⟨woven.inside member, ?_⟩
    have state := woven.tidy.fits member
    cases name with
    | near slot => exact state
    | hanging => exact state
    | active => exact absurd rfl global
    | change index => exact state
  pooled := woven.tidy.apart.nodup .pool
  freed {t} free := by
    have member : t ∈ wheel.contents [] .pool := free
    refine ⟨woven.inside member, woven.tidy.fits member, fun name global there => ?_⟩
    cases woven.tidy.apart.only member (woven.mem_contents global global there)
  somewhere {t} inside live := by
    obtain ⟨place, member⟩ := woven.tidy.covered.mp inside
    have member' : t ∈ ((wheel.over links).through wheel.lists).contents [] place := member
    rcases origin member' with ⟨rfl, free⟩ | ⟨name, global, -, here⟩
    · exact absurd free live
    · exact ⟨name, global, here⟩
  bounded := woven.bounded

end WellLinked

namespace Proofs
variable {wheel : Wheel Sequences}

/-- The nodes of the changelist go to the ends of their lists in their order. -/
theorem loads_spec {rest : List Nat} (distinct : rest.Nodup) (adds : ∀ t ∈ rest, (wheel.nodes t).state = .add) :
    ∃ after, rest.foldlM (fun wheel t => Wheel.loadTimer t wheel) wheel = some after ∧ after.pool = wheel.pool ∧
      after.tickcount = wheel.tickcount ∧ after.frontidx = wheel.frontidx ∧
      (∀ u, ∃ state, after.nodes u = { wheel.nodes u with state }) ∧
      ∀ slot, after.lists (.near slot) = wheel.lists (.near slot) ++ rest.filter fun t => wheel.home t = .near slot := by
  induction rest generalizing wheel with
  | nil => exact ⟨wheel, rfl, rfl, rfl, rfl, fun u => ⟨_, rfl⟩, by simp⟩
  | cons t rest ih =>
    obtain ⟨outside, distinct⟩ := List.nodup_cons.mp distinct
    obtain ⟨middle, middle_eq⟩ : ∃ middle, middle = wheel.put (wheel.home t) t { wheel.nodes t with state := .active } := ⟨_, rfl⟩
    have other {u : Nat} (different : u ≠ t) : middle.nodes u = wheel.nodes u := by
      rw [middle_eq]
      exact Function.update_of_ne different _ _
    have loaded : Wheel.loadTimer t wheel = some middle := by
      rw [Wheel.loadTimer, adds t (.head _), middle_eq]
      exact readdTimer_eq wheel t
    have before {u : Nat} (member : u ∈ rest) : u ≠ t := by
      rintro rfl
      exact outside member
    have home {u : Nat} (member : u ∈ rest) : middle.home u = wheel.home u := by
      have same := other (before member)
      have now : middle.tickcount = wheel.tickcount := by rw [middle_eq]; rfl
      have ticks : middle.ticksLeft u = wheel.ticksLeft u := by rw [Wheel.ticksLeft, Wheel.ticksLeft, same, now]
      have slot : middle.nearSlot u = wheel.nearSlot u := by rw [Wheel.nearSlot, Wheel.nearSlot, ticks, same, now]
      rw [Wheel.home, Wheel.home, ticks, slot]
    obtain ⟨after, loads, pool, tick, front, nodes, lists⟩ := ih distinct fun u member => by
      rw [other (before member)]
      exact adds u (.tail _ member)
    refine ⟨after, ?_, ?_, ?_, ?_, ?_, ?_⟩
    · rw [List.foldlM_cons, loaded]
      exact loads
    · rw [pool, middle_eq]
      rfl
    · rw [tick, middle_eq]
      rfl
    · rw [front, middle_eq]
      rfl
    · intro u
      obtain ⟨state, same⟩ := nodes u
      by_cases this : u = t
      · subst this
        refine ⟨state, ?_⟩
        rw [same, middle_eq]
        simp [Wheel.put]
      · refine ⟨state, ?_⟩
        rw [same, other this]
    · intro slot
      have rest_same : (rest.filter fun u => middle.home u = .near slot) = rest.filter fun u => wheel.home u = .near slot :=
        List.filter_congr fun u member => by rw [home member]
      rw [lists, rest_same]
      by_cases here : wheel.home t = .near slot
      · rw [List.filter_cons_of_pos (by simpa using here), middle_eq, ← here]
        simp [Wheel.put]
      · rw [List.filter_cons_of_neg (by simpa using here), middle_eq, put_other (Ne.symm here)]

/-- The condition looks only at what a load does not change. -/
theorem undisturbed_congr {script : Nat → HandlerOutcome} {nodes nodes' : Nat → TimerNode}
    (same : ∀ u, ∃ state, nodes' u = { nodes u with state }) (pool passed todo : List Nat) :
    Undisturbed script nodes' pool passed todo ↔ Undisturbed script nodes pool passed todo := by
  induction todo generalizing pool passed with
  | nil => rfl
  | cons t todo ih =>
    obtain ⟨state, node⟩ := same t
    have uid : (nodes' t).uid = (nodes t).uid := by rw [node]
    have repeats : (nodes' t).counted.repeats = (nodes t).counted.repeats := by rw [node]; rfl
    rw [Undisturbed, Undisturbed, uid, repeats]
    split
    · exact and_congr_right fun _ => and_congr_right fun _ => ih _ _
    · exact ih _ _

/-- Handlers that make no calls disturb nothing. -/
theorem undisturbed_of_silent {script : Nat → HandlerOutcome} {nodes : Nat → TimerNode} (silent : ∀ uid, (script uid).calls = [])
    {pool passed : List Nat} (within : passed ⊆ pool) (todo : List Nat) : Undisturbed script nodes pool passed todo := by
  induction todo generalizing pool passed with
  | nil => trivial
  | cons t todo ih =>
    rw [Undisturbed, silent, List.length_nil, List.drop_zero]
    split
    · refine ⟨fun u last => within (List.mem_of_mem_getLast? last), fun _ u first => within (List.mem_of_mem_head? first), ih ?_⟩
      split
      · exact fun u member => .tail _ (within member)
      · exact within
    · refine ih fun u member => ?_
      rcases List.mem_append.mp member with before | here
      · exact .tail _ (within before)
      · rw [List.mem_singleton.mp here]
        exact .head _

theorem loaded_due {loaded : Wheel Sequences} (distinct : (wheel.lists (.change !wheel.frontidx)).Nodup)
    (adds : ∀ t ∈ wheel.lists (.change !wheel.frontidx), (wheel.nodes t).state = .add)
    (loads : wheel.switchChangelist.loadTimers = some loaded) (script : Nat → HandlerOutcome) :
    Undisturbed script loaded.nodes loaded.pool [] (loaded.lists (.near (loaded.tickcount % nearSlots))) ↔
      Undisturbed script wheel.nodes wheel.pool [] (wheel.due wheel.lists) := by
  have adds' : ∀ t ∈ wheel.switchChangelist.lists (.change wheel.switchChangelist.frontidx),
      (wheel.switchChangelist.nodes t).state = .add := adds
  obtain ⟨after, computed, pool, tick, -, nodes, lists⟩ := loads_spec distinct adds'
  rw [loadTimers_eq] at loads
  obtain rfl : after.clear (.change after.frontidx) = loaded := by
    have mapped := congrArg (Option.map fun next => next.clear (.change next.frontidx)) computed
    exact Option.some.inj (mapped.symm.trans loads)
  have slot : (after.clear (.change after.frontidx)).lists (.near (after.tickcount % nearSlots)) = wheel.due wheel.lists := by
    rw [clear_other (by simp), lists, tick]
    rfl
  rw [← slot]
  have kept : (after.clear (.change after.frontidx)).pool = wheel.pool := pool
  rw [kept]
  exact undisturbed_congr nodes _ _ _

end Proofs

/-- Nothing is deleted, and no tick writes into a node that was handed out again in it. -/
def Harmless (wheel : Wheel Sequences) : WheelAction → Prop
  | .call (.add _) => True
  | .call (.del _) => False
  | .tick script => (∀ uid, ∀ call ∈ (script uid).calls, ∃ request, call = .add request) ∧
    Undisturbed script wheel.nodes wheel.pool [] (wheel.due wheel.lists)

namespace Woven
open Proofs
variable {wheel : Wheel Sequences} {links : Links}

theorem init (ticktime : Int) {poolsize : Nat} (bounded : poolsize ≤ objectPoolMax) :
    Woven .active [] (.init ticktime poolsize Sequences.new) Links.new := by
  refine ⟨.init _ _ rfl, ⟨fun _ _ => rfl, fun _ _ => rfl, fun name => ?_, ⟨fun name => ?_, fun {one two t} first _ => ?_⟩⟩, ?_,
    bounded⟩
  · simpa [Sequences.owned, Wheel.init, Sequences.new] using ring_nil
  · simp [Sequences.owned, Wheel.init, Sequences.new]
  · simp [Sequences.owned, Wheel.init, Sequences.new] at first
  · intro index t _ linked
    cases linked

theorem step (woven : Woven .active [] wheel links) {action : WheelAction} (harmless : Harmless wheel action) :
    ∃ after links', (wheel.over links).step action = some (after.over links') ∧ wheel.step action = some after ∧
      Woven .active [] after links' := by
  cases action with
  | call call =>
    cases call with
    | add request =>
      obtain ⟨after, links', real, added, woven', -⟩ := woven.addTimer request
      exact ⟨after, links', real, added, woven'⟩
    | del timerid => cases harmless
  | tick script =>
    obtain ⟨adds, undisturbed⟩ := harmless
    have back : ListName.change (!wheel.frontidx) ≠ .active := by simp
    have distinct := woven.mirror.apart.nodup (.change !wheel.frontidx)
    rw [owned_other back back] at distinct
    exact woven.tick adds fun loaded loads =>
      (loaded_due distinct (fun t linked => woven.waiting back linked) loads script).mpr undisturbed

theorem run (woven : Woven .active [] wheel links) {actions : List WheelAction}
    (harmless : EachStep Wheel.step Harmless wheel actions) :
    ∃ after links', actions.foldlM Wheel.step (wheel.over links) = some (after.over links') ∧
      actions.foldlM Wheel.step wheel = some after ∧ Woven .active [] after links' := by
  induction actions generalizing wheel links with
  | nil => exact ⟨wheel, links, rfl, rfl, woven⟩
  | cons action actions ih =>
    obtain ⟨now, later⟩ := harmless
    obtain ⟨middle, links', real, stepped, woven'⟩ := woven.step now
    obtain ⟨after, links'', real', ran, woven''⟩ := ih woven' (later middle stepped)
    refine ⟨after, links'', ?_, ?_, woven''⟩
    · rw [List.foldlM_cons, real]
      exact real'
    · rw [List.foldlM_cons, stepped]
      exact ran

end Woven

namespace Proofs

/-- Three timers that have been loaded into the same slot. -/
def threeTimers : List WheelAction :=
  [.call (.add everyTick), .call (.add everyTick), .call (.add everyTick), .tick fun _ => ⟨[], true⟩]

private theorem threeTimers_linked : ∃ (wheel : Wheel Sequences) (links : Links),
    threeTimers.foldlM Wheel.step (.init 1 3 Links.new) = some (wheel.over links) ∧
      WellLinked wheel.lists (wheel.over links) := by
  have harmless : EachStep Wheel.step Harmless (.init 1 3 Sequences.new) threeTimers := by
    refine .cons trivial rfl (.cons trivial rfl (.cons trivial rfl (.cons ⟨?_, trivial⟩ rfl trivial)))
    intro uid call member
    cases member
  have bounded : 3 ≤ objectPoolMax := by decide
  obtain ⟨wheel, links, real, -, woven⟩ := (Woven.init 1 bounded).run harmless
  exact ⟨wheel, links, real, .of_woven woven⟩

/-- The first handler returns false, the second adds a timer and the last one returns false too. -/
def rivalScript : Nat → HandlerOutcome
  | 1 => ⟨[.add everyTick], true⟩
  | _ => ⟨[], false⟩

private theorem rivalScript_adds (uid : Nat) : ∀ call ∈ (rivalScript uid).calls, ∃ request, call = .add request := by
  intro call member
  rcases uid with _ | _ | uid
  · cases member
  · exact ⟨everyTick, List.mem_singleton.mp member⟩
  · cases member

/-- The first handler returns false, and the others go on without a call. -/
def quietScript : Nat → HandlerOutcome
  | 0 => ⟨[], false⟩
  | _ => ⟨[], true⟩

end Proofs
end Cassobee
