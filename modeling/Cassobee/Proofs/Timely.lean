import Cassobee.Proofs.Ledger

/-! The times of the nodes, place by place, and what each part of a tick does to them. All of it is
over sequences, where nothing fails. -/

namespace Cassobee
open Support

/-- `remove_timer` looks for the node where `readd_timer` has put it. -/
def Locatable (tick : Nat) (nexttime : Int) : Prop :=
  (tick : Int) + nearSlots ≤ nexttime ∨ tick % nearSlots = 0 ∨ nexttime = tick

/-- In the lists of the wheel; a node that is to be removed will be found. -/
def TimerNode.Settled (tick : Nat) (node : TimerNode) : Prop :=
  node.state = .active ∨ node.state = .del ∧ Locatable tick node.nexttime

def TimerNode.Periodic (node : TimerNode) : Prop := 0 ≤ node.timeout ∧ node.timeout < 2 ^ 63

/-- No node waits for a tick before `next`, the first one that has not handled its slot yet. The
hanging nodes wait for `lap` at least, from where on they are regrouped. -/
def Timely (tick next lap : Nat) : Place → TimerNode → Prop
  | .pool, node => node.state = .none
  | .todo, node => node.state = .active ∧ node.nexttime = tick ∧ node.Periodic
  | .list (.near slot), node => node.Settled next ∧ node.Periodic ∧ slot = (node.nexttime % (nearSlots : Int)).toNat ∧
      next ≤ node.nexttime ∧ node.nexttime < tick + nearSlots
  | .list .hanging, node => node.Settled next ∧ node.Periodic ∧ lap ≤ node.nexttime ∧ node.nexttime < tick + 2 ^ 63
  | .list (.change _), node => node.state = .add ∧ node.Periodic ∧ next ≤ node.nexttime ∧ node.nexttime < tick + 2 ^ 63
  | .list .active, _ => False

/-- The first tick of the next lap. -/
def lapEnd (tick : Nat) : Nat := (tick / nearSlots + 1) * nearSlots

/-- The nodes in a changelist are those that wait in it: to be added, or to be removed. -/
structure Queued (queue : List Nat) (wheel : Wheel Sequences) : Prop where
  nodup : queue.Nodup
  states {t : Nat} (member : t ∈ queue) : t < wheel.cap ∧ ((wheel.nodes t).state = .add ∨ (wheel.nodes t).state = .del)
  pending {t : Nat} (inside : t < wheel.cap) (deleted : (wheel.nodes t).state = .del) : t ∈ queue

/-- The wheel outside `load_timers`. -/
structure Good (terms : Terms) (next lap : Nat) (todo : List Nat) (wheel : Wheel Sequences) : Prop where
  ticktime : wheel.ticktime = terms.ticktime
  tidy : Tidy (Timely wheel.tickcount next lap) todo wheel
  ledger : Ledger terms next wheel
  queued : Queued (wheel.lists (.change !wheel.frontidx)) wheel
  front : wheel.lists (.change wheel.frontidx) = []
  linked {t : Nat} (member : t ∈ todo) : t ∈ wheel.lists .active

namespace Proofs
variable {S : Type} {wheel : Wheel S} {t : Nat}

theorem ticksLeft_eq (lower : wheel.tickcount ≤ (wheel.nodes t).nexttime)
    (upper : (wheel.nodes t).nexttime < wheel.tickcount + 2 ^ 63) :
    (wheel.ticksLeft t : Int) = (wheel.nodes t).nexttime - wheel.tickcount := by
  rw [Wheel.ticksLeft, Int.emod_eq_of_lt (by omega) (by rw [wordSize]; omega)]
  omega

theorem nearSlot_eq (lower : wheel.tickcount ≤ (wheel.nodes t).nexttime)
    (upper : (wheel.nodes t).nexttime < wheel.tickcount + 2 ^ 63) :
    wheel.nearSlot t = ((wheel.nodes t).nexttime % (nearSlots : Int)).toNat := by
  have left := ticksLeft_eq lower upper
  rw [Wheel.nearSlot]
  split
  · rfl
  · have now : (wheel.nodes t).nexttime = wheel.tickcount := by omega
    rw [now]
    omega

theorem home_eq {node : TimerNode} (here : wheel.nodes t = node) (lower : wheel.tickcount ≤ node.nexttime)
    (upper : node.nexttime < wheel.tickcount + 2 ^ 63) :
    wheel.home t = if (wheel.tickcount : Int) + nearSlots ≤ node.nexttime then .hanging
      else .near (node.nexttime % (nearSlots : Int)).toNat := by
  subst here
  have left := ticksLeft_eq lower upper
  rw [Wheel.home, nearSlot_eq lower upper]
  by_cases far : (wheel.tickcount : Int) + nearSlots ≤ (wheel.nodes t).nexttime
  · rw [if_pos far, if_pos (by omega)]
  · rw [if_neg far, if_neg (by omega)]

theorem lapEnd_le (tick : Nat) : lapEnd tick ≤ tick + nearSlots := by
  have := Nat.div_mul_le_self tick nearSlots
  rw [lapEnd, Nat.succ_mul]
  omega

theorem lt_lapEnd (tick : Nat) : tick < lapEnd tick := by
  have positive : 0 < nearSlots := by decide
  have := Nat.lt_div_mul_add positive (a := tick)
  rw [lapEnd, Nat.succ_mul]
  exact this

/-- `readd_timer` keeps the times. -/
theorem timely_home {tick next lap : Nat} {node : TimerNode} (now : wheel.tickcount = tick) (here : wheel.nodes t = node)
    (periodic : node.Periodic) (order : tick ≤ next) (lower : next ≤ node.nexttime) (upper : node.nexttime < tick + 2 ^ 63)
    (lap_le : lap ≤ tick + nearSlots) :
    Timely tick next lap (.list (wheel.home t)) { node with state := .active } := by
  subst now
  rw [home_eq here (by omega) upper]
  split
  next far => exact ⟨.inl rfl, periodic, by simp only; omega, upper⟩
  next close => exact ⟨.inl rfl, periodic, rfl, lower, by simp only; omega⟩

end Proofs

theorem Queued.other {queue : List Nat} {wheel wheel' : Wheel Sequences} {t : Nat} (queued : Queued queue wheel)
    (others : ∀ u, u ≠ t → wheel'.nodes u = wheel.nodes u) (cap : wheel'.cap = wheel.cap) (outside : t ∉ queue)
    (kept : (wheel'.nodes t).state ≠ .del) : Queued queue wheel' := by
  refine ⟨queued.nodup, ?_, ?_⟩
  · intro u member
    have different : u ≠ t := by
      rintro rfl
      exact outside member
    rw [cap, others u different]
    exact queued.states member
  · intro u inside deleted
    by_cases same : u = t
    · subst same
      exact absurd deleted kept
    · rw [others u same] at deleted
      exact queued.pending (cap ▸ inside) deleted

/-- A node is linked into a changelist. -/
theorem Queued.push {queue : List Nat} {wheel wheel' : Wheel Sequences} {t : Nat} (queued : Queued queue wheel)
    (others : ∀ u, u ≠ t → wheel'.nodes u = wheel.nodes u) (cap : wheel'.cap = wheel.cap) (outside : t ∉ queue)
    (inside : t < wheel.cap) (waits : (wheel'.nodes t).state = .add ∨ (wheel'.nodes t).state = .del) :
    Queued (queue ++ [t]) wheel' := by
  refine ⟨List.nodup_append.mpr ⟨queued.nodup, List.nodup_singleton t, ?_⟩, ?_, ?_⟩
  · intro u member _ single same
    rw [List.mem_singleton.mp single] at same
    exact outside (same ▸ member)
  · intro u member
    rw [cap]
    by_cases same : u = t
    · subst same
      exact ⟨inside, waits⟩
    · rw [others u same]
      apply queued.states
      simpa [same] using member
  · intro u insideU deleted
    by_cases same : u = t
    · simp [same]
    · rw [others u same] at deleted
      exact List.mem_append_left _ (queued.pending (cap ▸ insideU) deleted)

/-- What a call must meet in a tick for the timers to stay timely: a new timer is not due before the
tick in which it is loaded, and a timer to be removed will be found then. -/
def CallMeets {S : Type} (terms : Terms) (next : Nat) (wheel : Wheel S) : TimerCall → Prop
  | .add request =>
    wheel.pool = [] ∨ 0 ≤ request.timeout ∧ next ≤ (wheel.admitted request).nexttime ∧
      terms.accepts wheel.tickcount (wheel.admitted request).timeout (wheel.admitted request).nexttime
  | .del timerid =>
    timerid < wheel.cap → (wheel.nodes timerid).state = .active →
      terms.deletes ∧ next ≤ (wheel.nodes timerid).nexttime ∧ Locatable next (wheel.nodes timerid).nexttime

/-- The handler of a timer that is due, and what follows it. -/
def HandlerMeets {S C : Type} [TimerLists S C] (terms : Terms) (script : Nat → HandlerOutcome) (wheel : Wheel S)
    (t : Nat) : Prop :=
  EachStep Wheel.call (CallMeets terms (wheel.tickcount + 1)) wheel (script (wheel.nodes t).uid).calls ∧
    ((script (wheel.nodes t).uid).result = true → (wheel.nodes t).counted.repeats ≠ 0 → 0 < (wheel.nodes t).timeout)

/-- What the calls of a handler leave as it is. -/
structure Aside {S : Type} (todo : List Nat) (before after : Wheel S) : Prop where
  tickcount : after.tickcount = before.tickcount
  nodes {t : Nat} (member : t ∈ todo) : after.nodes t = before.nodes t

theorem Aside.refl {S : Type} (todo : List Nat) (wheel : Wheel S) : Aside todo wheel wheel := ⟨rfl, fun _ => rfl⟩

theorem Aside.trans {S : Type} {todo : List Nat} {one two three : Wheel S} (first : Aside todo one two)
    (second : Aside todo two three) : Aside todo one three :=
  ⟨second.tickcount.trans first.tickcount, fun member => (second.nodes member).trans (first.nodes member)⟩

namespace Good
open Proofs
variable {terms : Terms} {next lap : Nat} {todo : List Nat} {wheel : Wheel Sequences} {t : Nat}

theorem not_queued (good : Good terms next lap todo wheel) (other : (wheel.nodes t).state ≠ .add)
    (kept : (wheel.nodes t).state ≠ .del) : t ∉ wheel.lists (.change !wheel.frontidx) := by
  intro member
  rcases (good.queued.states member).2 with waits | deleted
  · exact other waits
  · exact kept deleted

theorem addTimer (good : Good terms next lap todo wheel) {request : AddRequest}
    (meets : CallMeets terms next wheel (.add request)) :
    ∃ wheel', wheel.addTimer request = some wheel' ∧ Good terms next lap todo wheel' ∧ Aside todo wheel wheel' := by
  rw [addTimer_eq]
  refine ⟨_, rfl, ?_⟩
  cases free : wheel.pool with
  | nil => exact ⟨good, .refl todo wheel⟩
  | cons t pool =>
    obtain ⟨positive, lower, agreed⟩ := meets.resolve_left (by simp [free])
    have here : t ∈ wheel.contents todo .pool := by
      rw [Wheel.contents, free]
      exact .head _
    have idle : (wheel.nodes t).state = .none := good.tidy.fits here
    have inside : t < wheel.cap := good.tidy.covered.mpr ⟨_, here⟩
    have notQueued : t ∉ wheel.lists (.change !wheel.frontidx) := good.not_queued (by simp [idle]) (by simp [idle])
    have outside (index : Bool) : t ∉ wheel.lists (.change index) := by
      by_cases front : index = wheel.frontidx
      · simp [front, good.front]
      · rwa [Bool.eq_not_of_ne front]
    have periodic : (wheel.admitted request).Periodic := by
      refine ⟨Int.tdiv_nonneg positive (good.ticktime ▸ terms.positive.le), ?_⟩
      exact (Int.tdiv_le_self _ positive).trans_lt request.upper
    have upper : (wheel.admitted request).nexttime < wheel.tickcount + 2 ^ 63 := by
      obtain ⟨nonneg, bound⟩ := periodic
      simp only [Wheel.admitted] at nonneg bound ⊢
      split <;> omega
    have here' : (wheel.accept request t pool).nodes t = wheel.admitted request := Function.update_self ..
    have others (u : Nat) (different : u ≠ t) : (wheel.accept request t pool).nodes u = wheel.nodes u :=
      Function.update_of_ne different _ _
    have tidy : Tidy (Timely wheel.tickcount next lap) todo
        ({ wheel with pool }.put (.change !wheel.frontidx) t (wheel.admitted request)) :=
      good.tidy.accept free outside rfl ⟨rfl, periodic, lower, upper⟩
    refine ⟨⟨good.ticktime, ⟨tidy.apart, tidy.fits, tidy.covered⟩, ?_, ?_, ?_, ?_⟩, rfl, ?_⟩
    · exact good.ledger.accept inside idle rfl rfl agreed rfl rfl rfl rfl
    · have pushed := good.queued.push others rfl notQueued inside (.inl (by rw [here']; rfl))
      simpa [Wheel.accept, Wheel.put] using pushed
    · simpa [Wheel.accept, Wheel.put, Sequences.pushBack] using good.front
    · intro u member
      simpa [Wheel.accept, Wheel.put, Sequences.pushBack] using good.linked member
    · intro u member
      apply others
      rintro rfl
      cases good.tidy.apart.only (j := .todo) here member

/-- A timer that is being handled is not deleted, and nothing is handled between ticks. -/
theorem delTimer (good : Good terms next lap todo wheel) {timerid : Nat} (phase : todo = [] ∨ wheel.tickcount < next)
    (meets : CallMeets terms next wheel (.del timerid)) :
    ∃ wheel', wheel.delTimer timerid = some wheel' ∧ Good terms next lap todo wheel' ∧ Aside todo wheel wheel' := by
  rw [delTimer_eq]
  refine ⟨_, rfl, ?_⟩
  split
  next applies =>
    obtain ⟨inside, active⟩ := applies
    obtain ⟨allowed, lower, locatable⟩ := meets inside active
    have notQueued : timerid ∉ wheel.lists (.change !wheel.frontidx) := good.not_queued (by simp [active]) (by simp [active])
    have here' : (wheel.doom timerid).nodes timerid = { wheel.nodes timerid with state := .del } := Function.update_self ..
    have others (u : Nat) (different : u ≠ timerid) : (wheel.doom timerid).nodes u = wheel.nodes u :=
      Function.update_of_ne different _ _
    have idle : timerid ∉ todo := by
      intro member
      have here : timerid ∈ wheel.contents todo .todo := member
      have now : (wheel.nodes timerid).nexttime = wheel.tickcount := (good.tidy.fits here).2.1
      rcases phase with rfl | before
      · cases member
      · omega
    have revised : Tidy (Timely wheel.tickcount next lap) todo
        (wheel.setNode timerid { wheel.nodes timerid with state := .del }) := by
      apply good.tidy.revise (by simp [active]) (by simp)
      intro place member
      have fit := good.tidy.fits member
      cases place with
      | pool => simp [Timely, active] at fit
      | todo => exact absurd member idle
      | list name =>
        cases name with
        | near slot => exact ⟨.inr ⟨rfl, locatable⟩, fit.2⟩
        | hanging => exact ⟨.inr ⟨rfl, locatable⟩, fit.2⟩
        | change index => simp [Timely, active] at fit
        | active => exact fit
    have tidy : Tidy (Timely wheel.tickcount next lap) todo { wheel.setNode timerid { wheel.nodes timerid with state := .del } with
        lists := wheel.lists.pushBack (.change !wheel.frontidx) timerid } :=
      revised.enqueue (by simp [Wheel.setNode])
    refine ⟨⟨good.ticktime, ⟨tidy.apart, tidy.fits, tidy.covered⟩, ?_, ?_, ?_, ?_⟩, rfl, ?_⟩
    · exact good.ledger.delete allowed inside active rfl rfl rfl rfl
    · have pushed := good.queued.push others rfl notQueued inside (.inr (by rw [here']))
      simpa [Wheel.doom, Wheel.put, Wheel.record] using pushed
    · simpa [Wheel.doom, Wheel.put, Wheel.record, Sequences.pushBack] using good.front
    · intro u member
      simpa [Wheel.doom, Wheel.put, Wheel.record, Sequences.pushBack] using good.linked member
    · intro u member
      apply others
      rintro rfl
      exact idle member
  next => exact ⟨good, .refl todo wheel⟩

theorem call (good : Good terms next lap todo wheel) (phase : todo = [] ∨ wheel.tickcount < next) {call : TimerCall}
    (meets : CallMeets terms next wheel call) :
    ∃ wheel', wheel.call call = some wheel' ∧ Good terms next lap todo wheel' ∧ Aside todo wheel wheel' := by
  cases call with
  | add request => exact good.addTimer meets
  | del timerid => exact good.delTimer phase meets

theorem calls (good : Good terms next lap todo wheel) (phase : todo = [] ∨ wheel.tickcount < next) {calls : List TimerCall}
    (meets : EachStep Wheel.call (CallMeets terms next) wheel calls) :
    ∃ wheel', calls.foldlM Wheel.call wheel = some wheel' ∧ Good terms next lap todo wheel' ∧ Aside todo wheel wheel' := by
  refine (foldlM_keeps (fun calls now =>
    Good terms next lap todo now ∧ Aside todo wheel now ∧ EachStep Wheel.call (CallMeets terms next) now calls) ?_
    ⟨good, .refl todo wheel, meets⟩).imp fun _ result => ⟨result.1, result.2.1, result.2.2.1⟩
  rintro call rest now ⟨good, aside, meets, later⟩
  obtain ⟨after, called, good', aside'⟩ := good.call (phase.imp_right fun before => aside.tickcount ▸ before) meets
  exact ⟨after, called, good', aside.trans aside', later after called⟩

/-- The node that is being handled is written or freed, and unlinked from the active list or left
there; the rest stays good. -/
theorem handled (good : Good terms next lap (t :: todo) wheel) {wheel' : Wheel Sequences}
    (tidy : Tidy (Timely wheel.tickcount next lap) todo wheel') (ledger : Ledger terms next wheel')
    (others : ∀ u, u ≠ t → wheel'.nodes u = wheel.nodes u) (kept : (wheel'.nodes t).state ≠ .del)
    (cap : wheel'.cap = wheel.cap) (ticktime : wheel'.ticktime = wheel.ticktime) (tickcount : wheel'.tickcount = wheel.tickcount)
    (frontidx : wheel'.frontidx = wheel.frontidx) (changes : ∀ index, wheel'.lists (.change index) = wheel.lists (.change index))
    (active : wheel'.lists .active = wheel.lists .active ∨ wheel'.lists .active = (wheel.lists .active).erase t) :
    Good terms next lap todo wheel' := by
  have here : t ∈ wheel.contents (t :: todo) .todo := .head _
  obtain ⟨running, -, -⟩ := good.tidy.fits here
  have distinct : t ∉ todo := (List.nodup_cons.mp (good.tidy.apart.nodup .todo)).1
  refine ⟨?_, ?_, ledger, ?_, ?_, ?_⟩
  · rw [ticktime]
    exact good.ticktime
  · rw [tickcount]
    exact tidy
  · rw [frontidx, changes]
    exact good.queued.other others cap (good.not_queued (by simp [running]) (by simp [running])) kept
  · rw [frontidx, changes]
    exact good.front
  · intro u member
    have linked := good.linked (.tail t member)
    rcases active with same | erased
    · rwa [same]
    · have different : u ≠ t := by
        rintro rfl
        exact distinct member
      rwa [erased, List.mem_erase_of_ne different]

private theorem refuse (good : Good terms (wheel.tickcount + 1) lap (t :: todo) wheel) :
    Good terms (wheel.tickcount + 1) lap todo
      ((wheel.record (.fired (wheel.nodes t).uid wheel.tickcount false)).freeTimer t) := by
  have here : t ∈ wheel.contents (t :: todo) .todo := .head _
  obtain ⟨active, due, -⟩ := good.tidy.fits here
  refine good.handled ?_ ?_ (fun u different => Function.update_of_ne different _ _) ?_ rfl rfl rfl rfl (fun _ => rfl) (.inl rfl)
  · have tidy := good.tidy.free (by rfl)
    exact ⟨tidy.apart, tidy.fits, tidy.covered⟩
  · exact good.ledger.finish (good.tidy.covered.mpr ⟨_, here⟩) active due le_rfl (Nat.lt_succ_self _) false (by simp) rfl rfl rfl
      rfl rfl rfl
  · simp [Wheel.freeTimer, Wheel.setState, Wheel.setNode, Wheel.record]

private theorem exhaust (good : Good terms (wheel.tickcount + 1) lap (t :: todo) wheel)
    (done : (wheel.nodes t).counted.repeats = 0) :
    Good terms (wheel.tickcount + 1) lap todo
      (((Wheel.dropped (wheel.record (.fired (wheel.nodes t).uid wheel.tickcount true)) .active t).setNode t
        (wheel.nodes t).counted).freeTimer t) := by
  have here : t ∈ wheel.contents (t :: todo) .todo := .head _
  obtain ⟨active, due, periodic⟩ := good.tidy.fits here
  have nodes : ((((wheel.record (.fired (wheel.nodes t).uid wheel.tickcount true)).dropped .active t).setNode t
      (wheel.nodes t).counted).freeTimer t).nodes =
      Function.update wheel.nodes t { (wheel.nodes t).counted with state := .none } := by
    simp [Wheel.freeTimer, Wheel.setState, Wheel.setNode, Wheel.record, Wheel.dropped]
  refine good.handled ?_ ?_ ?_ ?_ rfl rfl rfl rfl ?_ ?_
  · have revised : Tidy (Timely wheel.tickcount (wheel.tickcount + 1) lap) (t :: todo)
        ((wheel.dropped .active t).setNode t (wheel.nodes t).counted) := by
      have unlinked : Tidy _ (t :: todo) (wheel.dropped .active t) := good.tidy.unlinked
      apply unlinked.revise (by simp [active, Wheel.dropped]) (by simp [active, TimerNode.counted])
      intro place member
      obtain rfl := unlinked.apart.only (j := .todo) member (.head _)
      exact ⟨active, due, periodic⟩
    have tidy := revised.free (by rfl)
    exact ⟨tidy.apart, tidy.fits, tidy.covered⟩
  · refine good.ledger.finish (good.tidy.covered.mpr ⟨_, here⟩) active due le_rfl (Nat.lt_succ_self _) true (fun _ => done) ?_ rfl
      rfl nodes rfl rfl
    simp [Wheel.freeTimer, Wheel.setState, Wheel.setNode, Wheel.record, Wheel.dropped, TimerNode.counted]
  · intro u different
    rw [nodes, Function.update_of_ne different]
  · simp [nodes]
  · intro index
    simp [Wheel.freeTimer, Wheel.setState, Wheel.setNode, Wheel.record, Wheel.dropped]
  · right
    simp [Wheel.freeTimer, Wheel.setState, Wheel.setNode, Wheel.record, Wheel.dropped]

private theorem rearm (good : Good terms (wheel.tickcount + 1) lap (t :: todo) wheel)
    (lap_le : lap ≤ wheel.tickcount + nearSlots) (more : (wheel.nodes t).counted.repeats ≠ 0) (positive : 0 < (wheel.nodes t).timeout) :
    Good terms (wheel.tickcount + 1) lap todo
      ((Wheel.dropped (wheel.record (.fired (wheel.nodes t).uid wheel.tickcount true)) .active t).put
        ((wheel.setNode t (wheel.nodes t).again).home t) t { (wheel.nodes t).again with state := .active }) := by
  have here : t ∈ wheel.contents (t :: todo) .todo := .head _
  obtain ⟨active, due, periodic⟩ := good.tidy.fits here
  refine good.handled ?_ ?_ (fun u different => Function.update_of_ne different _ _) ?_ rfl rfl rfl rfl ?_ ?_
  · have unlinked : Tidy _ (t :: todo) (wheel.dropped .active t) := good.tidy.unlinked
    have fit : Timely wheel.tickcount (wheel.tickcount + 1) lap (.list ((wheel.setNode t (wheel.nodes t).again).home t))
        { (wheel.nodes t).again with state := .active } := by
      have bound := periodic.2
      refine timely_home rfl (by simp [Wheel.setNode]) periodic (Nat.le_succ _) ?_ ?_ lap_le
      · simp only [TimerNode.again, due]
        omega
      · simp only [TimerNode.again, due]
        omega
    have tidy := unlinked.arm home_isHome (by simp) fit
    exact ⟨tidy.apart, tidy.fits, tidy.covered⟩
  · exact good.ledger.again (good.tidy.covered.mpr ⟨_, here⟩) active due le_rfl (Nat.lt_succ_self _) more rfl rfl rfl rfl
  · simp [Wheel.put]
  · intro index
    rw [put_other home_ne_change]
    simp [Wheel.dropped, Wheel.record]
  · right
    rw [put_other home_ne_active]
    simp [Wheel.dropped, Wheel.record]

theorem handleNode (good : Good terms (wheel.tickcount + 1) lap (t :: todo) wheel) (lap_le : lap ≤ wheel.tickcount + nearSlots)
    {script : Nat → HandlerOutcome} (meets : HandlerMeets terms script wheel t) :
    ∃ wheel', Wheel.handleNode script t wheel = some wheel' ∧ Good terms (wheel.tickcount + 1) lap todo wheel' ∧
      Aside todo wheel wheel' := by
  obtain ⟨callsMeet, again⟩ := meets
  obtain ⟨after, called, good', aside⟩ := good.calls (.inr (Nat.lt_succ_self _)) callsMeet
  have same : after.nodes t = wheel.nodes t := aside.nodes (.head _)
  have here : t ∈ wheel.contents (t :: todo) .todo := .head _
  have active : (wheel.nodes t).state = .active := (good.tidy.fits here).1
  have others {u : Nat} (member : u ∈ todo) : u ≠ t := by
    rintro rfl
    exact (List.nodup_cons.mp (good.tidy.apart.nodup .todo)).1 member
  have untouched {final : Wheel Sequences} (now : final.tickcount = after.tickcount)
      (others' : ∀ u, u ≠ t → final.nodes u = after.nodes u) : Aside todo wheel final :=
    ⟨now.trans aside.tickcount, fun member => (others' _ (others member)).trans (aside.nodes (.tail t member))⟩
  rw [handleNode_active active called]
  rw [← same] at again ⊢
  rw [← aside.tickcount] at good' lap_le ⊢
  cases outcome : (script (after.nodes t).uid).result with
  | false => exact ⟨_, rfl, good'.refuse, untouched rfl fun u different => Function.update_of_ne different _ _⟩
  | true =>
    by_cases done : (after.nodes t).counted.repeats = 0
    · refine ⟨_, rearm_done (good'.linked (.head _)) done, good'.exhaust done, untouched rfl ?_⟩
      intro u different
      simp [Wheel.freeTimer, Wheel.setState, Wheel.setNode, Wheel.record, Wheel.dropped, different]
    · refine ⟨_, rearm_again (good'.linked (.head _)) done, ?_, untouched rfl ?_⟩
      · exact good'.rearm lap_le done (again outcome done)
      · intro u different
        exact Function.update_of_ne different _ _

/-- Nothing waits in the changelists when `handle_timer` begins, so nothing is deleted either. -/
theorem collect (good : Good terms wheel.tickcount lap [] wheel) (idle : wheel.lists (.change !wheel.frontidx) = []) :
    Good terms (wheel.tickcount + 1) lap (wheel.lists (.near (wheel.tickcount % nearSlots))) wheel.collected := by
  have settled {t : Nat} (inside : t < wheel.cap) : (wheel.nodes t).state ≠ .del := by
    intro deleted
    have member := good.queued.pending inside deleted
    simp [idle] at member
  have changes (index : Bool) : wheel.collected.lists (.change index) = wheel.lists (.change index) := by
    simp [Wheel.collected, Sequences.swap, Sequences.clear]
  refine ⟨good.ticktime, ?_, ?_, ?_, ?_, ?_⟩
  · refine good.tidy.collect (by simp [Sequences.swap, Sequences.clear]) ?_ ?_ ?_
    · intro name notSlot notActive
      simp [Sequences.swap, Sequences.clear, notSlot, notActive]
    · intro t member
      obtain ⟨state, periodic, slot, lower, upper⟩ := good.tidy.fits member
      have running := state.resolve_right fun deleted => settled (good.tidy.covered.mpr ⟨_, member⟩) deleted.1
      have now : (wheel.nodes t).nexttime = wheel.tickcount := by
        simp only [nearSlots] at slot upper
        omega
      exact ⟨running, now, periodic⟩
    · intro place t member elsewhere
      have fit := good.tidy.fits member
      have inside := good.tidy.covered.mpr ⟨_, member⟩
      cases place with
      | pool => exact fit
      | todo => cases member
      | list name =>
        cases name with
        | near slot =>
          obtain ⟨state, periodic, here, lower, upper⟩ := fit
          have running := state.resolve_right fun deleted => settled inside deleted.1
          have different : slot ≠ wheel.tickcount % nearSlots := fun same => elsewhere (by rw [same])
          refine ⟨.inl running, periodic, here, ?_, upper⟩
          simp only [nearSlots] at here different
          omega
        | hanging =>
          obtain ⟨state, periodic, lower, upper⟩ := fit
          have running := state.resolve_right fun deleted => settled inside deleted.1
          exact ⟨.inl running, periodic, lower, upper⟩
        | change index =>
          have linked : t ∈ wheel.lists (.change index) := List.mem_of_mem_filter member
          by_cases front : index = wheel.frontidx
          · simp [front, good.front] at linked
          · simp [Bool.eq_not_of_ne front, idle] at linked
        | active => cases member
  · exact (good.ledger.mono (Nat.le_succ _)).transfer rfl rfl rfl rfl
  · rw [changes]
    exact ⟨good.queued.nodup, good.queued.states, good.queued.pending⟩
  · rw [changes]
    exact good.front
  · intro t member
    simpa [Wheel.collected, Sequences.swap, Sequences.clear] using member

/-- All timers that are due are handled, each once. -/
theorem handleTimer (good : Good terms wheel.tickcount lap [] wheel) (idle : wheel.lists (.change !wheel.frontidx) = [])
    (lap_le : lap ≤ wheel.tickcount + nearSlots) {script : Nat → HandlerOutcome}
    (meets : EachStep (fun wheel t => Wheel.handleNode script t wheel) (HandlerMeets terms script) wheel.collected
      (wheel.lists (.near (wheel.tickcount % nearSlots)))) :
    ∃ wheel', wheel.handleTimer script = some wheel' ∧ wheel'.tickcount = wheel.tickcount ∧
      Good terms (wheel.tickcount + 1) lap [] wheel' := by
  obtain ⟨final, walked, now, good', -⟩ := foldlM_keeps (fun rest now => now.tickcount = wheel.tickcount ∧
    Good terms (wheel.tickcount + 1) lap rest now ∧
    EachStep (fun wheel t => Wheel.handleNode script t wheel) (HandlerMeets terms script) now rest) (by
      rintro t rest now ⟨same, good, meets, later⟩
      rw [← same] at good lap_le ⊢
      obtain ⟨after, handled, good', aside⟩ := good.handleNode lap_le meets
      exact ⟨after, handled, aside.tickcount, good', later after handled⟩) ⟨rfl, good.collect idle, meets⟩
  refine ⟨final.clear .active, ?_, now, good'.ticktime, good'.tidy.clear_active, good'.ledger.transfer rfl rfl rfl rfl, ?_, ?_,
    by simp⟩
  · rw [handleTimer_eq, walked]
    rfl
  · rw [clear_other (by simp)]
    exact ⟨good'.queued.nodup, good'.queued.states, good'.queued.pending⟩
  · rw [clear_other (by simp)]
    exact good'.front

end Good
end Cassobee
