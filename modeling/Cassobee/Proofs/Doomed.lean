import Cassobee.Proofs.Integrity
import Cassobee.Proofs.Schedule

/-! Timers that are to be removed. `del_timer` links a node into a changelist through the links that its
own list needs, so the list can only be used when it has no other node: its `head` and its `count` are
then all that is left of it. For the links such a node is one that waits in the changelist. -/

namespace Cassobee
open Support

def TimerNode.shown (node : TimerNode) : TimerNode := if node.state = .del then { node with state := .add } else node

/-- The value of a list that is held is not shown. -/
def ListName.shown {β : Type} (held : ListName → Bool) (empty : β) (value : ListName → β) : ListName → β := fun name =>
  if held name then empty else value name

def Sequences.hide (held : ListName → Bool) (lists : Sequences) : Sequences := ListName.shown held [] lists

def Links.hide (held : ListName → Bool) (links : Links) : Links :=
  { links with head := ListName.shown held none links.head, count := ListName.shown held 0 links.count }

/-- The wheel without what is left of the held lists. -/
def Wheel.hide (held : ListName → Bool) (wheel : Wheel Sequences) : Wheel Sequences :=
  { wheel with lists := wheel.lists.hide held, nodes := fun t => (wheel.nodes t).shown }

namespace Proofs
variable {held : ListName → Bool} {name : ListName} {t : Nat} {wheel : Wheel Sequences} {links : Links} {node : TimerNode}

theorem shown_eq (kept : node.state ≠ .del) : node.shown = node := if_neg kept

theorem shown_update {nodes : Nat → TimerNode} (kept : node.state ≠ .del) :
    (fun u => (Function.update nodes t node u).shown) = Function.update (fun u => (nodes u).shown) t node := by
  funext u
  by_cases same : u = t
  · subst same
    simp [shown_eq kept]
  · simp [same]

theorem shown_apart {β : Type} {empty : β} {value : ListName → β} (apart : held name = false) :
    ListName.shown held empty value name = value name := by
  simp [ListName.shown, apart]

theorem shown_edit {β : Type} {empty new : β} {value : ListName → β} (apart : held name = false) :
    ListName.shown held empty (Function.update value name new) = Function.update (ListName.shown held empty value) name new := by
  funext other
  by_cases same : other = name
  · subst same
    simp [ListName.shown, apart]
  · simp [ListName.shown, same]

theorem hide_put (apart : held name = false) (kept : node.state ≠ .del) :
    (wheel.put name t node).hide held = (wheel.hide held).put name t node := by
  simp only [Wheel.hide, Wheel.put, shown_update kept, Sequences.pushBack, Sequences.hide, shown_edit apart, shown_apart apart]

theorem hide_dropped (apart : held name = false) : (wheel.dropped name t).hide held = (wheel.hide held).dropped name t := by
  simp only [Wheel.hide, Wheel.dropped, Sequences.hide, shown_edit apart, shown_apart apart]

theorem hide_setNode (kept : node.state ≠ .del) : (wheel.setNode t node).hide held = (wheel.hide held).setNode t node := by
  simp only [Wheel.hide, Wheel.setNode, shown_update kept]

theorem hide_clear (apart : held name = false) : (wheel.clear name).hide held = (wheel.hide held).clear name := by
  simp only [Wheel.hide, Wheel.clear, TimerLists.clear, Sequences.clear, Sequences.hide, shown_edit apart]

@[simp] theorem shown_uid (node : TimerNode) : node.shown.uid = node.uid := by
  rw [TimerNode.shown]
  split <;> rfl

@[simp] theorem shown_timeout (node : TimerNode) : node.shown.timeout = node.timeout := by
  rw [TimerNode.shown]
  split <;> rfl

@[simp] theorem shown_nexttime (node : TimerNode) : node.shown.nexttime = node.nexttime := by
  rw [TimerNode.shown]
  split <;> rfl

@[simp] theorem shown_repeats (node : TimerNode) : node.shown.repeats = node.repeats := by
  rw [TimerNode.shown]
  split <;> rfl

theorem hide_freeTimer : (wheel.freeTimer t).hide held = (wheel.hide held).freeTimer t := by
  have gone : ({ wheel.nodes t with state := .none } : TimerNode).state ≠ .del := by simp
  simp only [Wheel.freeTimer, Wheel.setState, Wheel.setNode, Wheel.record, Wheel.hide, shown_update gone, shown_uid,
    shown_timeout, shown_nexttime, shown_repeats]

theorem hide_accept {request : AddRequest} {pool : List Nat} (apart : held (.change !wheel.frontidx) = false) :
    (wheel.accept request t pool).hide held = (wheel.hide held).accept request t pool := by
  simp only [Wheel.accept]
  rw [hide_put]
  · rfl
  · exact apart
  · simp [Wheel.admitted]

theorem hide_home : (wheel.hide held).home t = wheel.home t := by
  have left : (wheel.hide held).ticksLeft t = wheel.ticksLeft t := by
    simp only [Wheel.ticksLeft, Wheel.hide, shown_nexttime]
  simp only [Wheel.home, Wheel.nearSlot, left]
  simp only [Wheel.hide, shown_nexttime]

/-- Nothing is to be removed. -/
theorem hide_nothing (kept : ∀ t, (wheel.nodes t).state ≠ .del) : wheel.hide (fun _ => false) = wheel := by
  have nodes : (fun t => (wheel.nodes t).shown) = wheel.nodes := funext fun t => shown_eq (kept t)
  simp only [Wheel.hide, nodes]
  rfl

/-- What is pushed onto a list that is shown. -/
theorem hide_pushBack (apart : held name = false) :
    (links.hide held).pushBack name t = (links.pushBack name t).map (Links.hide held) := by
  simp only [Links.pushBack, Links.hide, shown_apart apart]
  cases found : links.head name with
  | none => simp only [Option.map_some, Links.hide, shown_edit apart]
  | some first =>
    cases last : links.prev first with
    | none => simp [last]
    | some last' => simp [last, Links.hide, shown_edit apart]

theorem hide_pop (apart : held name = false) :
    (links.hide held).pop name t = (links.pop name t).map (Links.hide held) := by
  simp only [Links.pop, Links.hide, shown_apart apart]
  cases found : links.head name with
  | none => rfl
  | some first =>
    by_cases single : t = first ∧ links.count name = 1
    · simp [single, Links.hide, shown_edit apart]
    · cases forward : links.next t with
      | none => simp [single]
      | some after =>
        cases backward : links.prev t with
        | none => simp [single]
        | some before =>
          by_cases start : t = first
          · have several : links.count name ≠ 1 := fun one => single ⟨start, one⟩
            simp [start, several, Links.hide, shown_edit apart]
          · simp [start, Links.hide, shown_edit apart]

theorem pushBack_elsewhere {links' : Links} (pushed : links.pushBack name t = some links') {other : ListName}
    (different : other ≠ name) : links'.head other = links.head other ∧ links'.count other = links.count other := by
  rw [Links.pushBack] at pushed
  cases found : links.head name with
  | none =>
    simp only [found, Option.some.injEq] at pushed
    subst pushed
    simp [different]
  | some first =>
    simp only [found, Option.bind_eq_bind, Option.bind_eq_some_iff, Option.pure_def, Option.some.injEq] at pushed
    obtain ⟨last, -, rfl⟩ := pushed
    simp [different]

theorem pop_elsewhere {links' : Links} (popped : links.pop name t = some links') {other : ListName}
    (different : other ≠ name) : links'.head other = links.head other ∧ links'.count other = links.count other := by
  simp only [Links.pop, Option.bind_eq_bind, Option.bind_eq_some_iff, Option.pure_def] at popped
  obtain ⟨first, -, popped⟩ := popped
  split at popped
  · obtain rfl := Option.some.inj popped
    simp [different]
  · simp only [Option.bind_eq_some_iff, Option.some.injEq] at popped
    obtain ⟨after, -, before, -, rfl⟩ := popped
    refine ⟨?_, by simp [different]⟩
    split
    · simp [different]
    · rfl

theorem isHome_ne_active (isHome : name.isHome) : name ≠ .active := by
  rintro rfl
  cases isHome

theorem shown_more {β : Type} {empty : β} {value : ListName → β} :
    ListName.shown (Function.update held name true) empty value = Function.update (ListName.shown held empty value) name empty := by
  funext other
  by_cases same : other = name
  · subst same
    simp [ListName.shown]
  · simp [ListName.shown, same]

theorem doom_over {links' : Links} (pushed : links.pushBack (.change !wheel.frontidx) t = some links') :
    Wheel.addToChangelist (((wheel.over links).setState t .del).record (.deleted ((wheel.over links).nodes t).uid)) t =
      some ((wheel.doom t).over links') := by
  rw [Wheel.addToChangelist, Wheel.push]
  change (links.pushBack (.change !wheel.frontidx) t).map _ = _
  rw [pushed]
  rfl

theorem keeps_unhide {held' : ListName → Bool} {links' : Links} {kept : Nat → Prop} (apart : held .active = false)
    (apart' : held' .active = false) (keeps : Links.Keeps kept (links.hide held) (links'.hide held')) :
    Links.Keeps kept links links' := by
  have head := keeps.head
  have count := keeps.count
  simp only [Links.hide, shown_apart apart, shown_apart apart'] at head count
  exact ⟨keeps.links, head, count⟩

end Proofs

/-- A list holds nothing but a node that is to be removed. -/
structure Doomed (held : ListName → Bool) (walked : ListName) (todo : List Nat) (wheel : Wheel Sequences) (links : Links) :
    Prop where
  woven : Woven walked todo (wheel.hide held) (links.hide held)
  alone {name : ListName} (is : held name = true) : name.isHome = true ∧ ∃ t, wheel.lists name = [t] ∧
    (wheel.nodes t).state = .del ∧ links.head name = some t ∧ links.count name = 1
  found {t : Nat} (deleted : (wheel.nodes t).state = .del) : ∃ name, held name = true ∧ wheel.lists name = [t]

theorem Around.hide {held : ListName → Bool} {passed todo : List Nat} {wheel : Wheel Sequences} {links : Links}
    (apart : held .active = false) (around : Around passed todo wheel links) :
    Around passed todo (wheel.hide held) (links.hide held) where
  active := (Proofs.shown_apart apart).trans around.active
  head := (Proofs.shown_apart apart).trans around.head
  count := (Proofs.shown_apart apart).trans around.count
  arc := around.arc
  distinct := around.distinct
  inside := around.inside

theorem Around.unhide {held : ListName → Bool} {passed todo : List Nat} {wheel : Wheel Sequences} {links : Links}
    (apart : held .active = false) (around : Around passed todo (wheel.hide held) (links.hide held)) :
    Around passed todo wheel links where
  active := (Proofs.shown_apart apart).symm.trans around.active
  head := (Proofs.shown_apart apart).symm.trans around.head
  count := (Proofs.shown_apart apart).symm.trans around.count
  arc := around.arc
  distinct := around.distinct
  inside := around.inside

/-- A list that has a node that is to be removed. -/
def Wheel.Pending (wheel : Wheel Sequences) (name : ListName) : Prop := ∃ t ∈ wheel.lists name, (wheel.nodes t).state = .del

namespace Doomed
open Links Proofs
variable {held : ListName → Bool} {walked name : ListName} {todo : List Nat} {wheel : Wheel Sequences} {links : Links} {t : Nat}

theorem unheld (doomed : Doomed held walked todo wheel links) (name : ListName) (other : name.isHome = false) : held name = false := by
  by_contra is
  rw [Bool.not_eq_false] at is
  rw [(doomed.alone is).1] at other
  cases other

theorem apart (doomed : Doomed held walked todo wheel links) (free : ¬ wheel.Pending name) : held name = false := by
  by_contra is
  rw [Bool.not_eq_false] at is
  obtain ⟨-, t, alone, deleted, -⟩ := doomed.alone is
  exact free ⟨t, by simp [alone], deleted⟩

/-- What is done to a node that is not to be removed, away from the lists that are held. -/
theorem keep (doomed : Doomed held walked todo wheel links) {walked' : ListName} {todo' : List Nat} {after : Wheel Sequences}
    {links' : Links} (woven : Woven walked' todo' (after.hide held) (links'.hide held))
    (lists : ∀ name, held name = true → after.lists name = wheel.lists name)
    (linked : ∀ name, held name = true → links'.head name = links.head name ∧ links'.count name = links.count name)
    (others : ∀ u, u ≠ t → after.nodes u = wheel.nodes u) (before : (wheel.nodes t).state ≠ .del)
    (now : (after.nodes t).state ≠ .del) : Doomed held walked' todo' after links' := by
  refine ⟨woven, fun {name} is => ?_, fun {u} deleted => ?_⟩
  · obtain ⟨isHome, u, alone, deleted, head, count⟩ := doomed.alone is
    have different : u ≠ t := by
      rintro rfl
      exact before deleted
    refine ⟨isHome, u, (lists name is).trans alone, ?_, (linked name is).1.trans head, (linked name is).2.trans count⟩
    rw [others u different]
    exact deleted
  · have different : u ≠ t := by
      rintro rfl
      exact now deleted
    rw [others u different] at deleted
    obtain ⟨name, is, alone⟩ := doomed.found deleted
    exact ⟨name, is, (lists name is).trans alone⟩

theorem accept (doomed : Doomed held .active todo wheel links) (request : AddRequest) {pool : List Nat}
    (free : wheel.pool = t :: pool) :
    ∃ links', (links.assign t).pushBack (.change !wheel.frontidx) t = some links' ∧
      Doomed held .active todo (wheel.accept request t pool) links' ∧ Keeps (· ∈ todo) links links' ∧
      Beside todo wheel (wheel.accept request t pool) := by
  have back := doomed.unheld (.change !wheel.frontidx) rfl
  have global := doomed.unheld .active rfl
  have free' : (wheel.hide held).pool = t :: pool := free
  obtain ⟨shown, pushed, woven, kept, -⟩ := doomed.woven.accept request free'
  have pushed' : ((links.assign t).hide held).pushBack (.change !wheel.frontidx) t = some shown := pushed
  rw [hide_pushBack back, Option.map_eq_some_iff] at pushed'
  obtain ⟨links', real, rfl⟩ := pushed'
  rw [← hide_accept back] at woven
  have here : t ∈ (wheel.hide held).contents todo .pool := by
    rw [Wheel.contents, free']
    exact .head _
  have other {u : Nat} (member : u ∈ todo) : u ≠ t := by
    rintro rfl
    have there : u ∈ (wheel.hide held).contents todo .todo := member
    cases doomed.woven.tidy.apart.only here there
  have idle : ((wheel.hide held).nodes t).state = .none := doomed.woven.tidy.fits here
  have others (u : Nat) (different : u ≠ t) : (wheel.accept request t pool).nodes u = wheel.nodes u :=
    Function.update_of_ne different _ _
  refine ⟨links', real, doomed.keep woven (fun name is => ?_) (fun name is => ?_) others ?_ ?_, keeps_unhide global global kept,
    ⟨fun member => others _ (other member), ?_, rfl, rfl, rfl⟩⟩
  · exact pushBack_other fun same => by simp [same, back] at is
  · exact pushBack_elsewhere real fun same => by simp [same, back] at is
  · intro deleted
    simp [Wheel.hide, TimerNode.shown, deleted] at idle
  · simp [Wheel.accept, Wheel.put, Wheel.admitted]
  · have global : ListName.active ≠ .change !wheel.frontidx := by simp
    exact pushBack_other (t := t) global

theorem active (doomed : Doomed held walked (t :: todo) wheel links) : (wheel.nodes t).state = .active := by
  have here : t ∈ (wheel.hide held).contents (t :: todo) .todo := .head _
  have active : (wheel.nodes t).shown.state = .active := doomed.woven.tidy.fits here
  by_cases deleted : (wheel.nodes t).state = .del
  · simp [TimerNode.shown, deleted] at active
  · rwa [shown_eq deleted] at active

/-- The node at hand is not to be removed. -/
theorem kept (doomed : Doomed held walked (t :: todo) wheel links) : (wheel.nodes t).state ≠ .del := by
  simp [doomed.active]

theorem free (doomed : Doomed held walked (t :: todo) wheel links) : Doomed held walked todo (wheel.freeTimer t) links := by
  have woven := doomed.woven.free
  rw [← hide_freeTimer] at woven
  refine doomed.keep woven (fun _ _ => rfl) (fun _ _ => ⟨rfl, rfl⟩) (fun u different => Function.update_of_ne different _ _)
    doomed.kept ?_
  simp [Wheel.freeTimer, Wheel.setState, Wheel.setNode, Wheel.record]

theorem setNode (doomed : Doomed held walked (t :: todo) wheel links) {node : TimerNode} (state : node.state = .active) :
    Doomed held walked (t :: todo) (wheel.setNode t node) links := by
  have woven := doomed.woven.setNode state
  rw [← hide_setNode (by simp [state])] at woven
  refine doomed.keep woven (fun _ _ => rfl) (fun _ _ => ⟨rfl, rfl⟩) (fun u different => Function.update_of_ne different _ _)
    doomed.kept ?_
  simp [Wheel.setNode, state]

theorem arm (doomed : Doomed held .active (t :: todo) wheel links) (apart : held (wheel.home t) = false) :
    ∃ links', links.pushBack (wheel.home t) t = some links' ∧
      Doomed held .active todo (wheel.put (wheel.home t) t { wheel.nodes t with state := .active }) links' ∧
      Keeps (· ∈ todo) links links' := by
  have global := doomed.unheld .active rfl
  obtain ⟨shown, pushed, woven, kept⟩ := doomed.woven.arm
  rw [hide_home, hide_pushBack apart, Option.map_eq_some_iff] at pushed
  obtain ⟨links', real, rfl⟩ := pushed
  have same : ({ (wheel.hide held).nodes t with state := .active } : TimerNode) = { wheel.nodes t with state := .active } := by
    simp [Wheel.hide]
  rw [hide_home, same, ← hide_put apart (by simp)] at woven
  refine ⟨links', real, doomed.keep woven (fun name is => ?_) (fun name is => ?_)
    (fun u different => Function.update_of_ne different _ _) doomed.kept ?_, keeps_unhide global global kept⟩
  · exact put_other fun same => by simp [same, apart] at is
  · exact pushBack_elsewhere real fun same => by simp [same, apart] at is
  · simp [Wheel.put]

/-- The node at hand is taken out of the local list. -/
theorem unlink {passed : List Nat} (doomed : Doomed held .active (t :: todo) wheel links)
    (around : Around passed (t :: todo) wheel links) (last : ∀ u ∈ passed.getLast?, u ∈ wheel.pool)
    (first : todo = [] → ∀ u ∈ passed.head?, u ∈ wheel.pool) :
    ∃ links', links.pop .active t = some links' ∧ Doomed held .active (t :: todo) (wheel.dropped .active t) links' ∧
      Around passed todo (wheel.dropped .active t) links' := by
  have local' := doomed.unheld .active rfl
  obtain ⟨shown, popped, woven, around'⟩ := doomed.woven.unlink (Around.hide local' around) last first
  rw [hide_pop local', Option.map_eq_some_iff] at popped
  obtain ⟨links', real, rfl⟩ := popped
  rw [← hide_dropped local'] at woven around'
  refine ⟨links', real, doomed.keep woven (fun name is => ?_) (fun name is => ?_) (fun _ _ => rfl) doomed.kept doomed.kept,
    .unhide local' around'⟩
  · exact dropped_other fun same => by simp [same, local'] at is
  · exact pop_elsewhere real fun same => by simp [same, local'] at is

/-- The handler has returned true. -/
theorem rearm {passed : List Nat} (doomed : Doomed held .active (t :: todo) wheel links)
    (around : Around passed (t :: todo) wheel links) (last : ∀ u ∈ passed.getLast?, u ∈ wheel.pool)
    (first : todo = [] → ∀ u ∈ passed.head?, u ∈ wheel.pool)
    (apart : (wheel.nodes t).counted.repeats ≠ 0 → held ((wheel.setNode t (wheel.nodes t).again).home t) = false) :
    ∃ after links', Wheel.rearm t (wheel.over links) = some (after.over links') ∧ Wheel.rearm t wheel = some after ∧
      Doomed held .active todo after links' ∧ Around passed todo after links' ∧ (∀ u, u ≠ t → after.nodes u = wheel.nodes u) := by
  have active : (wheel.nodes t).state = .active := doomed.active
  have linked : t ∈ wheel.lists .active := by
    rw [around.active]
    simp
  obtain ⟨links', popped, doomed', around'⟩ := doomed.unlink around last first
  by_cases done : (wheel.nodes t).counted.repeats = 0
  · refine ⟨((wheel.dropped .active t).setNode t (wheel.nodes t).counted).freeTimer t, links', ?_, rearm_done linked done, ?_,
      ?_, ?_⟩
    · rw [Wheel.rearm, unlink_over popped]
      exact if_pos done
    · exact (doomed'.setNode (show (wheel.nodes t).counted.state = .active from active)).free
    · exact around'.keep ⟨fun _ _ => ⟨rfl, rfl⟩, rfl, rfl⟩ rfl rfl
    · intro u different
      simp [Wheel.freeTimer, Wheel.setState, Wheel.setNode, Wheel.record, Wheel.dropped, different]
  · have again := (doomed'.setNode (show (wheel.nodes t).counted.state = .active from active)).setNode
      (show (wheel.nodes t).again.state = .active from active)
    have same : (((wheel.dropped .active t).setNode t (wheel.nodes t).counted).setNode t (wheel.nodes t).again).home t =
        (wheel.setNode t (wheel.nodes t).again).home t := by
      simp [Wheel.home, Wheel.ticksLeft, Wheel.nearSlot, Wheel.setNode, Wheel.dropped]
    obtain ⟨links'', pushed, doomed'', keeps⟩ := again.arm (by rw [same]; exact apart done)
    have armed := readdTimer_over pushed
    refine ⟨_, links'', ?_, ?_, doomed'', around'.keep keeps ?_ rfl, ?_⟩
    · rw [Wheel.rearm, unlink_over popped]
      exact Eq.trans (if_neg done) armed
    · rw [Wheel.rearm, unlink_eq linked]
      exact if_neg done
    · exact put_other home_ne_active
    · intro u different
      simp [Wheel.put, Wheel.setNode, Wheel.dropped, different]

end Doomed

namespace Woven
open Links Proofs
variable {name : ListName} {todo : List Nat} {wheel : Wheel Sequences} {links : Links} {t : Nat}

/-- The one node of a list is linked into a changelist, and the list's `head` and `count` are cleared. -/
theorem requeue (woven : Woven .active todo wheel links) (isHome : name.isHome) (alone : wheel.lists name = [t]) :
    ∃ links', Links.pushBack (.change !wheel.frontidx) t { links with
        head := Function.update links.head name none, count := Function.update links.count name 0 } = some links' ∧
      Woven .active todo ((wheel.dropped name t).put (.change !wheel.frontidx) t { wheel.nodes t with state := .add }) links' ∧
      Keeps (· ∈ todo) links links' := by
  have global : name ≠ .active := by
    rintro rfl
    cases isHome
  have back : ListName.change (!wheel.frontidx) ≠ .active := by simp
  have back_ne (index : Bool) : ListName.change index ≠ name := by
    rintro rfl
    cases isHome
  have linked : t ∈ wheel.lists name := by simp [alone]
  have member := woven.mem_contents global global linked
  obtain ⟨links₁, popped, mirror, outside, keeps⟩ := woven.takeOut isHome linked
  have head := woven.mirror.head global global
  have count := woven.mirror.count global global
  rw [alone] at head count
  rw [pop_single head count, Option.some.injEq] at popped
  subst popped
  obtain ⟨links', pushed, mirror', keeps'⟩ := mirror.push back back (owned_other back back) outside
  have unlinked (index : Bool) : t ∉ wheel.lists (.change index) := fun there => by
    have same := woven.tidy.apart.only member (woven.mem_contents (by simp) (by simp) there)
    simp only [Place.list.injEq] at same
    exact back_ne index same.symm
  have node {u : Nat} (different : u ≠ t) : ((wheel.dropped name t).put (.change !wheel.frontidx) t
      { wheel.nodes t with state := .add }).nodes u = wheel.nodes u := Function.update_of_ne different _ _
  refine ⟨links', pushed, ⟨woven.tidy.requeue isHome member unlinked rfl rfl, ?_, ?_, woven.bounded⟩, ?_⟩
  · have same : ((wheel.dropped name t).put (.change !wheel.frontidx) t { wheel.nodes t with state := .add }).lists.owned .active =
        ((wheel.dropped name t).lists.owned .active).pushBack (.change !wheel.frontidx) t := by
      apply Eq.trans (owned_update back back)
      rw [Sequences.pushBack, owned_other back back]
    rw [same]
    exact mirror'
  · intro index u read there
    by_cases same : u = t
    · subst same
      simp [Wheel.put]
    · rw [node same]
      apply woven.waiting read
      by_cases queue : index = !wheel.frontidx
      · subst queue
        have there' : u ∈ (wheel.dropped name t).lists.pushBack (.change !wheel.frontidx) t (.change !wheel.frontidx) := there
        rw [pushBack_same, List.mem_append, List.mem_singleton, dropped_other (back_ne _)] at there'
        exact there'.resolve_right same
      · rwa [put_other (by simpa using queue), dropped_other (back_ne _)] at there
  · have kept {u : Nat} (ahead : u ∈ todo) {other : ListName} (global : other ≠ .active) : u ∉ wheel.lists other := fun there => by
      have here : u ∈ wheel.contents todo .todo := ahead
      cases woven.tidy.apart.only here (woven.mem_contents global global there)
    refine (keeps.mono fun u ahead => kept ahead global).trans (keeps'.mono fun u ahead => ⟨?_, fun there => ?_⟩)
    · rintro rfl
      exact kept ahead global linked
    · rw [owned_other back back, dropped_other (back_ne _)] at there
      exact kept ahead back there

end Woven

namespace Doomed
open Links Proofs
variable {held : ListName → Bool} {walked name : ListName} {todo : List Nat} {wheel : Wheel Sequences} {links : Links} {t : Nat}

theorem unheld_of_active (doomed : Doomed held walked todo wheel links) (active : (wheel.nodes t).state = .active)
    (alone : wheel.lists name = [t]) : held name = false := by
  by_contra is
  obtain ⟨-, u, alone', deleted, -⟩ := doomed.alone (Bool.not_eq_false _ ▸ is)
  rw [alone, List.cons.injEq] at alone'
  rw [← alone'.1, active] at deleted
  cases deleted

/-- `del_timer` has found the timer active, and its list becomes one that is held. -/
theorem doom (doomed : Doomed held .active todo wheel links) (active : (wheel.nodes t).state = .active) (isHome : name.isHome)
    (alone : wheel.lists name = [t]) :
    ∃ links', links.pushBack (.change !wheel.frontidx) t = some links' ∧
      Doomed (Function.update held name true) .active todo (wheel.doom t) links' ∧ Keeps (· ∈ todo) links links' := by
  have free := doomed.unheld_of_active active alone
  have back_ne (index : Bool) : ListName.change index ≠ name := by
    rintro rfl
    cases isHome
  have back := doomed.unheld (.change !wheel.frontidx) rfl
  have back' : Function.update held name true (.change !wheel.frontidx) = false := by
    rw [Function.update_of_ne (back_ne _)]
    exact back
  have hidden : (wheel.hide held).lists name = [t] := (shown_apart free).trans alone
  have head : links.head name = [t].head? := by
    rw [← hidden, ← doomed.woven.mirror.head (isHome_ne_active isHome) (isHome_ne_active isHome)]
    exact (shown_apart free).symm
  have count : links.count name = [t].length := by
    rw [← hidden, ← doomed.woven.mirror.count (isHome_ne_active isHome) (isHome_ne_active isHome)]
    exact (shown_apart free).symm
  obtain ⟨shown, pushed, woven, kept⟩ := doomed.woven.requeue isHome hidden
  have more : ({ links.hide held with
      head := Function.update (links.hide held).head name none
      count := Function.update (links.hide held).count name 0 } : Links) = links.hide (Function.update held name true) := by
    simp only [Links.hide, shown_more]
  rw [more] at pushed
  have pushed' : (links.hide (Function.update held name true)).pushBack (.change !wheel.frontidx) t = some shown := pushed
  rw [hide_pushBack back', Option.map_eq_some_iff] at pushed'
  obtain ⟨links', real, rfl⟩ := pushed'
  have node {u : Nat} (different : u ≠ t) : (wheel.doom t).nodes u = wheel.nodes u := Function.update_of_ne different _ _
  have deleted : ((wheel.doom t).nodes t).state = .del := by simp [Wheel.doom, Wheel.put, Wheel.record]
  have elsewhere {other : ListName} (isHome : other.isHome) : (wheel.doom t).lists other = wheel.lists other ∧
      links'.head other = links.head other ∧ links'.count other = links.count other := by
    have different : other ≠ .change !wheel.frontidx := by
      rintro rfl
      cases isHome
    exact ⟨put_other different, pushBack_elsewhere real different⟩
  refine ⟨links', real, ⟨woven.congr ?_ ?_ rfl rfl, fun {other} is => ?_, fun {u} deleted => ?_⟩, ?_⟩
  · simp only [Wheel.hide, Wheel.doom, Wheel.put, Wheel.record, Wheel.dropped, Sequences.pushBack, Sequences.hide]
    rw [shown_edit back', shown_more, shown_apart free, alone, List.erase_cons_head, Function.update_of_ne (back_ne _),
      shown_apart back]
  · funext u
    by_cases same : u = t
    · subst same
      simp [Wheel.hide, Wheel.doom, Wheel.put, Wheel.record, TimerNode.shown, active]
    · simp [Wheel.hide, Wheel.doom, Wheel.put, Wheel.record, Wheel.dropped, same]
  · by_cases same : other = name
    · subst same
      obtain ⟨lists, head', count'⟩ := elsewhere isHome
      exact ⟨isHome, t, lists.trans alone, deleted, head'.trans head, count'.trans count⟩
    · rw [Function.update_of_ne same] at is
      obtain ⟨isHome', u, alone', deleted', head', count'⟩ := doomed.alone is
      obtain ⟨lists, head'', count''⟩ := elsewhere isHome'
      have different : u ≠ t := by
        rintro rfl
        simp [active] at deleted'
      exact ⟨isHome', u, lists.trans alone', node different ▸ deleted', head''.trans head', count''.trans count'⟩
  · by_cases same : u = t
    · subst same
      exact ⟨name, by simp, (elsewhere isHome).1.trans alone⟩
    · rw [node same] at deleted
      obtain ⟨other, is, alone'⟩ := doomed.found deleted
      have different : other ≠ name := by
        rintro rfl
        simp [free] at is
      exact ⟨other, by rwa [Function.update_of_ne different], (elsewhere (doomed.alone is).1).1.trans alone'⟩
  · refine keeps_unhide (doomed.unheld .active rfl) ?_ kept
    rw [Function.update_of_ne (isHome_ne_active isHome).symm]
    exact doomed.unheld .active rfl

theorem delTimer (doomed : Doomed held .active todo wheel links)
    (alone : t < wheel.cap → (wheel.nodes t).state = .active → ∃ name : ListName, name.isHome ∧ wheel.lists name = [t]) :
    ∃ held' after links', (wheel.over links).delTimer t = some (after.over links') ∧ wheel.delTimer t = some after ∧
      Doomed held' .active todo after links' ∧ Keeps (· ∈ todo) links links' ∧ Beside todo wheel after := by
  by_cases applies : t < wheel.cap ∧ (wheel.nodes t).state = .active
  · obtain ⟨name, isHome, alone⟩ := alone applies.1 applies.2
    obtain ⟨links', pushed, doomed', keeps⟩ := doomed.doom applies.2 isHome alone
    refine ⟨_, wheel.doom t, links', ?_, ?_, doomed', keeps, ⟨fun {u} member => ?_, ?_, rfl, rfl, rfl⟩⟩
    · exact (if_pos applies).trans (doom_over pushed)
    · rw [delTimer_eq, if_pos applies]
    · refine Function.update_of_ne ?_ _ _
      rintro rfl
      have unheld := doomed.unheld_of_active applies.2 alone
      have here : u ∈ (wheel.hide held).contents todo (.list name) :=
        doomed.woven.mem_contents (isHome_ne_active isHome) (isHome_ne_active isHome)
          (by rw [show (wheel.hide held).lists name = [u] from (shown_apart unheld).trans alone]; exact .head _)
      have there : u ∈ (wheel.hide held).contents todo .todo := member
      cases doomed.woven.tidy.apart.only here there
    · have global : ListName.active ≠ .change !wheel.frontidx := by simp
      exact put_other global
  · refine ⟨held, wheel, links, if_neg applies, ?_, doomed, ⟨fun _ _ => ⟨rfl, rfl⟩, rfl, rfl⟩, .refl _ _⟩
    rw [delTimer_eq, if_neg applies]

end Doomed

/-- No timer with this id has ended. -/
def Wheel.NoneEnded {S : Type} (wheel : Wheel S) (timerid : Nat) : Prop :=
  ∀ uid tick timeout nexttime repeats, .accepted uid timerid tick timeout nexttime repeats ∈ wheel.log → .freed uid ∉ wheel.log

/-- A timer that is to be removed is alone in its list, and its id was not the one of a timer that has
ended. -/
def CallClean (wheel : Wheel Sequences) : TimerCall → Prop
  | .add _ => True
  | .del timerid => timerid < wheel.cap → (wheel.nodes timerid).state = .active →
    (∃ name : ListName, name.isHome ∧ wheel.lists name = [timerid]) ∧ wheel.NoneEnded timerid

/-- A timer whose handler has returned true is taken out from between two nodes that were not handed
out again, and does not go to a list that has a node to be removed. -/
structure RearmClean (passed todo : List Nat) (wheel : Wheel Sequences) (t : Nat) : Prop where
  last : ∀ u ∈ passed.getLast?, u ∈ wheel.pool
  first : todo = [] → ∀ u ∈ passed.head?, u ∈ wheel.pool
  home : (wheel.nodes t).counted.repeats ≠ 0 → ¬ wheel.Pending ((wheel.setNode t (wheel.nodes t).again).home t)

/-- The handlers that a tick runs, each in the state it finds. -/
def WalkClean (script : Nat → HandlerOutcome) : (passed todo : List Nat) → Wheel Sequences → Prop
  | _, [], _ => True
  | passed, t :: todo, wheel =>
    let outcome := script (wheel.nodes t).uid
    EachStep Wheel.call CallClean wheel outcome.calls ∧
      (∀ called, outcome.calls.foldlM Wheel.call wheel = some called → outcome.result = true →
        RearmClean passed todo called t) ∧
      ∀ after, Wheel.handleNode script t wheel = some after →
        WalkClean script (if outcome.result then passed else passed ++ [t]) todo after

namespace Doomed
open Links Proofs
variable {held : ListName → Bool} {todo passed : List Nat} {wheel : Wheel Sequences} {links : Links} {t : Nat}

theorem call (doomed : Doomed held .active todo wheel links) {call : TimerCall} (clean : CallClean wheel call) :
    ∃ held' after links', (wheel.over links).call call = some (after.over links') ∧ wheel.call call = some after ∧
      Doomed held' .active todo after links' ∧ Keeps (· ∈ todo) links links' ∧ Beside todo wheel after := by
  cases call with
  | add request =>
    cases free : wheel.pool with
    | nil =>
      refine ⟨held, wheel, links, ?_, ?_, doomed, ⟨fun _ _ => ⟨rfl, rfl⟩, rfl, rfl⟩, .refl _ _⟩
      · simp [Wheel.call, Wheel.addTimer, Wheel.over, free]
      · rw [Wheel.call, addTimer_eq, free]
    | cons t pool =>
      obtain ⟨links', pushed, doomed', keeps, beside⟩ := doomed.accept request free
      refine ⟨held, wheel.accept request t pool, links', addTimer_over free pushed, ?_, doomed', keeps, beside⟩
      rw [Wheel.call, addTimer_eq, free]
  | del timerid => exact doomed.delTimer fun inside active => (clean inside active).1

theorem calls (doomed : Doomed held .active todo wheel links) {calls : List TimerCall}
    (clean : EachStep Wheel.call CallClean wheel calls) :
    ∃ held' after links', calls.foldlM Wheel.call (wheel.over links) = some (after.over links') ∧
      calls.foldlM Wheel.call wheel = some after ∧ Doomed held' .active todo after links' ∧ Keeps (· ∈ todo) links links' ∧
      Beside todo wheel after := by
  induction calls generalizing held wheel links with
  | nil => exact ⟨held, wheel, links, rfl, rfl, doomed, ⟨fun _ _ => ⟨rfl, rfl⟩, rfl, rfl⟩, .refl _ _⟩
  | cons call calls ih =>
    obtain ⟨now, later⟩ := clean
    obtain ⟨held', middle, links', real, called, doomed', keeps, beside⟩ := doomed.call now
    obtain ⟨held'', after, links'', real', called', doomed'', keeps', beside'⟩ := ih doomed' (later middle called)
    refine ⟨held'', after, links'', ?_, ?_, doomed'', keeps.trans keeps', beside.trans beside'⟩
    · rw [List.foldlM_cons, real]
      exact real'
    · rw [List.foldlM_cons, called]
      exact called'

theorem record (doomed : Doomed held .active todo wheel links) (event : TimerEvent) :
    Doomed held .active todo (wheel.record event) links :=
  ⟨doomed.woven.record event, doomed.alone, doomed.found⟩

theorem handleNode (doomed : Doomed held .active (t :: todo) wheel links) (around : Around passed (t :: todo) wheel links)
    {script : Nat → HandlerOutcome} (clean : WalkClean script passed (t :: todo) wheel) :
    ∃ held' after links' passed', Wheel.handleNode script t (wheel.over links) = some (after.over links') ∧
      Wheel.handleNode script t wheel = some after ∧ Doomed held' .active todo after links' ∧
      Around passed' todo after links' ∧ WalkClean script passed' todo after := by
  obtain ⟨callsClean, rearmClean, later⟩ := clean
  have active : (wheel.nodes t).state = .active := doomed.active
  obtain ⟨held', middle, links', real, called, doomed', keeps, beside⟩ := doomed.calls callsClean
  have around' := around.keep keeps beside.active beside.cap
  have node : middle.nodes t = wheel.nodes t := beside.nodes (.head _)
  obtain ⟨event, shown, shown'⟩ := Woven.handleNode_over active real called
  have recorded := doomed'.record event
  have around'' : Around passed (t :: todo) (middle.record event) links' :=
    around'.keep ⟨fun _ _ => ⟨rfl, rfl⟩, rfl, rfl⟩ rfl rfl
  cases result : (script (wheel.nodes t).uid).result with
  | true =>
    rw [result, if_pos rfl] at shown shown'
    obtain ⟨last, first, home⟩ := rearmClean middle called result
    have apart (more : ((middle.record event).nodes t).counted.repeats ≠ 0) :
        held' (((middle.record event).setNode t ((middle.record event).nodes t).again).home t) = false :=
      doomed'.apart (home more)
    obtain ⟨after, links'', real', rearmed, doomed'', around''', -⟩ := recorded.rearm around'' last first apart
    refine ⟨held', after, links'', passed, shown.trans real', shown'.trans rearmed, doomed'', around''', ?_⟩
    have rest := later after (shown'.trans rearmed)
    rwa [result, if_pos rfl] at rest
  | false =>
    rw [result] at shown shown'
    refine ⟨held', (middle.record event).freeTimer t, links', passed ++ [t], shown, shown', recorded.free,
      (around''.pass ?_).keep ⟨fun _ _ => ⟨rfl, rfl⟩, rfl, rfl⟩ rfl rfl, ?_⟩
    · have there : t ∈ (middle.hide held').contents (t :: todo) .todo := .head _
      exact doomed'.woven.inside there
    · have rest := later _ shown'
      rwa [result] at rest

theorem handleWalk (doomed : Doomed held .active todo wheel links) (around : Around passed todo wheel links)
    {script : Nat → HandlerOutcome} (clean : WalkClean script passed todo wheel) {cursor : Option Nat}
    (start : todo ≠ [] → cursor = todo.head?) :
    ∃ held' after links', Wheel.walk (Wheel.handleNode script) todo.length cursor (wheel.over links) = some (after.over links') ∧
      todo.foldlM (fun wheel t => Wheel.handleNode script t wheel) wheel = some after ∧ Doomed held' .active [] after links' := by
  obtain ⟨after, links', real, handled, held', passed', doomed', -⟩ := walk_follows
    (fun todo wheel links => ∃ held passed, Doomed held .active todo wheel links ∧ Around passed todo wheel links ∧
      WalkClean script passed todo wheel)
    (by
      rintro t u rest wheel links ⟨held, passed, -, around, -⟩
      exact arc_next around.arc)
    (by
      rintro t rest wheel links ⟨held, passed, doomed, around, clean⟩
      obtain ⟨held', after, links', passed', real, handled, later⟩ := doomed.handleNode around clean
      exact ⟨after, links', real, handled, held', passed', later⟩) ⟨held, passed, doomed, around, clean⟩ start
  exact ⟨held', after, links', real, handled, doomed'⟩

theorem clear_active (doomed : Doomed held .active todo wheel links) :
    Doomed held .active todo (wheel.clear .active) (links.clear .active) := by
  have global := doomed.unheld .active rfl
  have other {name : ListName} (is : held name = true) : name ≠ .active := fun same => by simp [same, global] at is
  have woven := doomed.woven.clear_active
  rw [← hide_clear global] at woven
  have hidden : (links.clear .active).hide held = (links.hide held).clear .active := by
    simp only [Links.hide, Links.clear, shown_edit global]
  refine ⟨hidden ▸ woven, fun {name} is => ?_, fun deleted => ?_⟩
  · obtain ⟨isHome, t, alone, deleted, head, count⟩ := doomed.alone is
    exact ⟨isHome, t, (clear_other (other is)).trans alone, deleted, (Function.update_of_ne (other is) _ _).trans head,
      (Function.update_of_ne (other is) _ _).trans count⟩
  · obtain ⟨name, is, alone⟩ := doomed.found deleted
    exact ⟨name, is, (clear_other (other is)).trans alone⟩

/-- Where nothing is to be removed, nothing is held. -/
theorem of_woven {walked : ListName} (woven : Woven walked todo wheel links) (kept : ∀ t, (wheel.nodes t).state ≠ .del) :
    Doomed (fun _ => false) walked todo wheel links := by
  refine ⟨?_, fun is => by simp at is, fun deleted => absurd deleted (kept _)⟩
  rw [hide_nothing kept]
  exact woven

theorem handleTimer (woven : Woven .active [] wheel links) (kept : ∀ t, (wheel.nodes t).state ≠ .del)
    {script : Nat → HandlerOutcome}
    (clean : WalkClean script [] (wheel.lists (.near (wheel.tickcount % nearSlots))) wheel.collected) :
    ∃ held after links', (wheel.over links).handleTimer script = some (after.over links') ∧
      wheel.handleTimer script = some after ∧ Doomed held .active [] after links' := by
  obtain ⟨swapped, swapped_eq, woven', around⟩ := woven.collect
  have start := around.head
  have length := around.count
  rw [List.nil_append] at start length
  obtain ⟨held, after, links', real, handled, doomed⟩ := (of_woven woven' kept).handleWalk around clean fun _ => start
  refine ⟨held, after.clear .active, links'.clear .active, ?_, ?_, doomed.clear_active⟩
  · exact handleTimer_over swapped_eq length real
  · rw [handleTimer_eq, handled]
    rfl

end Doomed
end Cassobee
