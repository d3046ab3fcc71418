import Cassobee.ObjectPool
import Cassobee.Proofs.Links
import Mathlib.Data.List.Perm.Subperm

/-! The wheel over links against the wheel over sequences, as long as nothing is deleted. Both make the
same moves; what has to be shown is that the links of every list stay those of its sequence. -/

namespace Cassobee
open Support

/-- The same wheel over links. -/
def Wheel.over {S : Type} (wheel : Wheel S) (links : Links) : Wheel Links :=
  ⟨wheel.ticktime, wheel.tickcount, wheel.frontidx, links, wheel.nodes, wheel.pool, wheel.cap, wheel.accepted, wheel.log⟩

/-- The lists that own the links of their nodes. -/
def Sequences.owned (walked : ListName) (lists : Sequences) : Sequences := fun name =>
  if name = walked ∨ name = .active then [] else lists name

/-- The states of nodes by where they are. -/
def Standing : Place → TimerNode → Prop
  | .pool, node => node.state = .none
  | .todo, node => node.state = .active
  | .list (.near _), node => node.state = .active
  | .list .hanging, node => node.state = .active
  | .list (.change _), node => node.state = .add
  | .list .active, _ => True

structure Woven (walked : ListName) (todo : List Nat) (wheel : Wheel Sequences) (links : Links) : Prop where
  tidy : Tidy Standing todo wheel
  mirror : Mirror walked links wheel.lists (wheel.lists.owned walked)
  waiting {index : Bool} {t : Nat} (read : .change index ≠ walked) (linked : t ∈ wheel.lists (.change index)) :
    (wheel.nodes t).state = .add
  bounded : wheel.cap ≤ objectPoolMax

namespace Proofs
open Links
variable {walked name : ListName} {todo : List Nat} {wheel : Wheel Sequences} {links : Links} {t : Nat}

theorem owned_other {lists : Sequences} (global : name ≠ .active) (read : name ≠ walked) :
    lists.owned walked name = lists name := by
  simp [Sequences.owned, global, read]

theorem owned_update {lists : Sequences} {list : List Nat} (global : name ≠ .active) (read : name ≠ walked) :
    Sequences.owned walked (Function.update lists name list) = Function.update (lists.owned walked) name list := by
  funext other
  by_cases same : other = name
  · subst same
    simp [Sequences.owned, global, read]
  · simp [Sequences.owned, same]

theorem mem_owned {lists : Sequences} (member : t ∈ lists.owned walked name) :
    name ≠ walked ∧ name ≠ .active ∧ t ∈ lists name := by
  by_cases hidden : name = walked ∨ name = .active
  · simp [Sequences.owned, hidden] at member
  · rw [Sequences.owned, if_neg hidden] at member
    exact ⟨fun same => hidden (.inl same), fun same => hidden (.inr same), member⟩

/-! What the wheel over links becomes once its lists have been edited. -/

theorem readdTimer_over {links' : Links} (pushed : links.pushBack (wheel.home t) t = some links') :
    (wheel.over links).readdTimer t =
      some ((wheel.put (wheel.home t) t { wheel.nodes t with state := .active }).over links') := by
  have pushed' : TimerLists.pushBack ((wheel.over links).home t) t (wheel.over links).lists = some links' := pushed
  rw [Wheel.readdTimer, ← Wheel.home, Wheel.push, pushed']
  rfl

theorem unlink_over {links' : Links} (popped : links.pop name t = some links') :
    (wheel.over links).unlink name t = some ((wheel.dropped name t).over links') := by
  rw [Wheel.unlink, show TimerLists.pop name t (wheel.over links).lists = some links' from popped]
  rfl

theorem addTimer_over {request : AddRequest} {pool : List Nat} {links' : Links} (free : wheel.pool = t :: pool)
    (pushed : (links.assign t).pushBack (.change !wheel.frontidx) t = some links') :
    (wheel.over links).addTimer request = some ((wheel.accept request t pool).over links') := by
  simp only [Wheel.addTimer, Wheel.over, free, Wheel.addToChangelist, Wheel.push, TimerLists.assign, TimerLists.pushBack]
  rw [pushed]
  rfl

end Proofs

namespace Woven
open Links Proofs
variable {walked name : ListName} {todo : List Nat} {wheel : Wheel Sequences} {links : Links} {t : Nat}

/-- The clock, the books and the choice of the changelist do not matter. -/
theorem congr (woven : Woven walked todo wheel links) {after : Wheel Sequences} (lists : after.lists = wheel.lists)
    (nodes : after.nodes = wheel.nodes) (pool : after.pool = wheel.pool) (cap : after.cap = wheel.cap) :
    Woven walked todo after links := by
  refine ⟨woven.tidy.congr (fun place => ?_) nodes cap, ?_, ?_, cap ▸ woven.bounded⟩
  · cases place with
    | pool => exact pool
    | todo => rfl
    | list name => cases name <;> simp only [Wheel.contents, lists, nodes]
  · rw [lists]
    exact woven.mirror
  · intro index t read linked
    rw [lists] at linked
    rw [nodes]
    exact woven.waiting read linked

theorem mem_contents (woven : Woven walked todo wheel links) (read : name ≠ walked) (global : name ≠ .active)
    (linked : t ∈ wheel.lists name) : t ∈ wheel.contents todo (.list name) := by
  cases name with
  | near slot => exact linked
  | hanging => exact linked
  | active => exact absurd rfl global
  | change index => exact List.mem_filter.mpr ⟨linked, by simpa using woven.waiting read linked⟩

/-- A node whose links belong to a list is in no other place. -/
theorem only (woven : Woven walked todo wheel links) {place : Place} (here : t ∈ wheel.contents todo place)
    (linked : t ∈ wheel.lists.owned walked name) : place = .list name ∧ name ≠ walked := by
  obtain ⟨read, global, member⟩ := mem_owned linked
  exact ⟨woven.tidy.apart.only here (woven.mem_contents read global member), read⟩

theorem inside (woven : Woven walked todo wheel links) {place : Place} (here : t ∈ wheel.contents todo place) :
    t < wheel.cap := woven.tidy.covered.mpr ⟨place, here⟩

theorem length_lt (woven : Woven walked todo wheel links) {nodes : List Nat} (distinct : nodes.Nodup)
    (all : ∀ t ∈ nodes, t < wheel.cap) : nodes.length < wordSize := by
  have fewer : nodes.Subperm (List.range wheel.cap) :=
    List.subperm_of_subset distinct fun t member => List.mem_range.mpr (all t member)
  have short := fewer.length_le
  rw [List.length_range] at short
  have bounded := woven.bounded
  simp only [objectPoolMax] at bounded
  simp only [wordSize]
  omega

end Woven

/-- The local list is not looked at. -/
theorem Mirror.disregard {links : Links} {wheel : Wheel Sequences} {list : List Nat}
    (mirror : Mirror .active links wheel.lists (wheel.lists.owned .active)) :
    Mirror .active links (Function.update wheel.lists .active list)
      (Sequences.owned .active (Function.update wheel.lists .active list)) := by
  have same : Sequences.owned .active (Function.update wheel.lists .active list) = wheel.lists.owned .active := by
    funext other
    by_cases active : other = .active
    · simp [Sequences.owned, active]
    · simp [Sequences.owned, active]
  rw [same]
  refine ⟨fun global read => ?_, fun global read => ?_, mirror.ring, mirror.apart⟩
  · rw [Function.update_of_ne global]
    exact mirror.head global read
  · rw [Function.update_of_ne global]
    exact mirror.count global read

namespace Woven
open Links Proofs
variable {walked name : ListName} {todo : List Nat} {wheel : Wheel Sequences} {links : Links} {t : Nat}

/-- A node that no list owns is linked in at the end of one. -/
theorem push (woven : Woven walked todo wheel links) (global : name ≠ .active) (read : name ≠ walked)
    (outside : ∀ other, t ∉ wheel.lists.owned walked other) :
    ∃ links', links.pushBack name t = some links' ∧
      Mirror walked links' (wheel.lists.pushBack name t) ((wheel.lists.pushBack name t).owned walked) ∧
      Keeps (fun u => u ≠ t ∧ u ∉ wheel.lists name) links links' := by
  have own : wheel.lists.owned walked name = wheel.lists name := owned_other global read
  obtain ⟨links', pushed, mirror, keeps⟩ := woven.mirror.push global read own outside
  have same : (wheel.lists.pushBack name t).owned walked = (wheel.lists.owned walked).pushBack name t := by
    rw [Sequences.pushBack, owned_update global read, Sequences.pushBack, own]
  rw [own] at keeps
  exact ⟨links', pushed, same ▸ mirror, keeps⟩

/-- `assign` clears the links of a node that no list owns. -/
theorem assign (woven : Woven walked todo wheel links) (outside : ∀ other, t ∉ wheel.lists.owned walked other) :
    Woven walked todo wheel (links.assign t) := by
  refine ⟨woven.tidy, woven.mirror.frame (fun _ _ => rfl) (fun _ _ => rfl) ?_, woven.waiting, woven.bounded⟩
  rintro u ⟨other, member⟩
  have different : u ≠ t := by
    rintro rfl
    exact outside other member
  exact ⟨Function.update_of_ne different _ _, Function.update_of_ne different _ _⟩

end Woven

/-- What the calls of a handler leave as it is for the nodes that are still to be handled. -/
structure Beside (todo : List Nat) (before after : Wheel Sequences) : Prop where
  nodes {t : Nat} (member : t ∈ todo) : after.nodes t = before.nodes t
  active : after.lists .active = before.lists .active
  cap : after.cap = before.cap
  frontidx : after.frontidx = before.frontidx
  tickcount : after.tickcount = before.tickcount

namespace Beside
variable {todo : List Nat} {one two three : Wheel Sequences}

theorem refl (todo : List Nat) (wheel : Wheel Sequences) : Beside todo wheel wheel := ⟨fun _ => rfl, rfl, rfl, rfl, rfl⟩

theorem trans (first : Beside todo one two) (second : Beside todo two three) : Beside todo one three where
  nodes member := (second.nodes member).trans (first.nodes member)
  active := second.active.trans first.active
  cap := second.cap.trans first.cap
  frontidx := second.frontidx.trans first.frontidx
  tickcount := second.tickcount.trans first.tickcount

end Beside

namespace Woven
open Links Proofs
variable {walked name : ListName} {todo : List Nat} {wheel : Wheel Sequences} {links : Links} {t : Nat}

/-- The node that `add_timer` has taken from the pool is queued. -/
theorem accept (woven : Woven .active todo wheel links) (request : AddRequest) {pool : List Nat} (free : wheel.pool = t :: pool) :
    ∃ links', (links.assign t).pushBack (.change !wheel.frontidx) t = some links' ∧
      Woven .active todo (wheel.accept request t pool) links' ∧ Keeps (· ∈ todo) links links' ∧
      Beside todo wheel (wheel.accept request t pool) := by
  have here : t ∈ wheel.contents todo .pool := by
    rw [Wheel.contents, free]
    exact .head _
  have outside (other : ListName) : t ∉ wheel.lists.owned .active other := fun linked => by
    cases (woven.only here linked).1
  have unlinked (index : Bool) : t ∉ wheel.lists (.change index) := fun linked => by
    cases woven.tidy.apart.only here (woven.mem_contents (by simp) (by simp) linked)
  have other {u : Nat} (member : u ∈ todo) : u ≠ t := by
    rintro rfl
    have there : u ∈ wheel.contents todo .todo := member
    cases woven.tidy.apart.only here there
  have node {u : Nat} (different : u ≠ t) : (wheel.accept request t pool).nodes u = wheel.nodes u :=
    Function.update_of_ne different _ _
  have accepted : Tidy Standing todo ({ wheel with pool }.put (.change !wheel.frontidx) t (wheel.admitted request)) :=
    woven.tidy.accept free unlinked rfl rfl
  have back : ListName.change (!wheel.frontidx) ≠ .active := by simp
  obtain ⟨links', pushed, mirror, keeps⟩ := (woven.assign outside).push back back outside
  refine ⟨links', pushed, ⟨?_, mirror, ?_, woven.bounded⟩, ⟨?_, keeps.head, keeps.count⟩,
    ⟨fun member => node (other member), ?_, rfl, rfl, rfl⟩⟩
  · refine accepted.congr (fun place => ?_) rfl rfl
    cases place with
    | pool => rfl
    | todo => rfl
    | list name => cases name <;> rfl
  · intro index u read linked
    by_cases same : u = t
    · subst same
      simp [Wheel.accept, Wheel.put, Wheel.admitted]
    · rw [node same]
      apply woven.waiting read
      by_cases queue : index = !wheel.frontidx
      · subst queue
        have linked' : u ∈ wheel.lists.pushBack (.change !wheel.frontidx) t (.change !wheel.frontidx) := linked
        rw [pushBack_same, List.mem_append, List.mem_singleton] at linked'
        exact linked'.resolve_right same
      · have linked' : u ∈ wheel.lists.pushBack (.change !wheel.frontidx) t (.change index) := linked
        rwa [pushBack_other (by simpa using queue)] at linked'
  · intro u member
    have different := other member
    have there : u ∈ wheel.contents todo .todo := member
    have kept := keeps.links u ⟨different, fun linked => by
      cases woven.tidy.apart.only there (woven.mem_contents (by simp) (by simp) linked)⟩
    refine ⟨kept.1.trans ?_, kept.2.trans ?_⟩
    · exact Function.update_of_ne different _ _
    · exact Function.update_of_ne different _ _
  · exact pushBack_other (t := t) back.symm

theorem addTimer (woven : Woven .active todo wheel links) (request : AddRequest) :
    ∃ after links', (wheel.over links).addTimer request = some (after.over links') ∧ wheel.addTimer request = some after ∧
      Woven .active todo after links' ∧ Keeps (· ∈ todo) links links' ∧ Beside todo wheel after ∧
      after.pool = wheel.pool.drop 1 := by
  cases free : wheel.pool with
  | nil =>
    refine ⟨wheel, links, ?_, ?_, woven, ⟨fun _ _ => ⟨rfl, rfl⟩, rfl, rfl⟩, .refl _ _, free⟩
    · simp [Wheel.addTimer, Wheel.over, free]
    · rw [addTimer_eq, free]
  | cons t pool =>
    obtain ⟨links', pushed, woven', keeps, beside⟩ := woven.accept request free
    refine ⟨wheel.accept request t pool, links', addTimer_over free pushed, ?_, woven', keeps, beside, rfl⟩
    rw [addTimer_eq, free]

/-- The calls of a handler that deletes nothing. -/
theorem calls (woven : Woven .active todo wheel links) {calls : List TimerCall}
    (adds : ∀ call ∈ calls, ∃ request, call = .add request) :
    ∃ after links', calls.foldlM Wheel.call (wheel.over links) = some (after.over links') ∧
      calls.foldlM Wheel.call wheel = some after ∧ Woven .active todo after links' ∧ Keeps (· ∈ todo) links links' ∧
      Beside todo wheel after ∧ after.pool = wheel.pool.drop calls.length := by
  induction calls generalizing wheel links with
  | nil => exact ⟨wheel, links, rfl, rfl, woven, ⟨fun _ _ => ⟨rfl, rfl⟩, rfl, rfl⟩, .refl _ _, rfl⟩
  | cons call calls ih =>
    obtain ⟨request, rfl⟩ := adds call (.head _)
    obtain ⟨middle, links', real, called, woven', keeps, beside, pool⟩ := woven.addTimer request
    obtain ⟨after, links'', real', called', woven'', keeps', beside', pool'⟩ :=
      ih woven' fun other member => adds other (.tail _ member)
    refine ⟨after, links'', ?_, ?_, woven'', keeps.trans keeps', beside.trans beside', ?_⟩
    · rw [List.foldlM_cons]
      exact (congrArg (· >>= fun next => calls.foldlM Wheel.call next) real).trans real'
    · rw [List.foldlM_cons]
      exact (congrArg (· >>= fun next => calls.foldlM Wheel.call next) called).trans called'
    · rw [pool', pool, List.drop_drop, List.length_cons, Nat.add_comm]

/-- A node whose links no list owns changes its state. -/
theorem revised (woven : Woven walked todo wheel links) {place : Place} (here : t ∈ wheel.contents todo place)
    (unowned : ∀ name, place = .list name → name = walked) {nodes : Nat → TimerNode} (others : ∀ u, u ≠ t → nodes u = wheel.nodes u)
    {index : Bool} {u : Nat} (read : .change index ≠ walked) (linked : u ∈ wheel.lists (.change index)) :
    (nodes u).state = .add := by
  have different : u ≠ t := by
    rintro rfl
    exact read (unowned _ (woven.tidy.apart.only here (woven.mem_contents read (by simp) linked)))
  rw [others u different]
  exact woven.waiting read linked

/-- The node at hand goes to the pool. -/
theorem free (woven : Woven walked (t :: todo) wheel links) : Woven walked todo (wheel.freeTimer t) links := by
  refine ⟨woven.tidy.free rfl, woven.mirror, ?_, woven.bounded⟩
  intro index u read linked
  have here : t ∈ wheel.contents (t :: todo) .todo := .head _
  exact woven.revised here (by simp) (fun u different => Function.update_of_ne different _ _) read linked

theorem setNode (woven : Woven walked (t :: todo) wheel links) {node : TimerNode} (state : node.state = .active) :
    Woven walked (t :: todo) (wheel.setNode t node) links := by
  have here : t ∈ wheel.contents (t :: todo) .todo := .head _
  have active : (wheel.nodes t).state = .active := woven.tidy.fits here
  refine ⟨woven.tidy.revise (by simp [active]) (by simp [state]) ?_, woven.mirror, ?_, woven.bounded⟩
  · intro place there
    obtain rfl := woven.tidy.apart.only there here
    exact state
  · intro index u read linked
    exact woven.revised here (by simp) (fun u different => Function.update_of_ne different _ _) read linked

/-- `readd_timer` of a node whose links no list owns. -/
theorem readd (woven : Woven walked todo wheel links) {place : Place} (here : t ∈ wheel.contents todo place)
    (unowned : ∀ name, place = .list name → name = walked) (read : wheel.home t ≠ walked) {todo' : List Nat}
    (tidy : Tidy Standing todo' (wheel.put (wheel.home t) t { wheel.nodes t with state := .active })) :
    ∃ links', links.pushBack (wheel.home t) t = some links' ∧
      Woven walked todo' (wheel.put (wheel.home t) t { wheel.nodes t with state := .active }) links' ∧
      Keeps (fun u => u ≠ t ∧ u ∉ wheel.lists (wheel.home t)) links links' := by
  have outside (other : ListName) : t ∉ wheel.lists.owned walked other := fun linked => by
    obtain ⟨same, different⟩ := woven.only here linked
    exact different (unowned other same)
  obtain ⟨links', pushed, mirror, keeps⟩ := woven.push home_ne_active.symm read outside
  refine ⟨links', pushed, ⟨tidy, mirror, ?_, woven.bounded⟩, keeps⟩
  intro index u read linked
  have linked' : u ∈ wheel.lists.pushBack (wheel.home t) t (.change index) := linked
  rw [pushBack_other home_ne_change] at linked'
  exact woven.revised here unowned (fun u different => Function.update_of_ne different _ _) read linked'

theorem standing_home (wheel : Wheel Sequences) (t : Nat) :
    Standing (.list (wheel.home t)) { wheel.nodes t with state := .active } := by
  rw [Wheel.home]
  split <;> rfl

/-- The node at hand goes to its home. -/
theorem arm (woven : Woven .active (t :: todo) wheel links) :
    ∃ links', links.pushBack (wheel.home t) t = some links' ∧
      Woven .active todo (wheel.put (wheel.home t) t { wheel.nodes t with state := .active }) links' ∧
      Keeps (· ∈ todo) links links' := by
  have here : t ∈ wheel.contents (t :: todo) .todo := .head _
  obtain ⟨links', armed, woven', keeps⟩ := woven.readd here (by simp) home_ne_active.symm
    (woven.tidy.arm home_isHome (by simp) (standing_home wheel t))
  refine ⟨links', armed, woven', keeps.mono fun u member => ⟨?_, fun linked => ?_⟩⟩
  · rintro rfl
    exact (List.nodup_cons.mp (woven.tidy.apart.nodup .todo)).1 member
  · have there : u ∈ wheel.contents (t :: todo) .todo := .tail _ member
    cases woven.tidy.apart.only there (woven.mem_contents home_ne_active.symm home_ne_active.symm linked)

/-- The node that waits goes to its home. -/
theorem load (woven : Woven (.change wheel.frontidx) [] wheel links)
    (here : t ∈ wheel.contents [] (.list (.change wheel.frontidx))) :
    ∃ links', links.pushBack (wheel.home t) t = some links' ∧
      Woven (.change wheel.frontidx) [] (wheel.put (wheel.home t) t { wheel.nodes t with state := .active }) links' ∧
      Keeps (fun u => u ≠ t ∧ u ∉ wheel.lists (wheel.home t)) links links' := by
  refine woven.readd here ?_ home_ne_change.symm (woven.tidy.load here home_isHome (by simp) (standing_home wheel t))
  rintro name same
  cases same
  rfl

end Woven

/-- The local list of `handle_timer`, with the nodes that were passed and are still linked in. -/
structure Around (passed todo : List Nat) (wheel : Wheel Sequences) (links : Links) : Prop where
  active : wheel.lists .active = passed ++ todo
  head : links.head .active = (passed ++ todo).head?
  count : links.count .active = (passed ++ todo).length
  arc : Arc links.prev links.next passed todo
  distinct : (todo ++ passed).Nodup
  inside {t : Nat} (member : t ∈ passed) : t < wheel.cap

theorem Around.keep {passed todo : List Nat} {wheel after : Wheel Sequences} {links links' : Links}
    (around : Around passed todo wheel links) (keeps : Links.Keeps (· ∈ todo) links links')
    (active : after.lists .active = wheel.lists .active) (cap : after.cap = wheel.cap) : Around passed todo after links' where
  active := active.trans around.active
  head := keeps.head.trans around.head
  count := keeps.count.trans around.count
  arc := arc_frame around.arc (fun t member => (keeps.links t member).2) fun t member => (keeps.links t member).1
  distinct := around.distinct
  inside member := cap ▸ around.inside member

/-- The walk goes on, and the node stays linked in. -/
theorem Around.pass {passed todo : List Nat} {wheel : Wheel Sequences} {links : Links} {t : Nat}
    (around : Around passed (t :: todo) wheel links) (inside : t < wheel.cap) : Around (passed ++ [t]) todo wheel links := by
  have shape : passed ++ t :: todo = passed ++ [t] ++ todo := by simp
  refine ⟨?_, ?_, ?_, arc_pass around.arc, ?_, ?_⟩
  · rw [← shape]
    exact around.active
  · rw [← shape]
    exact around.head
  · rw [← shape]
    exact around.count
  · have distinct := around.distinct
    simp only [List.cons_append, List.nodup_cons] at distinct
    rw [← List.append_assoc]
    refine List.nodup_append.mpr ⟨distinct.2, List.nodup_singleton t, ?_⟩
    rintro u member v single rfl
    rw [List.mem_singleton.mp single] at member
    exact distinct.1 member
  · intro u member
    rw [List.mem_append, List.mem_singleton] at member
    rcases member with member | rfl
    · exact around.inside member
    · exact inside

namespace Woven
open Links Proofs
variable {passed todo : List Nat} {wheel : Wheel Sequences} {links : Links} {t : Nat}

/-- The node at hand is taken out of the local list. That writes to its neighbours, so these must not
have been handed out again. -/
theorem unlink (woven : Woven .active (t :: todo) wheel links) (around : Around passed (t :: todo) wheel links)
    (last : ∀ u ∈ passed.getLast?, u ∈ wheel.pool) (first : todo = [] → ∀ u ∈ passed.head?, u ∈ wheel.pool) :
    ∃ links', links.pop .active t = some links' ∧
      Woven .active (t :: todo) (wheel.dropped .active t) links' ∧ Around passed todo (wheel.dropped .active t) links' := by
  have here : t ∈ wheel.contents (t :: todo) .todo := .head _
  have all {u : Nat} (member : u ∈ t :: todo ++ passed) : u < wheel.cap := by
    rcases List.mem_append.mp member with ahead | behind
    · have there : u ∈ wheel.contents (t :: todo) .todo := ahead
      exact woven.inside there
    · exact around.inside behind
  have small : (passed ++ t :: todo).length < wordSize := by
    rw [List.perm_append_comm.length_eq]
    exact woven.length_lt around.distinct fun u member => all member
  obtain ⟨links', popped, head, count, arc, frame⟩ := pop_arc around.head around.count small around.arc around.distinct
  have unowned {u : Nat} {other : ListName} (linked : u ∈ wheel.lists.owned .active other) : u ∉ wheel.pool := fun free => by
    have there : u ∈ wheel.contents (t :: todo) .pool := free
    cases (woven.only there linked).1
  obtain ⟨outside, distinct⟩ := List.nodup_cons.mp around.distinct
  have erased : (passed ++ t :: todo).erase t = passed ++ todo := by
    rw [List.erase_append_right _ fun behind => outside (List.mem_append_right _ behind), List.erase_cons_head]
  refine ⟨links', popped, ⟨woven.tidy.unlinked, ?_, ?_, woven.bounded⟩, ⟨?_, ?_, ?_, arc, distinct, around.inside⟩⟩
  · have mirror : Mirror .active links' wheel.lists (wheel.lists.owned .active) := by
      refine woven.mirror.frame (fun name global => ?_) (fun name global => ?_) ?_
      · rw [head, Function.update_of_ne global]
      · rw [count, Function.update_of_ne global]
      · rintro u ⟨other, linked⟩
        refine frame u ⟨fun ahead => ?_, fun final => unowned linked (last u final), fun ends start => unowned linked (first ends u start)⟩
        have there : u ∈ wheel.contents (t :: todo) .todo := ahead
        cases (woven.only there linked).1
    exact mirror.disregard
  · intro index u read linked
    rw [dropped_other (by simp)] at linked
    exact woven.waiting read linked
  · rw [dropped_same, around.active, erased]
  · rw [head, Function.update_self]
  · rw [count, Function.update_self]

theorem record (woven : Woven .active todo wheel links) (event : TimerEvent) :
    Woven .active todo (wheel.record event) links := woven.congr rfl rfl rfl rfl

/-- The handler has returned true. -/
theorem rearm (woven : Woven .active (t :: todo) wheel links) (around : Around passed (t :: todo) wheel links)
    (last : ∀ u ∈ passed.getLast?, u ∈ wheel.pool) (first : todo = [] → ∀ u ∈ passed.head?, u ∈ wheel.pool) :
    ∃ after links', Wheel.rearm t (wheel.over links) = some (after.over links') ∧ Wheel.rearm t wheel = some after ∧
      Woven .active todo after links' ∧ Around passed todo after links' ∧ (∀ u, u ≠ t → after.nodes u = wheel.nodes u) ∧
      after.pool = if (wheel.nodes t).counted.repeats = 0 then t :: wheel.pool else wheel.pool := by
  have here : t ∈ wheel.contents (t :: todo) .todo := .head _
  have active : (wheel.nodes t).state = .active := woven.tidy.fits here
  have linked : t ∈ wheel.lists .active := by
    rw [around.active]
    simp
  obtain ⟨links', popped, woven', around'⟩ := woven.unlink around last first
  by_cases done : (wheel.nodes t).counted.repeats = 0
  · refine ⟨((wheel.dropped .active t).setNode t (wheel.nodes t).counted).freeTimer t, links', ?_, rearm_done linked done, ?_,
      ?_, ?_, ?_⟩
    · rw [Wheel.rearm, unlink_over popped]
      exact if_pos done
    · exact (woven'.setNode (show (wheel.nodes t).counted.state = .active from active)).free
    · exact around'.keep ⟨fun _ _ => ⟨rfl, rfl⟩, rfl, rfl⟩ rfl rfl
    · intro u different
      simp [Wheel.freeTimer, Wheel.setState, Wheel.setNode, Wheel.record, Wheel.dropped, different]
    · rw [if_pos done]
      rfl
  · have again := (woven'.setNode (show (wheel.nodes t).counted.state = .active from active)).setNode
      (show (wheel.nodes t).again.state = .active from active)
    obtain ⟨links'', pushed, woven'', keeps⟩ := again.arm
    have armed := readdTimer_over pushed
    refine ⟨_, links'', ?_, ?_, woven'', around'.keep keeps ?_ rfl, ?_, ?_⟩
    · rw [Wheel.rearm, unlink_over popped]
      exact Eq.trans (if_neg done) armed
    · rw [Wheel.rearm, unlink_eq linked]
      exact if_neg done
    · exact put_other home_ne_active
    · intro u different
      simp [Wheel.put, Wheel.setNode, Wheel.dropped, different]
    · rw [if_neg done]
      rfl

end Woven

/-- No handler that returns true is run when the last node that was passed and is still linked in has
been handed out again; for the last node of all, neither must the first one have been. `pool` is what
`alloc` would take next. -/
def Undisturbed (script : Nat → HandlerOutcome) (nodes : Nat → TimerNode) : (pool passed todo : List Nat) → Prop
  | _, _, [] => True
  | pool, passed, t :: todo =>
    let outcome := script (nodes t).uid
    let left := pool.drop outcome.calls.length
    if outcome.result then
      (∀ u ∈ passed.getLast?, u ∈ left) ∧ (todo = [] → ∀ u ∈ passed.head?, u ∈ left) ∧
        Undisturbed script nodes (if (nodes t).counted.repeats = 0 then t :: left else left) passed todo
    else
      Undisturbed script nodes (t :: left) (passed ++ [t]) todo

namespace Woven
open Links Proofs
variable {passed todo : List Nat} {wheel : Wheel Sequences} {links : Links} {t : Nat}

/-- The handler's calls have gone the same way over the links. -/
theorem handleNode_over {middle : Wheel Sequences} {links' : Links} {script : Nat → HandlerOutcome}
    (active : (wheel.nodes t).state = .active)
    (real : (script (wheel.nodes t).uid).calls.foldlM Wheel.call (wheel.over links) = some (middle.over links'))
    (called : (script (wheel.nodes t).uid).calls.foldlM Wheel.call wheel = some middle) :
    ∃ event, (Wheel.handleNode script t (wheel.over links) = if (script (wheel.nodes t).uid).result then
        Wheel.rearm t ((middle.record event).over links') else some (((middle.record event).freeTimer t).over links')) ∧
      Wheel.handleNode script t wheel = if (script (wheel.nodes t).uid).result then
        Wheel.rearm t (middle.record event) else some ((middle.record event).freeTimer t) := by
  have active' : ((wheel.over links).nodes t).state = .active := active
  exact ⟨_, handleNode_active active' real, handleNode_active active called⟩

theorem handleNode (woven : Woven .active (t :: todo) wheel links) (around : Around passed (t :: todo) wheel links)
    {script : Nat → HandlerOutcome} (adds : ∀ uid, ∀ call ∈ (script uid).calls, ∃ request, call = .add request)
    {nodes : Nat → TimerNode} (same : ∀ u ∈ t :: todo, wheel.nodes u = nodes u)
    (undisturbed : Undisturbed script nodes wheel.pool passed (t :: todo)) :
    ∃ after links' passed', Wheel.handleNode script t (wheel.over links) = some (after.over links') ∧
      Wheel.handleNode script t wheel = some after ∧ Woven .active todo after links' ∧ Around passed' todo after links' ∧
      (∀ u ∈ todo, after.nodes u = nodes u) ∧ Undisturbed script nodes after.pool passed' todo := by
  have here : t ∈ wheel.contents (t :: todo) .todo := .head _
  have active : (wheel.nodes t).state = .active := woven.tidy.fits here
  have other {u : Nat} (member : u ∈ todo) : u ≠ t := by
    rintro rfl
    exact (List.nodup_cons.mp (woven.tidy.apart.nodup .todo)).1 member
  obtain ⟨middle, links', real, called, woven', keeps, beside, pool⟩ := woven.calls (adds (wheel.nodes t).uid)
  have around' := around.keep keeps beside.active beside.cap
  have node : middle.nodes t = wheel.nodes t := beside.nodes (.head _)
  have rest {u : Nat} (member : u ∈ todo) : middle.nodes u = nodes u :=
    (beside.nodes (.tail _ member)).trans (same u (.tail _ member))
  obtain ⟨event, shown, shown'⟩ := handleNode_over active real called
  have recorded := woven'.record event
  have around'' : Around passed (t :: todo) (middle.record event) links' :=
    around'.keep ⟨fun _ _ => ⟨rfl, rfl⟩, rfl, rfl⟩ rfl rfl
  rw [shown, shown']
  rw [Undisturbed, ← same t (.head _), ← pool] at undisturbed
  cases result : (script (wheel.nodes t).uid).result with
  | true =>
    rw [result, if_pos rfl, ← node] at undisturbed
    obtain ⟨last, first, later⟩ := undisturbed
    obtain ⟨after, links'', real', rearmed, woven'', around''', others, pool'⟩ := recorded.rearm around'' last first
    refine ⟨after, links'', passed, ?_, ?_, woven'', around''', ?_, ?_⟩
    · exact real'
    · exact rearmed
    · intro u member
      rw [others u (other member)]
      exact rest member
    · rw [pool']
      exact later
  | false =>
    rw [result] at undisturbed
    refine ⟨(middle.record event).freeTimer t, links', passed ++ [t], rfl, rfl, recorded.free,
      (around''.pass ?_).keep ⟨fun _ _ => ⟨rfl, rfl⟩, rfl, rfl⟩ rfl rfl, ?_, undisturbed⟩
    · have there : t ∈ middle.contents (t :: todo) .todo := .head _
      exact woven'.inside there
    · intro u member
      have unchanged : ((middle.record event).freeTimer t).nodes u = middle.nodes u :=
        Function.update_of_ne (other member) _ _
      rw [unchanged]
      exact rest member

end Woven
end Cassobee
