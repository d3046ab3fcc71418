import Cassobee.Timewheel
import Cassobee.Support.Apart
import Cassobee.Support.Run
import Mathlib.Data.List.Range

/-! The wheel over sequences. Whatever a call or a tick does to the lists is one of a few moves of a
node from one place to another, so every node is always in one place. What else is true of a node
there is left to a parameter. -/

namespace Cassobee
open Support

/-- Where a node can be. `todo` is what is left of the list that `handle_timer` walks. -/
inductive Place where
  | pool
  | todo
  | list (name : ListName)
  deriving DecidableEq

def ListName.isHome : ListName → Bool
  | .near _ | .hanging => true
  | .change _ | .active => false

namespace Wheel

/-- A node stays linked where `load_timers` and `handle_timer` have passed it until they clear the
list. So a changelist holds what still waits to be added, and the active list nothing: what is left
of it is `todo`. -/
def contents (todo : List Nat) (wheel : Wheel Sequences) : Place → List Nat
  | .pool => wheel.pool
  | .todo => todo
  | .list (.near slot) => wheel.lists (.near slot)
  | .list .hanging => wheel.lists .hanging
  | .list (.change index) => (wheel.lists (.change index)).filter fun t => (wheel.nodes t).state = .add
  | .list .active => []

theorem mem_home {todo : List Nat} {wheel : Wheel Sequences} {name : ListName} (isHome : name.isHome) {t : Nat} :
    t ∈ wheel.contents todo (.list name) ↔ t ∈ wheel.lists name := by
  cases name with
  | near slot => rfl
  | hanging => rfl
  | active => cases isHome
  | change index => cases isHome

theorem contents_elsewhere (todo todo' : List Nat) {wheel : Wheel Sequences} {place : Place} (elsewhere : place ≠ .todo) :
    wheel.contents todo place = wheel.contents todo' place := by
  cases place with
  | pool => rfl
  | todo => exact absurd rfl elsewhere
  | list name => cases name <;> rfl

def put (wheel : Wheel Sequences) (name : ListName) (t : Nat) (node : TimerNode) : Wheel Sequences :=
  { wheel with lists := wheel.lists.pushBack name t, nodes := Function.update wheel.nodes t node }

def dropped (wheel : Wheel Sequences) (name : ListName) (t : Nat) : Wheel Sequences :=
  { wheel with lists := Function.update wheel.lists name ((wheel.lists name).erase t) }

end Wheel

structure Tidy (fits : Place → TimerNode → Prop) (todo : List Nat) (wheel : Wheel Sequences) : Prop where
  apart : Apart (wheel.contents todo)
  fits {place : Place} {t : Nat} (member : t ∈ wheel.contents todo place) : fits place (wheel.nodes t)
  covered {t : Nat} : t < wheel.cap ↔ ∃ place, t ∈ wheel.contents todo place

namespace Tidy
variable {fits other : Place → TimerNode → Prop} {todo todo' : List Nat} {wheel wheel' : Wheel Sequences} {t : Nat}
  {name : ListName} {node : TimerNode}

theorem mono (tidy : Tidy fits todo wheel)
    (weaker : ∀ {place u}, u ∈ wheel.contents todo place → fits place (wheel.nodes u) → other place (wheel.nodes u)) :
    Tidy other todo wheel :=
  ⟨tidy.apart, fun member => weaker member (tidy.fits member), tidy.covered⟩

theorem congr (tidy : Tidy fits todo wheel) (same : ∀ place, wheel'.contents todo place = wheel.contents todo place)
    (nodes : wheel'.nodes = wheel.nodes) (cap : wheel'.cap = wheel.cap) : Tidy fits todo wheel' := by
  refine ⟨?_, ?_, ?_⟩
  · rw [funext same]
    exact tidy.apart
  · intro place u member
    rw [same] at member
    rw [nodes]
    exact tidy.fits member
  · intro u
    simp only [same, cap]
    exact tidy.covered

theorem move (tidy : Tidy fits todo wheel) {source : Place} (target : Place) (here : t ∈ wheel.contents todo source)
    (different : source ≠ target) (cap : wheel'.cap = wheel.cap) (others : ∀ u, u ≠ t → wheel'.nodes u = wheel.nodes u)
    (left : wheel'.contents todo' source = (wheel.contents todo source).erase t)
    (arrived : (wheel'.contents todo' target).Perm (t :: wheel.contents todo target))
    (rest : ∀ place, place ≠ source → place ≠ target → wheel'.contents todo' place = wheel.contents todo place)
    (fit : fits target (wheel'.nodes t)) : Tidy fits todo' wheel' := by
  have moved {place : Place} {u : Nat} := tidy.apart.mem_moved here left arrived rest (i := place) (b := u)
  refine ⟨tidy.apart.move here different left arrived rest, ?_, ?_⟩
  · intro place u member
    rcases moved.mp member with ⟨other, before⟩ | ⟨rfl, rfl⟩
    · rw [others u other]
      exact tidy.fits before
    · exact fit
  · intro u
    rw [cap, tidy.covered]
    constructor
    · rintro ⟨place, member⟩
      by_cases same : u = t
      · exact ⟨target, moved.mpr (.inr ⟨same, rfl⟩)⟩
      · exact ⟨place, moved.mpr (.inl ⟨same, member⟩)⟩
    · rintro ⟨place, member⟩
      rcases moved.mp member with ⟨-, before⟩ | ⟨rfl, -⟩
      · exact ⟨place, before⟩
      · exact ⟨source, here⟩

/-- At first every node is in the pool. -/
theorem init (ticktime : Int) (poolsize : Nat) (fit : fits .pool ⟨0, 0, 0, 0, .none⟩) :
    Tidy fits [] (.init ticktime poolsize Sequences.new) := by
  have contents (place : Place) : (Wheel.init ticktime poolsize Sequences.new).contents [] place =
      if place = .pool then List.range poolsize else [] := by
    cases place with
    | pool => rfl
    | todo => rfl
    | list name => cases name <;> rfl
  refine ⟨⟨?_, ?_⟩, ?_, ?_⟩
  · intro place
    rw [contents]
    split
    · exact List.nodup_range
    · exact .nil
  · intro one two t first second
    rw [contents] at first second
    grind
  · intro place t member
    rw [contents] at member
    split at member
    next same =>
      subst same
      exact fit
    next => cases member
  · intro t
    have cap : (Wheel.init ticktime poolsize Sequences.new).cap = poolsize := rfl
    simp only [contents, cap]
    simp

end Tidy

namespace Proofs
variable {fits : Place → TimerNode → Prop} {todo : List Nat} {wheel : Wheel Sequences} {lists : Sequences} {t : Nat}
  {name : ListName} {node : TimerNode}

@[simp] theorem pushBack_same (name : ListName) : lists.pushBack name t name = lists name ++ [t] := by
  simp [Sequences.pushBack]

theorem pushBack_other {name other : ListName} (different : other ≠ name) :
    lists.pushBack name t other = lists other := by
  simp [Sequences.pushBack, different]

theorem put_other {name other : ListName} (different : other ≠ name) :
    (wheel.put name t node).lists other = wheel.lists other := pushBack_other different

@[simp] theorem dropped_same (name : ListName) : (wheel.dropped name t).lists name = (wheel.lists name).erase t := by
  simp [Wheel.dropped]

theorem dropped_other {name other : ListName} (different : other ≠ name) :
    (wheel.dropped name t).lists other = wheel.lists other := by
  simp [Wheel.dropped, different]

theorem clear_other {name other : ListName} (different : other ≠ name) :
    (wheel.clear name).lists other = wheel.lists other := by
  simp [Wheel.clear, TimerLists.clear, Sequences.clear, different]

/-- Changing a node that does not wait to be added leaves those that do. -/
theorem waiting_revise {raw : List Nat} {nodes : Nat → TimerNode} (before : t ∈ raw → (nodes t).state ≠ .add)
    (after : node.state ≠ .add) :
    (raw.filter fun u => (Function.update nodes t node u).state = .add) = raw.filter fun u => (nodes u).state = .add := by
  apply List.filter_congr
  intro u member
  by_cases same : u = t
  · subst same
    simp [before member, after]
  · rw [Function.update_of_ne same]

/-- A node that is taken out of a changelist's waiting nodes by its state. -/
theorem waiting_erase {raw : List Nat} {nodes : Nat → TimerNode}
    (nodup : (raw.filter fun u => (nodes u).state = .add).Nodup) (after : node.state ≠ .add) :
    (raw.filter fun u => (Function.update nodes t node u).state = .add) =
      (raw.filter fun u => (nodes u).state = .add).erase t := by
  rw [nodup.erase_eq_filter, List.filter_filter]
  apply List.filter_congr
  intro u _
  by_cases same : u = t
  · subst same
    simp [after]
  · rw [Function.update_of_ne same]
    simp [same]

end Proofs

namespace Tidy
open Proofs
variable {fits other : Place → TimerNode → Prop} {todo : List Nat} {wheel : Wheel Sequences} {t : Nat}
  {name : ListName} {node : TimerNode}

/-- A node that is elsewhere does not wait in a changelist. -/
theorem not_waiting (tidy : Tidy fits todo wheel) {source : Place} (here : t ∈ wheel.contents todo source)
    (elsewhere : ∀ index, source ≠ .list (.change index)) {index : Bool} (linked : t ∈ wheel.lists (.change index)) :
    (wheel.nodes t).state ≠ .add := by
  intro waiting
  have there : t ∈ wheel.contents todo (.list (.change index)) := by
    simp only [Wheel.contents, List.mem_filter, waiting, decide_true, and_true]
    exact linked
  exact elsewhere index (tidy.apart.only here there)

theorem put_rest (todo : List Nat) (state : node.state ≠ .add) {place : Place}
    (before : ∀ index, place = .list (.change index) → t ∈ wheel.lists (.change index) → (wheel.nodes t).state ≠ .add)
    (elsewhere : place ≠ .list name) : (wheel.put name t node).contents todo place = wheel.contents todo place := by
  have unchanged {other : ListName} (different : Place.list other ≠ .list name) :
      wheel.lists.pushBack name t other = wheel.lists other := pushBack_other fun same => different (by rw [same])
  cases place with
  | pool => rfl
  | todo => rfl
  | list other =>
    cases other with
    | near slot => exact unchanged elsewhere
    | hanging => exact unchanged elsewhere
    | active => rfl
    | change index =>
      simp only [Wheel.contents, Wheel.put, unchanged elsewhere]
      exact waiting_revise (before index rfl) state

theorem put_arrived (todo : List Nat) (isHome : name.isHome) :
    ((wheel.put name t node).contents todo (.list name)).Perm (t :: wheel.contents todo (.list name)) := by
  cases name with
  | near slot =>
    simp only [Wheel.contents, Wheel.put, pushBack_same]
    exact List.perm_append_singleton t _
  | hanging =>
    simp only [Wheel.contents, Wheel.put, pushBack_same]
    exact List.perm_append_singleton t _
  | change index => cases isHome
  | active => cases isHome

/-- The node that is being handled goes to a near slot or to the hanging list. -/
theorem arm (tidy : Tidy fits (t :: todo) wheel) (isHome : name.isHome) (state : node.state ≠ .add)
    (fit : fits (.list name) node) : Tidy fits todo (wheel.put name t node) := by
  have here : t ∈ wheel.contents (t :: todo) .todo := .head _
  refine tidy.move (.list name) here (by simp) rfl ?_ ?_ ?_ ?_ ?_
  · intro u different
    exact Function.update_of_ne different _ _
  · simp [Wheel.contents]
  · rw [Wheel.contents_elsewhere todo (t :: todo) (by simp)]
    exact put_arrived (t :: todo) isHome
  · intro place source target
    rw [Wheel.contents_elsewhere todo (t :: todo) source]
    exact put_rest (t :: todo) state (fun _ _ linked => tidy.not_waiting here (by simp) linked) target
  · simpa [Wheel.put] using fit

/-- A waiting node goes to a near slot or to the hanging list. -/
theorem load (tidy : Tidy fits todo wheel) {index : Bool} (here : t ∈ wheel.contents todo (.list (.change index)))
    (isHome : name.isHome) (state : node.state ≠ .add) (fit : fits (.list name) node) :
    Tidy fits todo (wheel.put name t node) := by
  have home_ne {index : Bool} : ListName.change index ≠ name := by
    rintro rfl
    cases isHome
  refine tidy.move (.list name) here (by simpa using home_ne) rfl ?_ ?_ (put_arrived todo isHome) ?_ ?_
  · intro u different
    exact Function.update_of_ne different _ _
  · simp only [Wheel.contents, Wheel.put, pushBack_other home_ne]
    exact waiting_erase (tidy.apart.nodup (.list (.change index))) state
  · intro place source target
    apply put_rest todo state _ target
    rintro other rfl linked waiting
    have there : t ∈ wheel.contents todo (.list (.change other)) := List.mem_filter.mpr ⟨linked, by simpa using waiting⟩
    exact source (tidy.apart.only there here)
  · simpa [Wheel.put] using fit

/-- What leaves the wheel's lists is freed. -/
theorem free_rest (todo : List Nat) {place : Place}
    (before : ∀ index, place = .list (.change index) → t ∈ wheel.lists (.change index) → (wheel.nodes t).state ≠ .add)
    (elsewhere : place ≠ .pool) : (wheel.freeTimer t).contents todo place = wheel.contents todo place := by
  cases place with
  | pool => exact absurd rfl elsewhere
  | todo => rfl
  | list other =>
    cases other with
    | near slot => rfl
    | hanging => rfl
    | active => rfl
    | change index => exact waiting_revise (before index rfl) (by simp)

/-- The node that is being handled goes back to the pool. -/
theorem free (tidy : Tidy fits (t :: todo) wheel) (fit : fits .pool { wheel.nodes t with state := .none }) :
    Tidy fits todo (wheel.freeTimer t) := by
  have here : t ∈ wheel.contents (t :: todo) .todo := .head _
  refine tidy.move .pool here (by simp) rfl ?_ ?_ (.refl _) ?_ ?_
  · intro u different
    exact Function.update_of_ne different _ _
  · simp [Wheel.contents]
  · intro place source target
    rw [Wheel.contents_elsewhere todo (t :: todo) source]
    exact free_rest (t :: todo) (fun _ _ linked => tidy.not_waiting here (by simp) linked) target
  · simpa [Wheel.freeTimer, Wheel.setState, Wheel.setNode, Wheel.record] using fit

theorem dropped_left (todo : List Nat) (isHome : name.isHome) :
    (wheel.dropped name t).contents todo (.list name) = (wheel.contents todo (.list name)).erase t := by
  cases name with
  | near slot => simp [Wheel.contents, Wheel.dropped]
  | hanging => simp [Wheel.contents, Wheel.dropped]
  | change index => cases isHome
  | active => cases isHome

theorem dropped_rest (todo : List Nat) {place : Place} (elsewhere : place ≠ .list name) :
    (wheel.dropped name t).contents todo place = wheel.contents todo place := by
  cases place with
  | pool => rfl
  | todo => rfl
  | list other =>
    have unchanged : (wheel.dropped name t).lists other = wheel.lists other :=
      Function.update_of_ne (fun same => elsewhere (by rw [same])) _ _
    cases other with
    | near slot => exact unchanged
    | hanging => exact unchanged
    | active => rfl
    | change index =>
      simp only [Wheel.contents, unchanged]
      rfl

/-- A node of a near slot or of the hanging list goes back to the pool. -/
theorem remove (tidy : Tidy fits todo wheel) (isHome : name.isHome) (here : t ∈ wheel.contents todo (.list name))
    (fit : fits .pool { wheel.nodes t with state := .none }) : Tidy fits todo ((wheel.dropped name t).freeTimer t) := by
  have waiting_ne (index : Bool) : Place.list name ≠ .list (.change index) := by
    rintro same
    cases same
    cases isHome
  have notWaiting {index : Bool} (linked : t ∈ (wheel.dropped name t).lists (.change index)) :
      (wheel.nodes t).state ≠ .add := by
    have unchanged : (wheel.dropped name t).lists (.change index) = wheel.lists (.change index) :=
      Function.update_of_ne (fun same => waiting_ne index (by rw [same])) _ _
    rw [unchanged] at linked
    exact tidy.not_waiting here waiting_ne linked
  refine tidy.move .pool here (by simp) rfl ?_ ?_ (.refl _) ?_ ?_
  · intro u different
    exact Function.update_of_ne different _ _
  · exact Eq.trans (free_rest todo (fun _ _ linked => notWaiting linked) (by simp)) (dropped_left todo isHome)
  · intro place source target
    exact Eq.trans (free_rest todo (fun _ _ linked => notWaiting linked) target) (dropped_rest todo source)
  · simpa [Wheel.freeTimer, Wheel.setState, Wheel.setNode, Wheel.record, Wheel.dropped] using fit

/-- A hanging node goes to a near slot. -/
theorem regroup (tidy : Tidy fits todo wheel) (here : t ∈ wheel.contents todo (.list .hanging)) {slot : Nat}
    (state : (wheel.nodes t).state ≠ .add) (fit : fits (.list (.near slot)) (wheel.nodes t)) :
    Tidy fits todo ((wheel.dropped .hanging t).put (.near slot) t (wheel.nodes t)) := by
  refine tidy.move (.list (.near slot)) here (by simp) rfl ?_ ?_ ?_ ?_ ?_
  · intro u different
    exact Function.update_of_ne different _ _
  · rw [put_rest todo state (by simp) (by simp)]
    exact dropped_left todo rfl
  · apply (put_arrived todo rfl).trans
    rw [dropped_rest todo (by simp)]
  · intro place source target
    exact Eq.trans (put_rest todo state (fun _ _ _ => state) target) (dropped_rest todo source)
  · simpa [Wheel.put] using fit

/-- A node that has been taken from where it was is linked into a changelist. -/
theorem enlist (tidy : Tidy fits todo wheel) {taken : Wheel Sequences} {source : Place} {index : Bool}
    (here : t ∈ wheel.contents todo source) (elsewhere : source ≠ .list (.change index))
    (left : taken.contents todo source = (wheel.contents todo source).erase t)
    (rest : ∀ place, place ≠ source → taken.contents todo place = wheel.contents todo place)
    (nodes : taken.nodes = wheel.nodes) (cap : taken.cap = wheel.cap) (outside : ∀ index, t ∉ taken.lists (.change index))
    (state : node.state = .add) (fit : fits (.list (.change index)) node) :
    Tidy fits todo (taken.put (.change index) t node) := by
  have same (other : Bool) : ((taken.lists (.change other)).filter fun u =>
      (Function.update taken.nodes t node u).state = .add) = taken.contents todo (.list (.change other)) := by
    apply List.filter_congr
    intro u member
    have different : u ≠ t := by
      rintro rfl
      exact outside other member
    rw [Function.update_of_ne different]
  have unchanged {place : Place} (target : place ≠ .list (.change index)) :
      (taken.put (.change index) t node).contents todo place = taken.contents todo place := by
    cases place with
    | pool => rfl
    | todo => rfl
    | list other =>
      have kept : (taken.put (.change index) t node).lists other = taken.lists other :=
        pushBack_other fun same => target (by rw [same])
      cases other with
      | near slot => exact kept
      | hanging => exact kept
      | active => rfl
      | change other =>
        simp only [Wheel.contents, kept]
        exact same other
  refine tidy.move (.list (.change index)) here elsewhere cap ?_ ?_ ?_ ?_ ?_
  · intro u different
    rw [← nodes]
    exact Function.update_of_ne different _ _
  · exact (unchanged elsewhere).trans left
  · have shape : ((taken.lists.pushBack (.change index) t (.change index)).filter fun u =>
        (Function.update taken.nodes t node u).state = .add) = taken.contents todo (.list (.change index)) ++ [t] := by
      rw [pushBack_same, List.filter_append, same]
      simp [state]
    rw [← rest _ (Ne.symm elsewhere)]
    exact (List.Perm.of_eq shape).trans (List.perm_append_singleton t _)
  · intro place source target
    exact (unchanged target).trans (rest place source)
  · simpa [Wheel.put] using fit

/-- The node at the front of the pool is accepted into a changelist. -/
theorem accept (tidy : Tidy fits todo wheel) {pool : List Nat} {index : Bool} (free : wheel.pool = t :: pool)
    (outside : ∀ index, t ∉ wheel.lists (.change index)) (state : node.state = .add)
    (fit : fits (.list (.change index)) node) : Tidy fits todo ({ wheel with pool }.put (.change index) t node) := by
  have here : t ∈ wheel.contents todo .pool := by
    rw [Wheel.contents, free]
    exact .head _
  refine tidy.enlist here (by simp) ?_ (fun place elsewhere => ?_) rfl rfl outside state fit
  · simp [Wheel.contents, free]
  · cases place with
    | pool => exact absurd rfl elsewhere
    | todo => rfl
    | list name => cases name <;> rfl

/-- A node of a near slot or of the hanging list goes to a changelist. -/
theorem requeue (tidy : Tidy fits todo wheel) (isHome : name.isHome) (here : t ∈ wheel.contents todo (.list name)) {index : Bool}
    (outside : ∀ index, t ∉ wheel.lists (.change index)) (state : node.state = .add) (fit : fits (.list (.change index)) node) :
    Tidy fits todo ((wheel.dropped name t).put (.change index) t node) := by
  have home_ne (index : Bool) : ListName.change index ≠ name := by
    rintro rfl
    cases isHome
  refine tidy.enlist here (by simpa using (home_ne index).symm) (dropped_left todo isHome)
    (fun place elsewhere => dropped_rest todo elsewhere) rfl rfl (fun index => ?_) state fit
  rw [dropped_other (home_ne index)]
  exact outside index

/-- A waiting node goes back to the pool. -/
theorem discard (tidy : Tidy fits todo wheel) {index : Bool} (here : t ∈ wheel.contents todo (.list (.change index)))
    (fit : fits .pool { wheel.nodes t with state := .none }) : Tidy fits todo (wheel.freeTimer t) := by
  refine tidy.move .pool here (by simp) rfl ?_ ?_ (.refl _) ?_ ?_
  · intro u different
    exact Function.update_of_ne different _ _
  · exact waiting_erase (tidy.apart.nodup (.list (.change index))) (by simp)
  · intro place source target
    apply free_rest todo _ target
    rintro other rfl linked waiting
    have there : t ∈ wheel.contents todo (.list (.change other)) := List.mem_filter.mpr ⟨linked, by simpa using waiting⟩
    exact source (tidy.apart.only there here)
  · simpa [Wheel.freeTimer, Wheel.setState, Wheel.setNode, Wheel.record] using fit

/-- A node changes where it is. -/
theorem revise (tidy : Tidy fits todo wheel) (before : (wheel.nodes t).state ≠ .add) (after : node.state ≠ .add)
    (fit : ∀ place, t ∈ wheel.contents todo place → fits place node) : Tidy fits todo (wheel.setNode t node) := by
  have same (place : Place) : (wheel.setNode t node).contents todo place = wheel.contents todo place := by
    cases place with
    | pool => rfl
    | todo => rfl
    | list name =>
      cases name with
      | near slot => rfl
      | hanging => rfl
      | active => rfl
      | change index => exact waiting_revise (fun _ => before) after
  refine ⟨?_, ?_, ?_⟩
  · rw [funext same]
    exact tidy.apart
  · intro place u member
    rw [same] at member
    by_cases this : u = t
    · subst this
      simpa [Wheel.setNode] using fit place member
    · have unchanged : (wheel.setNode t node).nodes u = wheel.nodes u := Function.update_of_ne this _ _
      rw [unchanged]
      exact tidy.fits member
  · intro u
    simp only [same]
    exact tidy.covered

/-- A node that does not wait to be added can be linked into a changelist as well. -/
theorem enqueue (tidy : Tidy fits todo wheel) (state : (wheel.nodes t).state ≠ .add) {index : Bool} :
    Tidy fits todo { wheel with lists := wheel.lists.pushBack (.change index) t } := by
  refine tidy.congr ?_ rfl rfl
  intro place
  cases place with
  | pool => rfl
  | todo => rfl
  | list name =>
    cases name with
    | near slot => simp [Wheel.contents, Sequences.pushBack]
    | hanging => simp [Wheel.contents, Sequences.pushBack]
    | active => rfl
    | change other =>
      by_cases this : other = index
      · subst this
        simp [Wheel.contents, state]
      · simp only [Wheel.contents]
        rw [pushBack_other (by simpa using this)]

/-- The active list is only walked. -/
theorem unlinked (tidy : Tidy fits todo wheel) : Tidy fits todo (wheel.dropped .active t) := by
  refine tidy.congr ?_ rfl rfl
  intro place
  by_cases active : place = .list .active
  · subst active
    rfl
  · exact dropped_rest todo active

theorem clear_active (tidy : Tidy fits todo wheel) : Tidy fits todo (wheel.clear .active) := by
  refine tidy.congr ?_ rfl rfl
  intro place
  cases place with
  | pool => rfl
  | todo => rfl
  | list name =>
    cases name with
    | near slot => exact clear_other (by simp)
    | hanging => exact clear_other (by simp)
    | active => rfl
    | change index =>
      simp only [Wheel.contents]
      rw [clear_other (by simp)]
      rfl

/-- `handle_timer` takes the list of the slot. -/
theorem collect (tidy : Tidy fits [] wheel) {slot : Nat} {lists : Sequences} (empty : lists (.near slot) = [])
    (rest : ∀ name, name ≠ .near slot → name ≠ .active → lists name = wheel.lists name)
    (fit : ∀ {t}, t ∈ wheel.contents [] (.list (.near slot)) → other .todo (wheel.nodes t))
    (keep : ∀ {place t}, t ∈ wheel.contents [] place → place ≠ .list (.near slot) → other place (wheel.nodes t)) :
    Tidy other (wheel.lists (.near slot)) { wheel with lists } := by
  have shape (place : Place) : Wheel.contents (wheel.lists (.near slot)) { wheel with lists } place =
      if place = .list (.near slot) then [] else wheel.contents [] (if place = .todo then .list (.near slot) else place) := by
    cases place with
    | pool => rfl
    | todo => rfl
    | list name =>
      by_cases same : name = .near slot
      · subst same
        simpa [Wheel.contents] using empty
      · have unchanged := rest name same
        cases name with
        | near _ => simpa [Wheel.contents, same] using unchanged (by simp)
        | hanging => simpa [Wheel.contents] using unchanged (by simp)
        | active => simp [Wheel.contents]
        | change _ => simp [Wheel.contents, unchanged (by simp)]
  -- Nothing of the walked list was left, so nothing is in two places when the slot's list becomes it.
  have nothing {t : Nat} : t ∉ wheel.contents [] .todo := by simp [Wheel.contents]
  have origin {place : Place} {t : Nat} (member : t ∈ Wheel.contents (wheel.lists (.near slot)) { wheel with lists } place) :
      place ≠ .list (.near slot) ∧ t ∈ wheel.contents [] (if place = .todo then .list (.near slot) else place) := by
    rw [shape] at member
    by_cases taken : place = .list (.near slot)
    · simp [taken] at member
    · exact ⟨taken, by simpa only [taken, if_false] using member⟩
  refine ⟨⟨?_, ?_⟩, ?_, ?_⟩
  · intro place
    rw [shape]
    split
    · exact .nil
    · exact tidy.apart.nodup _
  · intro one two t first second
    obtain ⟨taken, before⟩ := origin first
    obtain ⟨taken', before'⟩ := origin second
    have same := tidy.apart.only before before'
    split at same <;> split at same
    · simp_all
    · exact absurd same.symm taken'
    · exact absurd same taken
    · exact same
  · intro place t member
    obtain ⟨taken, before⟩ := origin member
    by_cases walked : place = .todo
    · subst walked
      exact fit before
    · rw [if_neg walked] at before
      exact keep before taken
  · intro t
    rw [show Wheel.cap { wheel with lists } = wheel.cap from rfl, tidy.covered]
    constructor
    · rintro ⟨place, member⟩
      by_cases taken : place = .list (.near slot)
      · subst taken
        exact ⟨.todo, by simpa [shape] using member⟩
      · have walked : place ≠ .todo := by
          rintro rfl
          exact nothing member
        exact ⟨place, by simpa [shape, taken, walked] using member⟩
    · rintro ⟨place, member⟩
      exact ⟨_, (origin member).2⟩

end Tidy

namespace Wheel

/-- The list that `readd_timer` chooses. -/
def home {S : Type} (wheel : Wheel S) (t : Nat) : ListName :=
  if wheel.ticksLeft t ≥ nearSlots then .hanging else .near (wheel.nearSlot t)

/-- The list that `remove_timer` takes the node out of. -/
def sought {S : Type} (wheel : Wheel S) (t : Nat) : ListName :=
  if wheel.ticksLeft t ≥ nearSlots then .hanging
  else .near (if wheel.ticksLeft t > 0 then wheel.ticksLeft t % nearSlots else wheel.tickcount % nearSlots)

/-- What `add_timer` has written before it queues the node. -/
def admitted {S : Type} (wheel : Wheel S) (request : AddRequest) : TimerNode :=
  let timeout := request.timeout.tdiv wheel.ticktime
  ⟨wheel.accepted, timeout, if request.delay then wheel.tickcount + timeout else wheel.tickcount, request.repeats, .add⟩

/-- `add_timer` has taken the node from the pool. -/
def accept (wheel : Wheel Sequences) (request : AddRequest) (t : Nat) (pool : List Nat) : Wheel Sequences :=
  let node := wheel.admitted request
  { wheel with
    pool
    accepted := wheel.accepted + 1
    log := .accepted node.uid t wheel.tickcount node.timeout node.nexttime node.repeats :: wheel.log
    }.put (.change !wheel.frontidx) t node

/-- `handle_timer` has taken the list of the slot. -/
def collected (wheel : Wheel Sequences) : Wheel Sequences :=
  { wheel with lists := (wheel.lists.clear .active).swap .active (.near (wheel.tickcount % nearSlots)) }

/-- `del_timer` has found the timer active. -/
def doom (wheel : Wheel Sequences) (timerid : Nat) : Wheel Sequences :=
  (wheel.record (.deleted (wheel.nodes timerid).uid)).put (.change !wheel.frontidx) timerid
    { wheel.nodes timerid with state := .del }

end Wheel

/-- One run has been counted. -/
def TimerNode.counted (node : TimerNode) : TimerNode :=
  { node with repeats := if node.repeats > 0 then node.repeats - 1 else node.repeats }

def TimerNode.again (node : TimerNode) : TimerNode :=
  { node.counted with nexttime := node.nexttime + node.timeout }

namespace Proofs
variable {S : Type} {wheel : Wheel S} {t : Nat}

theorem home_isHome : (wheel.home t).isHome := by
  rw [Wheel.home]
  split <;> rfl

theorem sought_isHome : (wheel.sought t).isHome := by
  rw [Wheel.sought]
  split <;> rfl

theorem home_ne_change {index : Bool} : ListName.change index ≠ wheel.home t := by
  intro same
  have isHome : (wheel.home t).isHome := home_isHome
  rw [← same] at isHome
  cases isHome

theorem home_ne_active : ListName.active ≠ wheel.home t := by
  intro same
  have isHome : (wheel.home t).isHome := home_isHome
  rw [← same] at isHome
  cases isHome

theorem readdTimer_eq (wheel : Wheel Sequences) (t : Nat) :
    wheel.readdTimer t = some (wheel.put (wheel.home t) t { wheel.nodes t with state := .active }) := rfl

theorem delTimer_eq (wheel : Wheel Sequences) (timerid : Nat) :
    wheel.delTimer timerid =
      some (if timerid < wheel.cap ∧ (wheel.nodes timerid).state = .active then wheel.doom timerid else wheel) := by
  rw [Wheel.delTimer]
  split <;> rfl

theorem addTimer_eq (wheel : Wheel Sequences) (request : AddRequest) :
    wheel.addTimer request = some (match wheel.pool with
      | [] => wheel
      | t :: pool => wheel.accept request t pool) := by
  rw [Wheel.addTimer]
  cases wheel.pool <;> rfl

theorem unlink_eq {wheel : Wheel Sequences} {name : ListName} {t : Nat} (linked : t ∈ wheel.lists name) :
    wheel.unlink name t = some (wheel.dropped name t) := by
  simp [Wheel.unlink, TimerLists.pop, Sequences.pop, Wheel.dropped, List.ne_nil_of_mem linked]

theorem removeTimer_eq {wheel : Wheel Sequences} {t : Nat} (linked : t ∈ wheel.lists (wheel.sought t)) :
    wheel.removeTimer t = some ((wheel.dropped (wheel.sought t) t).freeTimer t) := by
  rw [Wheel.removeTimer]
  change (wheel.unlink (wheel.sought t) t).bind _ = _
  rw [unlink_eq linked]
  rfl

theorem rearm_done {wheel : Wheel Sequences} {t : Nat} (linked : t ∈ wheel.lists .active)
    (done : (wheel.nodes t).counted.repeats = 0) :
    Wheel.rearm t wheel = some (((wheel.dropped .active t).setNode t (wheel.nodes t).counted).freeTimer t) := by
  rw [Wheel.rearm, unlink_eq linked, Option.bind_eq_bind, Option.bind_some]
  exact if_pos done

theorem rearm_again {wheel : Wheel Sequences} {t : Nat} (linked : t ∈ wheel.lists .active)
    (more : (wheel.nodes t).counted.repeats ≠ 0) :
    Wheel.rearm t wheel = some ((wheel.dropped .active t).put ((wheel.setNode t (wheel.nodes t).again).home t) t
      { (wheel.nodes t).again with state := .active }) := by
  rw [Wheel.rearm, unlink_eq linked, Option.bind_eq_bind, Option.bind_some]
  apply Eq.trans (if_neg more)
  rw [readdTimer_eq]
  simp [Wheel.put, Wheel.setNode, Wheel.home, Wheel.ticksLeft, Wheel.nearSlot, Wheel.dropped, TimerNode.again,
    TimerNode.counted]

theorem handleNode_active {C : Type} [TimerLists S C] {after : Wheel S} {script : Nat → HandlerOutcome}
    (active : (wheel.nodes t).state = .active)
    (called : (script (wheel.nodes t).uid).calls.foldlM Wheel.call wheel = some after) :
    Wheel.handleNode script t wheel =
      let recorded := after.record (.fired (wheel.nodes t).uid after.tickcount (script (wheel.nodes t).uid).result)
      if (script (wheel.nodes t).uid).result then Wheel.rearm t recorded else some (recorded.freeTimer t) := by
  simp only [Wheel.handleNode, if_pos active, called, Option.bind_eq_bind, Option.bind_some, Option.pure_def]

theorem forEach_eq (wheel : Wheel Sequences) (name : ListName) (body : Nat → Wheel Sequences → Option (Wheel Sequences)) :
    wheel.forEach name body = (wheel.lists name).foldlM (fun wheel t => body t wheel) wheel := by
  suffices walked : ∀ (items : List Nat) (wheel : Wheel Sequences),
      Wheel.walk body items.length items wheel = items.foldlM (fun wheel t => body t wheel) wheel from walked _ _
  intro items
  induction items with
  | nil => intro wheel; rfl
  | cons t items ih =>
    intro wheel
    rw [List.foldlM_cons, List.length_cons, Wheel.walk]
    cases done : body t wheel with
    | none => simp [TimerLists.next, done]
    | some middle => simpa [TimerLists.next, done] using ih middle

theorem handleTimer_eq (wheel : Wheel Sequences) (script : Nat → HandlerOutcome) :
    wheel.handleTimer script = ((wheel.lists (.near (wheel.tickcount % nearSlots))).foldlM
      (fun wheel t => Wheel.handleNode script t wheel) wheel.collected).map fun wheel => wheel.clear .active := by
  have due : wheel.collected.lists .active = wheel.lists (.near (wheel.tickcount % nearSlots)) := by
    simp [Wheel.collected, Sequences.swap, Sequences.clear]
  rw [← due, ← forEach_eq, Option.map_eq_bind]
  rfl

theorem tick_eq {S C : Type} [TimerLists S C] {wheel loaded handled : Wheel S} {script : Nat → HandlerOutcome}
    (loads : wheel.switchChangelist.loadTimers = some loaded) (handles : loaded.handleTimer script = some handled) :
    wheel.tick script =
      if (handled.tickcount + 1) % nearSlots = 0 then Wheel.regroupTimers { handled with tickcount := handled.tickcount + 1 }
      else some { handled with tickcount := handled.tickcount + 1 } := by
  rw [Wheel.tick, loads, Option.bind_eq_bind, Option.bind_some, handles, Option.bind_some]
  rfl

theorem loadTimers_eq (wheel : Wheel Sequences) :
    wheel.loadTimers = ((wheel.lists (.change wheel.frontidx)).foldlM (fun wheel t => Wheel.loadTimer t wheel) wheel).map
      fun wheel => wheel.clear (.change wheel.frontidx) := by
  rw [← forEach_eq, Option.map_eq_bind]
  rfl

end Proofs
end Cassobee
