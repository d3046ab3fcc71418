import Cassobee.Proofs.Emptying

/-! What becomes of deleted timers in whole runs, and of all others. The lists are read off the links
here, as a walk over them would do. -/

namespace Cassobee
open Support

/-! What a walk over a list sees. -/

def Links.follow (links : Links) : Nat → Option Nat → List Nat
  | count + 1, some t => t :: links.follow count (links.next t)
  | _, _ => []

def Links.listed (links : Links) (name : ListName) : List Nat := links.follow (links.count name) (links.head name)

/-- The wheel with its lists as they are read; the local list is not there between ticks. -/
def Wheel.read (wheel : Wheel Links) : Wheel Sequences :=
  wheel.through fun name => if name = .active then [] else wheel.lists.listed name

/-- The events of a tick that do not come from calls. -/
def TimerEvent.isPlain : TimerEvent → Bool
  | .fired .. | .freed _ => true
  | .accepted .. | .deleted _ => false

/-- No earlier timer has had the id. -/
def Wheel.FirstOf {S : Type} (wheel : Wheel S) (timerid uid : Nat) : Prop :=
  ∀ other tick timeout nexttime repeats, .accepted other timerid tick timeout nexttime repeats ∈ wheel.log → uid ≤ other

/-- The log goes on from `start`, and no timer was deleted that had been given the id of an earlier one. -/
structure Chronicle {S : Type} (start : List TimerEvent) (wheel : Wheel S) : Prop where
  grows : start <:+ wheel.log
  first {uid timerid tick : Nat} {timeout nexttime repeats : Int} (deleted : .deleted uid ∈ wheel.log)
    (entry : .accepted uid timerid tick timeout nexttime repeats ∈ wheel.log) : wheel.FirstOf timerid uid

def Wheel.Adds {S : Type} (wheel after : Wheel S) : Prop :=
  ∃ events, after.log = events ++ wheel.log ∧ ∀ event ∈ events, event.isPlain

theorem Wheel.Adds.trans {S : Type} {wheel middle after : Wheel S} (one : wheel.Adds middle) (two : middle.Adds after) :
    wheel.Adds after := by
  obtain ⟨events, same, plain⟩ := one
  obtain ⟨events', same', plain'⟩ := two
  refine ⟨events' ++ events, by rw [same', same, List.append_assoc], fun event member => ?_⟩
  rcases List.mem_append.mp member with new | old
  · exact plain' event new
  · exact plain event old

namespace Proofs
open Links
variable {held : ListName → Bool} {wheel : Wheel Sequences} {links : Links} {name : ListName}

theorem follow_chain {list : List Nat} (chain : list.IsChain fun a b => links.next a = some b) :
    links.follow list.length list.head? = list := by
  induction list with
  | nil => rfl
  | cons t rest ih =>
    cases rest with
    | nil => rfl
    | cons u rest =>
      obtain ⟨next, chain⟩ := List.isChain_cons_cons.mp chain
      rw [List.length_cons, List.head?_cons, Links.follow, next]
      exact congrArg _ (ih chain)

theorem listed_eq (doomed : Doomed held .active [] wheel links) (global : name ≠ .active) : links.listed name = wheel.lists name := by
  cases is : held name with
  | true =>
    obtain ⟨-, t, alone, -, head, count⟩ := doomed.alone is
    rw [Links.listed, head, count, alone]
    rfl
  | false =>
    have shown : (wheel.hide held).lists name = wheel.lists name := shown_apart is
    have head := doomed.woven.mirror.head global global
    have count := doomed.woven.mirror.count global global
    have ring := doomed.woven.mirror.ring name
    rw [owned_other global global, shown] at ring
    rw [shown] at head count
    rw [Links.listed, show links.head name = _ from (shown_apart is).symm.trans head,
      show links.count name = _ from (shown_apart is).symm.trans count]
    exact follow_chain (ring.1.imp fun _ _ linked => linked.1)

theorem read_over (doomed : Doomed held .active [] wheel links) (idle : wheel.lists .active = []) :
    (wheel.over links).read = wheel := by
  have lists : (fun name => if name = .active then [] else links.listed name) = wheel.lists := by
    funext name
    by_cases global : name = .active
    · rw [if_pos global, global, idle]
    · rw [if_neg global, listed_eq doomed global]
  rw [Wheel.read]
  change (wheel.over links).through (fun name => if name = .active then [] else links.listed name) = wheel
  rw [lists]
  rfl

section
variable {S C : Type} [TimerLists S C] {wheel after : Wheel S} {t : Nat}

theorem adds_of_same (same : after.log = wheel.log) : wheel.Adds after := ⟨[], same, nofun⟩

theorem push_adds {name : ListName} (pushed : wheel.push name t = some after) : after.log = wheel.log := by
  obtain ⟨lists, -, rfl⟩ := Option.map_eq_some_iff.mp pushed
  rfl

theorem unlink_adds {name : ListName} (unlinked : wheel.unlink name t = some after) : after.log = wheel.log := by
  obtain ⟨lists, -, rfl⟩ := Option.map_eq_some_iff.mp unlinked
  rfl

theorem freeTimer_adds : wheel.Adds (wheel.freeTimer t) := ⟨[.freed (wheel.nodes t).uid], rfl, by simp [TimerEvent.isPlain]⟩

theorem readdTimer_adds (readded : wheel.readdTimer t = some after) : wheel.Adds after := by
  obtain ⟨pushed, first, last⟩ := Option.bind_eq_some_iff.mp readded
  cases last
  have same := push_adds first
  exact adds_of_same same

theorem loadTimer_adds (loaded : Wheel.loadTimer t wheel = some after) : wheel.Adds after := by
  unfold Wheel.loadTimer at loaded
  split at loaded
  · exact readdTimer_adds loaded
  · obtain ⟨unlinked, first, last⟩ := Option.bind_eq_some_iff.mp loaded
    cases last
    exact (adds_of_same (unlink_adds first)).trans freeTimer_adds
  · exact readdTimer_adds loaded
  · cases loaded
    exact adds_of_same rfl
  · cases loaded
    exact adds_of_same rfl

theorem rearm_adds (rearmed : Wheel.rearm t wheel = some after) : wheel.Adds after := by
  obtain ⟨unlinked, first, last⟩ := Option.bind_eq_some_iff.mp rearmed
  have same := unlink_adds first
  by_cases done : (unlinked.nodes t).counted.repeats = 0
  · have freed : some ((unlinked.setNode t (unlinked.nodes t).counted).freeTimer t) = some after := (if_pos done).symm.trans last
    cases freed
    have counted : wheel.Adds (unlinked.setNode t (unlinked.nodes t).counted) := adds_of_same same
    exact counted.trans freeTimer_adds
  · have again : ((unlinked.setNode t (unlinked.nodes t).counted).setNode t (unlinked.nodes t).again).readdTimer t = some after :=
      (if_neg done).symm.trans last
    have counted : wheel.Adds ((unlinked.setNode t (unlinked.nodes t).counted).setNode t (unlinked.nodes t).again) := adds_of_same same
    exact counted.trans (readdTimer_adds again)

theorem regroupTimer_adds (regrouped : Wheel.regroupTimer t wheel = some after) : wheel.Adds after := by
  unfold Wheel.regroupTimer at regrouped
  split at regrouped
  · obtain ⟨unlinked, first, last⟩ := Option.bind_eq_some_iff.mp regrouped
    exact adds_of_same ((push_adds last).trans (unlink_adds first))
  · cases regrouped
    exact adds_of_same rfl

theorem foldlM_adds {call : Wheel S → Nat → Option (Wheel S)} (each : ∀ {wheel t after}, call wheel t = some after → wheel.Adds after)
    {items : List Nat} (computed : items.foldlM call wheel = some after) : wheel.Adds after := by
  induction items generalizing wheel with
  | nil =>
    cases computed
    exact adds_of_same rfl
  | cons t items ih =>
    obtain ⟨middle, first, rest⟩ := Option.bind_eq_some_iff.mp computed
    exact (each first).trans (ih rest)

end
end Proofs

namespace Chronicle
open Proofs
variable {start : List TimerEvent} {terms : Terms} {next lap : Nat} {todo : List Nat}

theorem adds {S : Type} {wheel after : Wheel S} (chronicle : Chronicle start wheel) (adds : wheel.Adds after) : Chronicle start after := by
  obtain ⟨events, same, plain⟩ := adds
  have older {event : TimerEvent} (told : event.isPlain = false) (member : event ∈ after.log) : event ∈ wheel.log := by
    rw [same] at member
    rcases List.mem_append.mp member with new | old
    · rw [plain event new] at told
      cases told
    · exact old
  refine ⟨?_, fun deleted entry other _ _ _ _ entry' => ?_⟩
  · rw [same]
    exact chronicle.grows.trans (List.suffix_append _ _)
  · exact chronicle.first (older rfl deleted) (older rfl entry) _ _ _ _ _ (older rfl entry')

variable {wheel after : Wheel Sequences} {t : Nat}

theorem call (chronicle : Chronicle start wheel) (ledger : Ledger terms next wheel) {call : TimerCall} (clean : CallClean wheel call)
    (called : wheel.call call = some after) : Chronicle start after := by
  cases call with
  | add request =>
    rw [Wheel.call, addTimer_eq] at called
    cases free : wheel.pool with
    | nil =>
      rw [free] at called
      cases called
      exact chronicle
    | cons t pool =>
      rw [free] at called
      cases called
      refine ⟨chronicle.grows.trans (List.suffix_cons _ _), fun {uid _ _ _ _ _} deleted entry other _ _ _ _ entry' => ?_⟩
      have deleted' : .deleted uid ∈ wheel.log := List.mem_of_ne_of_mem (by simp) deleted
      have older : uid < wheel.accepted := ledger.fresh deleted'
      rcases List.mem_cons.mp entry with same | entry
      · cases same
        exact absurd older (Nat.lt_irrefl _)
      · rcases List.mem_cons.mp entry' with same | entry'
        · cases same
          exact older.le
        · exact chronicle.first deleted' entry _ _ _ _ _ entry'
  | del timerid =>
    rw [Wheel.call, delTimer_eq] at called
    split at called
    · rename_i applies
      cases called
      obtain ⟨-, noneEnded⟩ := clean applies.1 applies.2
      refine ⟨chronicle.grows.trans (List.suffix_cons _ _), fun {uid _ _ _ _ _} deleted entry other _ _ _ _ entry' => ?_⟩
      have entry := List.mem_of_ne_of_mem (by simp) entry
      have entry' := List.mem_of_ne_of_mem (by simp) entry'
      rcases List.mem_cons.mp deleted with same | deleted
      · cases same
        obtain ⟨_, _, _, _, _, own, -⟩ := ledger.running applies.1 (by simp [applies.2])
        obtain ⟨rfl, -⟩ := ledger.once own entry
        obtain ⟨-, ⟨-, same⟩ | ⟨_, -, ended⟩⟩ := ledger.standing entry'
        · exact same.le
        · have freed := List.count_pos_iff.mp (ended.freed ▸ Nat.one_pos)
          exact absurd freed (noneEnded _ _ _ _ _ entry')
      · exact chronicle.first deleted entry _ _ _ _ _ entry'
    · cases called
      exact chronicle

theorem calls (chronicle : Chronicle start wheel) (good : Good terms next lap todo wheel) (phase : todo = [] ∨ wheel.tickcount < next)
    {calls : List TimerCall} (meets : EachStep Wheel.call (CallMeets terms next) wheel calls)
    (clean : EachStep Wheel.call CallClean wheel calls) (called : calls.foldlM Wheel.call wheel = some after) :
    Chronicle start after := by
  induction calls generalizing wheel with
  | nil =>
    cases called
    exact chronicle
  | cons call calls ih =>
    obtain ⟨middle, first, rest⟩ := Option.bind_eq_some_iff.mp called
    obtain ⟨middle', first', good', aside⟩ := good.call phase meets.1
    cases first.symm.trans first'
    refine ih (chronicle.call good.ledger clean.1 first) good' ?_ (meets.2 middle first) (clean.2 middle first) rest
    rwa [aside.tickcount]

theorem handleNode (chronicle : Chronicle start wheel) {script : Nat → HandlerOutcome}
    (good : Good terms (wheel.tickcount + 1) lap (t :: todo) wheel) (meets : HandlerMeets terms script wheel t)
    (clean : EachStep Wheel.call CallClean wheel (script (wheel.nodes t).uid).calls)
    (handled : Wheel.handleNode script t wheel = some after) : Chronicle start after := by
  unfold Wheel.handleNode at handled
  split at handled
  · obtain ⟨called, calls, rest⟩ := Option.bind_eq_some_iff.mp handled
    have chronicle := chronicle.calls good (.inr (Nat.lt_succ_self _)) meets.1 clean calls
    have recorded : Chronicle start (called.record (.fired (wheel.nodes t).uid called.tickcount
        (script (wheel.nodes t).uid).result)) := chronicle.adds ⟨[_], rfl, by simp [TimerEvent.isPlain]⟩
    dsimp only at rest
    split at rest
    · exact recorded.adds (rearm_adds rest)
    · cases rest
      exact recorded.adds freeTimer_adds
  · cases handled
    exact chronicle

theorem handleWalk (chronicle : Chronicle start wheel) {script : Nat → HandlerOutcome} {passed : List Nat}
    (good : Good terms (wheel.tickcount + 1) lap todo wheel) (lap_le : lap ≤ wheel.tickcount + nearSlots)
    (meets : EachStep (fun wheel t => Wheel.handleNode script t wheel) (HandlerMeets terms script) wheel todo)
    (clean : WalkClean script passed todo wheel)
    (handled : todo.foldlM (fun wheel t => Wheel.handleNode script t wheel) wheel = some after) : Chronicle start after := by
  induction todo generalizing wheel passed with
  | nil =>
    cases handled
    exact chronicle
  | cons t todo ih =>
    obtain ⟨middle, first, rest⟩ := Option.bind_eq_some_iff.mp handled
    obtain ⟨middle', first', good', aside⟩ := good.handleNode lap_le meets.1
    cases first.symm.trans first'
    rw [← aside.tickcount] at good' lap_le
    exact ih (chronicle.handleNode good meets.1 clean.1 first) good' lap_le (meets.2 middle first) (clean.2.2 middle first) rest

theorem tick (chronicle : Chronicle start wheel) (steady : Steady terms wheel)
    {script : Nat → HandlerOutcome} (meets : TickMeets terms script wheel) (clean : TickClean script wheel)
    (ticked : wheel.tick script = some after) :
    Chronicle start after ∧ ∃ loaded, Steady terms loaded ∧ loaded.lists (.change !loaded.frontidx) = [] ∧
      wheel.log <:+ loaded.log ∧ loaded.log <:+ after.log := by
  obtain ⟨loaded, loads, now, good, idle⟩ := steady.load
  have added : wheel.Adds loaded := by
    have loads' := loads
    rw [loadTimers_eq, Option.map_eq_some_iff] at loads'
    obtain ⟨walked, computed, rfl⟩ := loads'
    have adds : wheel.switchChangelist.Adds walked := foldlM_adds loadTimer_adds computed
    exact adds
  have chronicled := chronicle.adds added
  have walking : Chronicle loaded.log loaded.collected := ⟨List.suffix_rfl, chronicled.first⟩
  obtain ⟨handled, handles, rest⟩ : ∃ handled, loaded.handleTimer script = some handled ∧
      (if (handled.tickcount + 1) % nearSlots = 0 then Wheel.regroupTimers { handled with tickcount := handled.tickcount + 1 }
        else some { handled with tickcount := handled.tickcount + 1 }) = some after := by
    rw [Wheel.tick, loads] at ticked
    exact Option.bind_eq_some_iff.mp ticked
  have handled' : Chronicle loaded.log handled := by
    rw [handleTimer_eq, Option.map_eq_some_iff] at handles
    obtain ⟨walked, computed, rfl⟩ := handles
    have later := walking.handleWalk (Good.collect good idle) (lapEnd_le _) (meets loaded loads) (clean.walk loads) computed
    exact ⟨later.grows, later.first⟩
  have final : Chronicle loaded.log after := by
    split at rest
    · rw [Wheel.regroupTimers, forEach_eq] at rest
      have adds := foldlM_adds regroupTimer_adds rest
      exact handled'.adds adds
    · cases rest
      exact ⟨handled'.grows, handled'.first⟩
  refine ⟨⟨?_, final.first⟩, loaded, good, idle, ?_, final.grows⟩
  · exact chronicled.grows.trans final.grows
  · obtain ⟨events, same, -⟩ := added
    exact same ▸ List.suffix_append _ _

theorem step {action : WheelAction} (chronicle : Chronicle start wheel)
    (steady : Steady terms wheel) (meets : StepMeets terms wheel action) (clean : StepClean wheel action)
    (stepped : wheel.step action = some after) : Chronicle start after := by
  cases action with
  | call call => exact chronicle.call steady.ledger clean stepped
  | tick script => exact (chronicle.tick steady meets clean stepped).1

end Chronicle

/-- The timer was given back once, and no list has it. -/
structure Gone (uid : Nat) (wheel : Wheel Links) : Prop where
  freed : wheel.log.count (.freed uid) = 1
  unlinked {name : ListName} (global : name ≠ .active) {t : Nat} (linked : t ∈ wheel.lists.listed name) : (wheel.nodes t).uid ≠ uid

/-- A timer that was not deleted and whose handler has always returned true has run at each of its
times that are over, and its node holds the next one. -/
def OnTime {S : Type} (wheel : Wheel S) : Prop :=
  ∀ (uid t a : Nat) (p n r : Int), .accepted uid t a p n r ∈ wheel.log → .deleted uid ∉ wheel.log →
    (∀ tick, .fired uid tick false ∉ wheel.log) → ∃ times, Fired uid wheel.log p n times ∧
      (0 ≤ r ∧ times = max r 1 ∨
        (wheel.nodes t).uid = uid ∧ (wheel.nodes t).nexttime = n + times * p ∧ wheel.tickcount ≤ (wheel.nodes t).nexttime)

/-- What a step has to do with timers that are, or were, deleted. -/
structure StepRight (before : Wheel Links) (action : WheelAction) (after : Wheel Links) : Prop where
  gone {script : Nat → HandlerOutcome} (ticked : action = .tick script) {uid t tick : Nat} {timeout nexttime repeats : Int}
    (entry : .accepted uid t tick timeout nexttime repeats ∈ before.log) (deleted : .deleted uid ∈ before.log) : Gone uid after
  ended {t : Nat} (called : action = .call (.del t)) {uid tick : Nat} {timeout nexttime repeats : Int}
    (entry : .accepted uid t tick timeout nexttime repeats ∈ before.log) (finished : .freed uid ∈ before.log) : after = before
  first {uid t tick : Nat} {timeout nexttime repeats : Int} (deleted : .deleted uid ∈ after.log)
    (entry : .accepted uid t tick timeout nexttime repeats ∈ after.log) : after.FirstOf t uid
  quiet : Quiet after.log
  onTime : OnTime after

/-- Timers of any period may be added, and deleted. -/
def deletingTerms (ticktime : Int) (positive : 0 < ticktime) : Terms := ⟨ticktime, positive, fun _ _ _ => True, True⟩

/-- What a step must find for deletions to be right. -/
def DeletesCleanly (ticktime : Int) (positive : 0 < ticktime) (wheel : Wheel Links) (action : WheelAction) : Prop :=
  StepMeets (deletingTerms ticktime positive) wheel.read action ∧ StepClean wheel.read action

namespace Proofs
variable {terms : Terms} {wheel : Wheel Sequences} {start : List TimerEvent}

theorem onTime (steady : Steady terms wheel) : OnTime wheel := by
  intro uid t a p n r entry kept willing
  obtain ⟨inside, ⟨live, rfl⟩ | ⟨times, fired, ended⟩⟩ := steady.ledger.standing entry
  · obtain ⟨_, _, _, _, times, entry', fired, record⟩ := steady.ledger.running inside live
    obtain ⟨-, rfl, rfl, rfl, rfl⟩ := steady.ledger.once entry entry'
    exact ⟨times, fired, .inr ⟨rfl, record.due, due_later steady inside live⟩⟩
  · refine ⟨times, fired, .inl ?_⟩
    rcases ended.reason with ⟨tick, refused⟩ | deleted | complete
    · exact absurd refused (willing tick)
    · exact absurd deleted kept
    · exact complete

/-- What is gone when the changelist has been loaded. -/
theorem over_of_deleted (steady : Steady terms wheel) (idle : wheel.lists (.change !wheel.frontidx) = []) {uid t tick : Nat}
    {timeout nexttime repeats : Int} (entry : .accepted uid t tick timeout nexttime repeats ∈ wheel.log)
    (deleted : .deleted uid ∈ wheel.log) : .freed uid ∈ wheel.log := by
  obtain ⟨inside, ⟨live, rfl⟩ | ⟨times, -, ended⟩⟩ := steady.ledger.standing entry
  · obtain ⟨_, _, _, _, _, -, -, record⟩ := steady.ledger.running inside live
    have queued := steady.queued.pending inside (record.deleted.mp deleted)
    rw [idle] at queued
    cases queued
  · exact List.count_pos_iff.mp (ended.freed ▸ Nat.one_pos)

theorem live_of_settled {tick : Nat} {node : TimerNode} (settled : node.Settled tick) : node.state ≠ .none := by
  rcases settled with active | ⟨deleted, -⟩
  · simp [active]
  · simp [deleted]

theorem live_of_linked (steady : Steady terms wheel) {name : ListName} (global : name ≠ .active) {t : Nat}
    (linked : t ∈ wheel.lists name) : t < wheel.cap ∧ (wheel.nodes t).state ≠ .none := by
  cases name with
  | near slot =>
    have member : t ∈ wheel.contents [] (.list (.near slot)) := linked
    exact ⟨steady.tidy.covered.mpr ⟨_, member⟩, live_of_settled (steady.tidy.fits member).1⟩
  | hanging =>
    have member : t ∈ wheel.contents [] (.list .hanging) := linked
    exact ⟨steady.tidy.covered.mpr ⟨_, member⟩, live_of_settled (steady.tidy.fits member).1⟩
  | active => exact absurd rfl global
  | change index =>
    have queued : t ∈ wheel.lists (.change !wheel.frontidx) := by
      by_cases back : index = !wheel.frontidx
      · exact back ▸ linked
      · have front : index = wheel.frontidx := by simpa using back
        rw [front, steady.front] at linked
        cases linked
    obtain ⟨inside, waits | deleted⟩ := steady.queued.states queued
    · exact ⟨inside, by simp [waits]⟩
    · exact ⟨inside, by simp [deleted]⟩

/-- A deleted timer is gone after a tick. -/
theorem gone_of_tick {held : ListName → Bool} {links : Links} {after : Wheel Sequences} (chronicle : Chronicle start wheel)
    (steady : Steady terms wheel) {script : Nat → HandlerOutcome} (meets : TickMeets terms script wheel)
    (clean : TickClean script wheel) (ticked : wheel.tick script = some after) (steady' : Steady terms after)
    (doomed : Doomed held .active [] after links) {uid t tick : Nat} {timeout nexttime repeats : Int}
    (entry : .accepted uid t tick timeout nexttime repeats ∈ wheel.log) (deleted : .deleted uid ∈ wheel.log) :
    Gone uid (after.over links) := by
  obtain ⟨-, loaded, good, idle, before, later⟩ := chronicle.tick steady meets clean ticked
  have freed : .freed uid ∈ after.log := later.subset (over_of_deleted good idle (before.subset entry) (before.subset deleted))
  refine ⟨?_, fun {name} global u linked same => ?_⟩
  · obtain ⟨inside, ⟨live, rfl⟩ | ⟨times, -, ended⟩⟩ := steady'.ledger.standing (later.subset (before.subset entry))
    · obtain ⟨_, _, _, _, _, -, -, record⟩ := steady'.ledger.running inside live
      exact absurd freed record.kept
    · exact ended.freed
  · have linked' : u ∈ after.lists name := listed_eq doomed global ▸ linked
    have live := live_of_linked steady' global linked'
    obtain ⟨_, _, _, _, _, -, -, record⟩ := steady'.ledger.running live.1 live.2
    have same' : (after.nodes u).uid = uid := same
    apply record.kept
    rw [same']
    exact freed

/-- The wheel that the code has, and the one over sequences that it shows. -/
def Mirrored (terms : Terms) (real : Wheel Links) : Prop :=
  ∃ held wheel links, real = Wheel.over wheel links ∧ Steady terms wheel ∧ Doomed held .active [] wheel links ∧
    wheel.lists .active = [] ∧ Chronicle [] wheel

theorem mirrored_step {real : Wheel Links} {action : WheelAction} (mirrored : Mirrored terms real)
    (meets : StepMeets terms real.read action) (clean : StepClean real.read action) :
    ∃ after, real.step action = some after ∧ StepRight real action after ∧ Mirrored terms after := by
  obtain ⟨held, wheel, links, rfl, steady, doomed, idle, chronicle⟩ := mirrored
  rw [read_over doomed idle] at meets clean
  obtain ⟨held', after, links', stepped, ideal, doomed', idle'⟩ := doomed.step idle steady clean
  obtain ⟨after', ideal', steady'⟩ := steady.step meets
  cases ideal.symm.trans ideal'
  have chronicle' := chronicle.step steady meets clean ideal
  refine ⟨after.over links', stepped, ⟨?_, ?_, chronicle'.first, steady'.ledger.quiet, onTime steady'⟩, held', after, links', rfl,
    steady', doomed', idle', chronicle'⟩
  · rintro script rfl uid t tick timeout nexttime repeats entry deleted
    exact gone_of_tick chronicle steady meets clean ideal steady' doomed' entry deleted
  · rintro t rfl uid tick timeout nexttime repeats entry freed
    have passive : ¬ (t < wheel.cap ∧ (wheel.nodes t).state = .active) := by
      rintro ⟨inside, active⟩
      exact (clean inside active).2 _ _ _ _ _ entry freed
    have same : (wheel.over links).step (.call (.del t)) = some (wheel.over links) := if_neg passive
    exact Option.some.inj (stepped.symm.trans same)

theorem mirrored_init (terms : Terms) {poolsize : Nat} (bounded : poolsize ≤ objectPoolMax) :
    Mirrored terms (.init terms.ticktime poolsize Links.new) := by
  refine ⟨fun _ => false, .init terms.ticktime poolsize Sequences.new, Links.new, rfl, Steady.init terms poolsize,
    .of_woven (Woven.init _ bounded) (by simp [Wheel.init]), rfl, ⟨List.suffix_rfl, nofun⟩⟩

/-- A tick that finds its slot empty, not at the end of a lap. -/
theorem idle_tick (tick : Nat) {script : Nat → HandlerOutcome}
    (slot : (wheel.switchChangelist.loadTimers).map (fun loaded =>
      (loaded.lists (.near (loaded.tickcount % nearSlots)), loaded.tickcount)) = some ([], tick))
    (inside : (tick + 1) % nearSlots ≠ 0)
    (load : EachStep (fun wheel t => Wheel.loadTimer t wheel) LoadClean wheel.switchChangelist (wheel.lists (.change !wheel.frontidx))) :
    TickMeets terms script wheel ∧ TickClean script wheel := by
  have empty {loaded : Wheel Sequences} (loads : wheel.switchChangelist.loadTimers = some loaded) :
      loaded.lists (.near (loaded.tickcount % nearSlots)) = [] ∧ loaded.tickcount = tick := by
    rw [loads] at slot
    simpa using slot
  refine ⟨fun loaded loads => ?_, load, fun {loaded} loads => ?_, fun {loaded handled} loads handles lap => ?_⟩
  · rw [(empty loads).1]
    trivial
  · rw [(empty loads).1]
    trivial
  · rw [handleTimer_eq, (empty loads).1] at handles
    cases handles
    exact absurd ((empty loads).2 ▸ lap) inside

/-- So far only calls have been recorded. -/
theorem noneEnded_of_calls {timerid : Nat} (calls : wheel.log.all fun event => !event.isPlain) : wheel.NoneEnded timerid := by
  intro uid tick timeout nexttime repeats _ freed
  have told := List.all_eq_true.mp calls _ freed
  cases told

instance (wheel : Wheel Sequences) (name : ListName) : Decidable (wheel.Pending name) :=
  inferInstanceAs (Decidable (∃ t ∈ wheel.lists name, (wheel.nodes t).state = .del))

instance (wheel : Wheel Sequences) (t : Nat) : Decidable (LoadClean wheel t) :=
  inferInstanceAs (Decidable ((wheel.nodes t).state = .add → ¬ wheel.Pending (wheel.home t)))

def quietTick : WheelAction := .tick fun _ => ⟨[], true⟩

/-- The only timer is deleted right before its tick. -/
def cleanRun : List WheelAction :=
  [.call (.add everyTick), quietTick, .call (.del 0), quietTick]

end Proofs
end Cassobee
