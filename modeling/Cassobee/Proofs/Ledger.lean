import Cassobee.Proofs.Sequences
import Mathlib.Tactic.Ring

/-! What the log says about every timer that was ever accepted, against what its node holds. Each
firing adds the node's next time to the timer's schedule, so a schedule is read off the log alone. -/

namespace Cassobee

def TimerEvent.uid : TimerEvent → Nat
  | .accepted uid .. | .fired uid .. | .deleted uid | .freed uid => uid

/-- The ticks in which a timer's handler has run, the last one first. -/
def firings (uid : Nat) (log : List TimerEvent) : List Nat :=
  log.filterMap fun
    | .fired other tick _ => if other = uid then some tick else none
    | _ => none

def schedule (first period : Int) : Nat → List Int
  | 0 => []
  | times + 1 => (first + times * period) :: schedule first period times

def Fired (uid : Nat) (log : List TimerEvent) (timeout nexttime : Int) (times : Nat) : Prop :=
  (firings uid log).map Nat.cast = schedule nexttime timeout times

/-- A timer that is still there, after so many runs. -/
structure Running (log : List TimerEvent) (node : TimerNode) (timeout nexttime repeats : Int) (times : Nat) : Prop where
  live : node.state ≠ .none
  period : node.timeout = timeout
  due : node.nexttime = nexttime + times * timeout
  remaining : node.repeats = if 0 < repeats then repeats - times else repeats
  more : (0 < repeats → times < repeats) ∧ (repeats = 0 → times = 0)
  kept : .freed node.uid ∉ log
  willing (tick : Nat) : .fired node.uid tick false ∉ log
  deleted : .deleted node.uid ∈ log ↔ node.state = .del

structure Over (log : List TimerEvent) (uid : Nat) (repeats : Int) (times : Nat) : Prop where
  freed : log.count (.freed uid) = 1
  reason : (∃ tick, .fired uid tick false ∈ log) ∨ .deleted uid ∈ log ∨ 0 ≤ repeats ∧ times = max repeats 1

/-- After a timer has been deleted its handler does not run. -/
def Quiet (log : List TimerEvent) : Prop :=
  log.Pairwise fun newer older => ∀ uid tick result, newer = .fired uid tick result → older ≠ .deleted uid

/-- The length of a tick, what timers may be accepted with (in which tick, for which period and first
time), and whether they may be deleted. -/
structure Terms where
  ticktime : Int
  positive : 0 < ticktime
  accepts : Nat → Int → Int → Prop
  deletes : Prop

/-- Every run is before the tick `now`. -/
structure Ledger {S : Type} (terms : Terms) (now : Nat) (wheel : Wheel S) : Prop where
  running {t : Nat} (inside : t < wheel.cap) (live : (wheel.nodes t).state ≠ .none) :
    ∃ tick timeout nexttime repeats times,
      .accepted (wheel.nodes t).uid t tick timeout nexttime repeats ∈ wheel.log ∧
      Fired (wheel.nodes t).uid wheel.log timeout nexttime times ∧
      Running wheel.log (wheel.nodes t) timeout nexttime repeats times
  standing {uid t tick : Nat} {timeout nexttime repeats : Int}
    (entry : .accepted uid t tick timeout nexttime repeats ∈ wheel.log) :
    t < wheel.cap ∧ ((wheel.nodes t).state ≠ .none ∧ (wheel.nodes t).uid = uid ∨
      ∃ times, Fired uid wheel.log timeout nexttime times ∧ Over wheel.log uid repeats times)
  once {uid t t' tick tick' : Nat} {timeout timeout' nexttime nexttime' repeats repeats' : Int}
    (entry : .accepted uid t tick timeout nexttime repeats ∈ wheel.log)
    (other : .accepted uid t' tick' timeout' nexttime' repeats' ∈ wheel.log) :
    t = t' ∧ tick = tick' ∧ timeout = timeout' ∧ nexttime = nexttime' ∧ repeats = repeats'
  fresh {event : TimerEvent} (member : event ∈ wheel.log) : event.uid < wheel.accepted
  agreed {uid t tick : Nat} {timeout nexttime repeats : Int}
    (entry : .accepted uid t tick timeout nexttime repeats ∈ wheel.log) : terms.accepts tick timeout nexttime
  allowed {uid : Nat} (deleted : .deleted uid ∈ wheel.log) : terms.deletes
  past {uid tick : Nat} {result : Bool} (run : .fired uid tick result ∈ wheel.log) : tick < now
  quiet : Quiet wheel.log

namespace Proofs
variable {S : Type} {terms : Terms} {now : Nat} {wheel : Wheel S} {log : List TimerEvent}

theorem firings_other {event : TimerEvent} {uid : Nat} (other : event.uid ≠ uid) :
    firings uid (event :: log) = firings uid log := by
  cases event with
  | fired of tick result =>
    have different : of ≠ uid := other
    simp [firings, different]
  | accepted => rfl
  | deleted => rfl
  | freed => rfl

theorem firings_append_other {events : List TimerEvent} {uid : Nat} (other : ∀ event ∈ events, event.uid ≠ uid) :
    firings uid (events ++ log) = firings uid log := by
  induction events with
  | nil => rfl
  | cons event events ih =>
    rw [List.cons_append, firings_other (other event (.head _))]
    exact ih fun event member => other event (.tail _ member)

/-- Events of other timers say nothing about this one. -/
theorem mem_append_other {events : List TimerEvent} {event : TimerEvent}
    (other : ∀ new ∈ events, new.uid ≠ event.uid) : event ∈ events ++ log ↔ event ∈ log := by
  rw [List.mem_append]
  constructor
  · rintro (new | old)
    · exact absurd rfl (other event new)
    · exact old
  · exact .inr

theorem count_append_other {events : List TimerEvent} {event : TimerEvent}
    (other : ∀ new ∈ events, new.uid ≠ event.uid) : (events ++ log).count event = log.count event := by
  rw [List.count_append, List.count_eq_zero.mpr, Nat.zero_add]
  intro member
  exact absurd rfl (other event member)

end Proofs

section
open Proofs
variable {events log : List TimerEvent}

theorem Fired.append {uid : Nat} {timeout nexttime : Int} {times : Nat} (fired : Fired uid log timeout nexttime times)
    (other : ∀ new ∈ events, new.uid ≠ uid) : Fired uid (events ++ log) timeout nexttime times := by
  rw [Fired, firings_append_other other]
  exact fired

/-- A timer that is new to the log has not run. -/
theorem Fired.begun {node : TimerNode} {t tick : Nat} (unknown : ∀ event ∈ log, event.uid ≠ node.uid) :
    Fired node.uid (.accepted node.uid t tick node.timeout node.nexttime node.repeats :: log) node.timeout node.nexttime 0 := by
  have silent : firings node.uid log = [] := by
    simpa [firings] using @firings_append_other [] _ _ unknown
  rw [Fired, ← List.singleton_append, firings, List.filterMap_append]
  simpa [schedule, firings] using silent

theorem Running.begun {node : TimerNode} {t tick : Nat} (unknown : ∀ event ∈ log, event.uid ≠ node.uid)
    (waiting : node.state = .add) :
    Running (.accepted node.uid t tick node.timeout node.nexttime node.repeats :: log) node node.timeout node.nexttime
      node.repeats 0 where
  live := by simp [waiting]
  period := rfl
  due := by simp
  remaining := by simp
  more := by simp
  kept := by simpa using fun member => unknown _ member rfl
  willing tick := by simpa using fun member => unknown _ member rfl
  deleted := by simpa [waiting] using fun member => unknown _ member rfl

theorem Running.append {node : TimerNode} {timeout nexttime repeats : Int} {times : Nat}
    (record : Running log node timeout nexttime repeats times) (other : ∀ new ∈ events, new.uid ≠ node.uid) :
    Running (events ++ log) node timeout nexttime repeats times where
  live := record.live
  period := record.period
  due := record.due
  remaining := record.remaining
  more := record.more
  kept := by
    rw [mem_append_other other]
    exact record.kept
  willing tick := by
    rw [mem_append_other other]
    exact record.willing tick
  deleted := by
    rw [mem_append_other other]
    exact record.deleted

theorem Over.append {uid : Nat} {repeats : Int} {times : Nat} (record : Over log uid repeats times)
    (other : ∀ new ∈ events, new.uid ≠ uid) : Over (events ++ log) uid repeats times := by
  refine ⟨?_, ?_⟩
  · rw [count_append_other other]
    exact record.freed
  · rcases record.reason with ⟨tick, run⟩ | deleted | complete
    · exact .inl ⟨tick, List.mem_append_right _ run⟩
    · exact .inr (.inl (List.mem_append_right _ deleted))
    · exact .inr (.inr complete)

end

/-- A step in the life of the timer that the node `t` holds: the node is written once, and all events are the timer's. -/
structure LifeStep {S : Type} (terms : Terms) (later : Nat) (wheel wheel' : Wheel S) (t : Nat) (node : TimerNode)
    (events : List TimerEvent) : Prop where
  inside : t < wheel.cap
  live : (wheel.nodes t).state ≠ .none
  log : wheel'.log = events ++ wheel.log
  cap : wheel'.cap = wheel.cap
  accepted : wheel'.accepted = wheel.accepted
  nodes : wheel'.nodes = Function.update wheel.nodes t node
  holder : node.uid = (wheel.nodes t).uid
  mine : ∀ event ∈ events, event.uid = (wheel.nodes t).uid
  noEntry : ∀ event ∈ events, ∀ uid u tick timeout nexttime repeats, event ≠ .accepted uid u tick timeout nexttime repeats
  allowed : ∀ {uid}, .deleted uid ∈ events → terms.deletes
  runs : ∀ {uid tick result}, .fired uid tick result ∈ events → tick < later
  quiet : Quiet (events ++ wheel.log)
  next : ∀ {timeout nexttime repeats : Int} {times : Nat}, Fired (wheel.nodes t).uid wheel.log timeout nexttime times →
    Running wheel.log (wheel.nodes t) timeout nexttime repeats times →
    ∃ times', Fired (wheel.nodes t).uid (events ++ wheel.log) timeout nexttime times' ∧
      (Running (events ++ wheel.log) node timeout nexttime repeats times' ∨
        node.state = .none ∧ Over (events ++ wheel.log) (wheel.nodes t).uid repeats times')

namespace LifeStep
open Proofs
variable {S : Type} {terms : Terms} {later : Nat} {wheel wheel' : Wheel S} {t : Nat} {node : TimerNode} {events : List TimerEvent}

theorem here (step : LifeStep terms later wheel wheel' t node events) : wheel'.nodes t = node := by
  rw [step.nodes, Function.update_self]

theorem other (step : LifeStep terms later wheel wheel' t node events) {u : Nat} (different : u ≠ t) :
    wheel'.nodes u = wheel.nodes u := by
  rw [step.nodes, Function.update_of_ne different]

theorem oldEntry (step : LifeStep terms later wheel wheel' t node events) {uid u tick : Nat} {timeout nexttime repeats : Int}
    (entry : .accepted uid u tick timeout nexttime repeats ∈ events ++ wheel.log) :
    .accepted uid u tick timeout nexttime repeats ∈ wheel.log := by
  rcases List.mem_append.mp entry with new | old
  · exact absurd rfl (step.noEntry _ new _ _ _ _ _ _)
  · exact old

theorem foreign (step : LifeStep terms later wheel wheel' t node events) {uid : Nat} (other : uid ≠ (wheel.nodes t).uid) :
    ∀ new ∈ events, new.uid ≠ uid := by
  intro new member same
  exact other (same ▸ step.mine new member)

end LifeStep

namespace Ledger
open Proofs
variable {S : Type} {terms : Terms} {now later : Nat} {wheel wheel' : Wheel S} {t : Nat}

theorem mono (ledger : Ledger terms now wheel) (order : now ≤ later) : Ledger terms later wheel :=
  { ledger with past := fun run => (ledger.past run).trans_le order }

/-- The lists do not matter. -/
theorem transfer {S' : Type} {wheel' : Wheel S'} (ledger : Ledger terms now wheel) (nodes : wheel'.nodes = wheel.nodes)
    (log : wheel'.log = wheel.log) (cap : wheel'.cap = wheel.cap) (accepted : wheel'.accepted = wheel.accepted) :
    Ledger terms now wheel' := by
  cases wheel'
  cases nodes
  cases log
  cases cap
  cases accepted
  exact ⟨ledger.running, ledger.standing, ledger.once, ledger.fresh, ledger.agreed, ledger.allowed, ledger.past,
    ledger.quiet⟩

/-- Two nodes never hold the same timer. -/
theorem own (ledger : Ledger terms now wheel) {t t' : Nat} (inside : t < wheel.cap) (live : (wheel.nodes t).state ≠ .none)
    (inside' : t' < wheel.cap) (live' : (wheel.nodes t').state ≠ .none)
    (same : (wheel.nodes t).uid = (wheel.nodes t').uid) : t = t' := by
  obtain ⟨_, _, _, _, _, entry, -, -⟩ := ledger.running inside live
  obtain ⟨_, _, _, _, _, entry', -, -⟩ := ledger.running inside' live'
  rw [← same] at entry'
  exact (ledger.once entry entry').1

/-- The timer that a node holds goes on in its life. -/
theorem advance (ledger : Ledger terms now wheel) (order : now ≤ later) {node : TimerNode} {events : List TimerEvent}
    (step : LifeStep terms later wheel wheel' t node events) : Ledger terms later wheel' := by
  obtain ⟨tick, timeout, nexttime, repeats, times, entry, fired, record⟩ := ledger.running step.inside step.live
  obtain ⟨times', fired', result⟩ := step.next fired record
  refine ⟨?_, ?_, ?_, ?_, ?_, ?_, ?_, ?_⟩
  · intro u insideU liveU
    rw [step.log]
    rw [step.cap] at insideU
    by_cases same : u = t
    · subst same
      rcases result with running | ⟨gone, -⟩
      · rw [step.here, step.holder]
        exact ⟨tick, timeout, nexttime, repeats, times', List.mem_append_right _ entry, fired', running⟩
      · rw [step.here] at liveU
        exact absurd gone liveU
    · rw [step.other same] at liveU ⊢
      have other : (wheel.nodes u).uid ≠ (wheel.nodes t).uid :=
        fun equal => same (ledger.own insideU liveU step.inside step.live equal)
      obtain ⟨tick, timeout, nexttime, repeats, times, entry, fired, record⟩ := ledger.running insideU liveU
      exact ⟨tick, timeout, nexttime, repeats, times, List.mem_append_right _ entry, fired.append (step.foreign other),
        record.append (step.foreign other)⟩
  · intro uid u tick' timeout' nexttime' repeats' entry'
    rw [step.log] at entry' ⊢
    have old := step.oldEntry entry'
    obtain ⟨insideU, holds⟩ := ledger.standing old
    refine ⟨step.cap ▸ insideU, ?_⟩
    by_cases same : uid = (wheel.nodes t).uid
    · subst same
      obtain ⟨rfl, rfl, rfl, rfl, rfl⟩ := ledger.once entry old
      rcases result with running | ⟨-, ended⟩
      · rw [step.here]
        exact .inl ⟨running.live, step.holder⟩
      · exact .inr ⟨times', fired', ended⟩
    · rcases holds with ⟨liveU, uidU⟩ | ⟨times, fired, ended⟩
      · have different : u ≠ t := by
          rintro rfl
          exact same uidU.symm
        rw [step.other different]
        exact .inl ⟨liveU, uidU⟩
      · exact .inr ⟨times, fired.append (step.foreign same), ended.append (step.foreign same)⟩
  · intro _ _ _ _ _ _ _ _ _ _ _ one two
    rw [step.log] at one two
    exact ledger.once (step.oldEntry one) (step.oldEntry two)
  · intro event member
    rw [step.log] at member
    rw [step.accepted]
    rcases List.mem_append.mp member with new | old
    · rw [step.mine event new]
      exact ledger.fresh entry
    · exact ledger.fresh old
  · intro _ _ _ _ _ _ entry
    rw [step.log] at entry
    exact ledger.agreed (step.oldEntry entry)
  · intro _ deleted
    rw [step.log] at deleted
    rcases List.mem_append.mp deleted with new | old
    · exact step.allowed new
    · exact ledger.allowed old
  · intro _ _ _ run
    rw [step.log] at run
    rcases List.mem_append.mp run with new | old
    · exact step.runs new
    · exact (ledger.past old).trans_le order
  · rw [step.log]
    exact step.quiet

/-- A timer that was not deleted changes its place. -/
theorem settle (ledger : Ledger terms now wheel) (inside : t < wheel.cap) {state : TimerState}
    (live : (wheel.nodes t).state ≠ .none) (kept : (wheel.nodes t).state ≠ .del) (live' : state ≠ .none) (kept' : state ≠ .del)
    (log : wheel'.log = wheel.log) (cap : wheel'.cap = wheel.cap) (accepted : wheel'.accepted = wheel.accepted)
    (nodes : wheel'.nodes = Function.update wheel.nodes t { wheel.nodes t with state }) : Ledger terms now wheel' := by
  have step : LifeStep terms now wheel wheel' t { wheel.nodes t with state } [] := by
    refine {
      inside, live, log, cap, accepted, nodes
      holder := rfl
      mine := by simp
      noEntry := by simp
      allowed := by simp
      runs := by simp
      quiet := ledger.quiet
      next := ?_ }
    intro timeout nexttime repeats times fired record
    refine ⟨times, fired, .inl { record with live := live', deleted := ?_ }⟩
    have notDeleted := mt record.deleted.mp kept
    constructor
    · intro deleted
      exact absurd deleted notDeleted
    · intro deleted
      exact absurd deleted kept'
  exact ledger.advance le_rfl step

/-- `del_timer` on an active timer. -/
theorem delete (ledger : Ledger terms now wheel) (allowed : terms.deletes) (inside : t < wheel.cap) (active : (wheel.nodes t).state = .active)
    (log : wheel'.log = .deleted (wheel.nodes t).uid :: wheel.log) (cap : wheel'.cap = wheel.cap)
    (accepted : wheel'.accepted = wheel.accepted)
    (nodes : wheel'.nodes = Function.update wheel.nodes t { wheel.nodes t with state := .del }) :
    Ledger terms now wheel' := by
  have step : LifeStep terms now wheel wheel' t { wheel.nodes t with state := .del } [.deleted (wheel.nodes t).uid] := by
    refine {
      inside, log, cap, accepted, nodes
      live := by simp [active]
      holder := rfl
      mine := by simp [TimerEvent.uid]
      noEntry := by simp
      allowed := fun _ => allowed
      runs := by simp
      quiet := ?_
      next := ?_ }
    · refine List.pairwise_cons.mpr ⟨?_, ledger.quiet⟩
      simp
    · intro timeout nexttime repeats times fired record
      refine ⟨times, fired, .inl { record with live := by simp, kept := ?_, willing := ?_, deleted := by simp }⟩
      · simpa using record.kept
      · simpa using record.willing
  exact ledger.advance le_rfl step

/-- The handler of the timer is about to be recorded: it was not deleted. -/
theorem quiet_fired (ledger : Ledger terms now wheel) (inside : t < wheel.cap)
    (active : (wheel.nodes t).state = .active) {tick : Nat} {result : Bool} :
    Quiet (.fired (wheel.nodes t).uid tick result :: wheel.log) := by
  refine List.pairwise_cons.mpr ⟨?_, ledger.quiet⟩
  rintro older member _ _ _ ⟨⟩ rfl
  obtain ⟨_, _, _, _, _, -, -, record⟩ := ledger.running inside (by simp [active])
  have deleted := record.deleted.mp member
  simp [active] at deleted

private theorem fired_next (due : (wheel.nodes t).nexttime = (now : Int)) {timeout nexttime repeats : Int} {times : Nat}
    (result : Bool) (fired : Fired (wheel.nodes t).uid wheel.log timeout nexttime times)
    (record : Running wheel.log (wheel.nodes t) timeout nexttime repeats times) :
    Fired (wheel.nodes t).uid (.fired (wheel.nodes t).uid now result :: wheel.log) timeout nexttime (times + 1) := by
  have run : firings (wheel.nodes t).uid (.fired (wheel.nodes t).uid now result :: wheel.log) =
      now :: firings (wheel.nodes t).uid wheel.log := by simp [firings]
  rw [Fired, run, List.map_cons, schedule, ← record.due, due, fired]

/-- A run is the last one: the handler has returned false, or the runs are used up. -/
theorem finish (ledger : Ledger terms now wheel) (inside : t < wheel.cap) (active : (wheel.nodes t).state = .active)
    {tick : Nat} (due : (wheel.nodes t).nexttime = tick) (order : now ≤ later) (before : tick < later) (result : Bool)
    (last : result = true → (wheel.nodes t).counted.repeats = 0) {node : TimerNode}
    (log : wheel'.log = .freed (wheel.nodes t).uid :: .fired (wheel.nodes t).uid tick result :: wheel.log)
    (cap : wheel'.cap = wheel.cap) (accepted : wheel'.accepted = wheel.accepted)
    (nodes : wheel'.nodes = Function.update wheel.nodes t node) (holder : node.uid = (wheel.nodes t).uid)
    (gone : node.state = .none) : Ledger terms later wheel' := by
  have step : LifeStep terms later wheel wheel' t node
      [.freed (wheel.nodes t).uid, .fired (wheel.nodes t).uid tick result] := by
    refine {
      inside, log, cap, accepted, nodes, holder
      live := by simp [active]
      mine := by simp [TimerEvent.uid]
      noEntry := by simp
      allowed := by simp
      runs := ?_
      quiet := ?_
      next := ?_ }
    · simp only [List.mem_cons, reduceCtorEq, List.not_mem_nil, or_false, false_or, TimerEvent.fired.injEq]
      rintro _ _ _ ⟨-, rfl, -⟩
      exact before
    · refine List.pairwise_cons.mpr ⟨by simp, ?_⟩
      exact ledger.quiet_fired inside active
    · intro timeout nexttime repeats times fired record
      refine ⟨times + 1, fired_next due result fired record, .inr ⟨gone, ?_, ?_⟩⟩
      · simpa using List.count_eq_zero.mpr record.kept
      · cases result with
        | false => exact .inl ⟨tick, by simp⟩
        | true =>
          have used := last rfl
          rw [TimerNode.counted, record.remaining] at used
          obtain ⟨some, none⟩ := record.more
          refine .inr (.inr ?_)
          grind
  exact ledger.advance order step

/-- The handler has returned true, and the timer runs again. -/
theorem again (ledger : Ledger terms now wheel) (inside : t < wheel.cap) (active : (wheel.nodes t).state = .active)
    {tick : Nat} (due : (wheel.nodes t).nexttime = tick) (order : now ≤ later) (before : tick < later)
    (more : (wheel.nodes t).counted.repeats ≠ 0)
    (log : wheel'.log = .fired (wheel.nodes t).uid tick true :: wheel.log)
    (cap : wheel'.cap = wheel.cap) (accepted : wheel'.accepted = wheel.accepted)
    (nodes : wheel'.nodes = Function.update wheel.nodes t { (wheel.nodes t).again with state := .active }) :
    Ledger terms later wheel' := by
  have step : LifeStep terms later wheel wheel' t { (wheel.nodes t).again with state := .active }
      [.fired (wheel.nodes t).uid tick true] := by
    refine {
      inside, log, cap, accepted, nodes
      live := by simp [active]
      holder := rfl
      mine := by simp [TimerEvent.uid]
      noEntry := by simp
      allowed := by simp
      runs := ?_
      quiet := ledger.quiet_fired inside active
      next := ?_ }
    · simp only [List.mem_singleton, TimerEvent.fired.injEq]
      rintro _ _ _ ⟨-, rfl, -⟩
      exact before
    · intro timeout nexttime repeats times fired record
      refine ⟨times + 1, fired_next due true fired record, .inl ?_⟩
      have notDeleted := mt record.deleted.mp (by simp [active])
      rw [TimerNode.counted, record.remaining] at more
      obtain ⟨some, none⟩ := record.more
      refine ⟨by simp, record.period, ?_, ?_, ?_, ?_, ?_, ?_⟩
      · simp only [TimerNode.again, TimerNode.counted, record.due, record.period]
        push_cast
        ring
      · simp only [TimerNode.again, TimerNode.counted, record.remaining]
        grind
      · grind
      · simpa [TimerNode.again, TimerNode.counted] using record.kept
      · simpa [TimerNode.again, TimerNode.counted] using record.willing
      · simpa [TimerNode.again, TimerNode.counted] using notDeleted
  exact ledger.advance order step

/-- A deleted timer has been taken out of its list. -/
theorem remove (ledger : Ledger terms now wheel) (inside : t < wheel.cap) (deleted : (wheel.nodes t).state = .del)
    (log : wheel'.log = .freed (wheel.nodes t).uid :: wheel.log) (cap : wheel'.cap = wheel.cap)
    (accepted : wheel'.accepted = wheel.accepted)
    (nodes : wheel'.nodes = Function.update wheel.nodes t { wheel.nodes t with state := .none }) :
    Ledger terms now wheel' := by
  have step : LifeStep terms now wheel wheel' t { wheel.nodes t with state := .none } [.freed (wheel.nodes t).uid] := by
    refine {
      inside, log, cap, accepted, nodes
      live := by simp [deleted]
      holder := rfl
      mine := by simp [TimerEvent.uid]
      noEntry := by simp
      allowed := by simp
      runs := by simp
      quiet := ?_
      next := ?_ }
    · exact List.pairwise_cons.mpr ⟨by simp, ledger.quiet⟩
    · intro timeout nexttime repeats times fired record
      refine ⟨times, fired, .inr ⟨rfl, ?_, .inr (.inl ?_)⟩⟩
      · simpa using List.count_eq_zero.mpr record.kept
      · simpa using record.deleted.mpr deleted
  exact ledger.advance le_rfl step

/-- A new timer, in a node that was free. -/
theorem accept (ledger : Ledger terms now wheel) (inside : t < wheel.cap) (free : (wheel.nodes t).state = .none)
    {node : TimerNode} (holder : node.uid = wheel.accepted) (waiting : node.state = .add) {tick : Nat}
    (agreed : terms.accepts tick node.timeout node.nexttime)
    (log : wheel'.log = .accepted node.uid t tick node.timeout node.nexttime node.repeats :: wheel.log)
    (cap : wheel'.cap = wheel.cap) (accepted : wheel'.accepted = wheel.accepted + 1)
    (nodes : wheel'.nodes = Function.update wheel.nodes t node) : Ledger terms now wheel' := by
  have known event (member : event ∈ wheel.log) : event.uid ≠ node.uid := by
    have bound := ledger.fresh member
    omega
  have foreign {uid : Nat} (other : node.uid ≠ uid) :
      ∀ new ∈ [TimerEvent.accepted node.uid t tick node.timeout node.nexttime node.repeats], new.uid ≠ uid := by
    intro new member
    rw [List.mem_singleton.mp member]
    exact other
  refine ⟨?_, ?_, ?_, ?_, ?_, ?_, ?_, ?_⟩
  · intro u insideU liveU
    rw [log]
    rw [nodes] at liveU ⊢
    rw [cap] at insideU
    by_cases same : u = t
    · subst same
      rw [Function.update_self]
      exact ⟨tick, node.timeout, node.nexttime, node.repeats, 0, .head _, .begun known, .begun known waiting⟩
    · rw [Function.update_of_ne same] at liveU ⊢
      obtain ⟨tick, timeout, nexttime, repeats, times, entry, fired, record⟩ := ledger.running insideU liveU
      have other : node.uid ≠ (wheel.nodes u).uid := (known _ entry).symm
      exact ⟨tick, timeout, nexttime, repeats, times, .tail _ entry, fired.append (foreign other), record.append (foreign other)⟩
  · intro uid u tick' timeout' nexttime' repeats' entry'
    rw [log] at entry' ⊢
    rw [cap, nodes]
    cases entry' with
    | head =>
      refine ⟨inside, .inl ?_⟩
      rw [Function.update_self]
      exact ⟨by simp [waiting], rfl⟩
    | tail _ old =>
      obtain ⟨insideU, holds⟩ := ledger.standing old
      refine ⟨insideU, ?_⟩
      rcases holds with ⟨liveU, uidU⟩ | ⟨times, fired, ended⟩
      · have different : u ≠ t := by
          rintro rfl
          exact liveU free
        rw [Function.update_of_ne different]
        exact .inl ⟨liveU, uidU⟩
      · have other : node.uid ≠ uid := (known _ old).symm
        exact .inr ⟨times, fired.append (foreign other), ended.append (foreign other)⟩
  · intro uid u u' tick tick' timeout timeout' nexttime nexttime' repeats repeats' one two
    rw [log] at one two
    cases one with
    | head =>
      cases two with
      | head => simp
      | tail _ old => exact absurd rfl (known _ old)
    | tail _ old =>
      cases two with
      | head => exact absurd rfl (known _ old)
      | tail _ old' => exact ledger.once old old'
  · intro event member
    rw [log] at member
    rw [accepted]
    cases member with
    | head => simp [TimerEvent.uid, holder]
    | tail _ old => exact (ledger.fresh old).trans (Nat.lt_succ_self _)
  · intro uid u tick' timeout' nexttime' repeats' entry
    rw [log] at entry
    cases entry with
    | head => exact agreed
    | tail _ old => exact ledger.agreed old
  · intro uid deleted
    rw [log] at deleted
    cases deleted with
    | tail _ old => exact ledger.allowed old
  · intro uid tick' result run
    rw [log] at run
    cases run with
    | tail _ old => exact ledger.past old
  · rw [log]
    exact List.pairwise_cons.mpr ⟨by simp, ledger.quiet⟩

end Ledger
end Cassobee
