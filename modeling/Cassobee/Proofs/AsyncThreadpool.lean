import Cassobee.AsyncThreadpool
import Cassobee.Support.Run
import Mathlib.Algebra.GroupWithZero.Nat
import Mathlib.Data.List.Basic

/-! The tasks of an `async_threadpool` leave the queue in the order in which they were added, each of them runs
once, and `stop` comes back when all are over. A worker sleeps only while the others are enough for what is
queued, but for a `notify_one` that wakes somebody in `wait_for_all_done`. -/

namespace Cassobee
open Support
variable {τ : Type}

namespace AsyncWorker

def held : AsyncWorker τ → List τ
  | .taken task | .running task => [task]
  | _ => []

def isBusy : AsyncWorker τ → Bool
  | .running _ | .ended => true
  | _ => false

/-- The steps that a worker has before it if it finds no more tasks. -/
def left : AsyncWorker τ → Nat
  | .ready | .asleep => 1
  | .taken _ => 5
  | .running _ => 4
  | .ended => 3
  | .leaving => 2
  | .exited => 0

end AsyncWorker

namespace AsyncThreadpool

/-- Tasks start in the order in which they came; those that have started and are not over are with one worker
each. When `stop` has returned all are over. -/
structure Served (pool : AsyncThreadpool τ) : Prop where
  ordered : pool.accepted = pool.started ++ pool.tasks
  once : (pool.ran ++ pool.workers.flatMap (·.held)).Perm pool.started
  counted : pool.busy = pool.workers.countP (·.isBusy)
  drained (returned : pool.stopping = .returned) : pool.tasks = [] ∧ pool.ran.Perm pool.accepted

/-- The steps that the workers have before them once `stop` has been called. -/
def rank (pool : AsyncThreadpool τ) : Nat := 5 * pool.tasks.length + (pool.workers.map (·.left)).sum

def workSteps : AsyncThreadpoolAction τ → Nat
  | .work _ => 1
  | _ => 0

/-- While `stop` joins its threads no worker has to wait for another, each of their steps brings the end nearer and
nothing puts it off; and when all have left, `stop` returns. -/
structure StopEnds (threads : Nat) (pool : AsyncThreadpool τ) : Prop where
  goes {idx : Nat} {worker : AsyncWorker τ} (here : pool.workers[idx]? = some worker) (more : worker ≠ .exited) :
    (pool.work idx).isSome
  counts {action : AsyncThreadpoolAction τ} {next : AsyncThreadpool τ} (stepped : pool.step threads action = some next) :
    next.rank + workSteps action = pool.rank
  leaves (none : pool.rank = 0) {worker : AsyncWorker τ} (member : worker ∈ pool.workers) : worker = .exited
  returns {joined : Nat} (joining : pool.stopping = .joining joined) (all : ∀ worker ∈ pool.workers, worker = .exited) :
    ∃ final, (List.replicate (threads - joined + 1) .stop).foldlM (step threads) pool = some final ∧
      final.stopping = .returned

/-- A worker sleeps: then there are as many workers at the lock, and notifications on their way, as tasks. -/
def Covered (pool : AsyncThreadpool τ) : Prop :=
  .asleep ∈ pool.workers → pool.tasks.length ≤ pool.workers.countP (·.isReady) + pool.notifies

/-- No `notify_one` is lost to somebody who waits for the tasks to be over. -/
def WakesWorker (_ : AsyncThreadpool τ) : AsyncThreadpoolAction τ → Prop
  | .notifyOne (some (.caller _)) => False
  | _ => True

instance WakesWorker.decidable (pool : AsyncThreadpool τ) : ∀ action, Decidable (pool.WakesWorker action)
  | .notifyOne (some (.caller _)) => isFalse id
  | .notifyOne none | .notifyOne (some (.worker _)) | .init | .addTask _ | .wake _ | .work _ | .waitForAllDone _ | .resume _ |
    .timeout _ | .stop => isTrue trivial

/-- What is behind it: how far `stop` is, and who has left the loop. -/
structure Halting (threads : Nat) (pool : AsyncThreadpool τ) : Prop where
  stopped (called : pool.stopping ≠ .notCalled) : pool.stop = true
  exited (left : .exited ∈ pool.workers) : pool.stop = true ∧ pool.tasks = []
  joined {count : Nat} (joining : pool.stopping = .joining count) :
    count ≤ threads ∧ pool.workers.length = threads ∧ (∀ idx < count, pool.workers[idx]? = some .exited) ∧
      .asleep ∉ pool.workers
  size (signalling : pool.stopping = .signalling) : pool.workers.length = threads
  gone (returned : pool.stopping = .returned) : pool.workers = [] ∧ pool.tasks = []

variable {pool next : AsyncThreadpool τ} {threads idx : Nat} {old fresh : AsyncWorker τ} {workers : List (AsyncWorker τ)}

/-! ## What a step does -/

/-- The steps by what they do to the queue and the workers. Of the callers nothing else depends. -/
inductive Effect (threads : Nat) (pool : AsyncThreadpool τ) : AsyncThreadpoolAction τ → AsyncThreadpool τ → Prop where
  | callers {action : AsyncThreadpoolAction τ} (callers : List AsyncCaller) (idle : workSteps action = 0) :
    Effect threads pool action { pool with callers }
  | init (none : pool.workers = []) :
    Effect threads pool .init
      { pool with stop := false, workers := List.replicate threads .ready, stopping := .notCalled }
  | added (task : τ) (runs : pool.stop = false) :
    Effect threads pool (.addTask task)
      { pool with
        tasks := pool.tasks ++ [task]
        notifies := pool.notifies + 1
        accepted := pool.accepted ++ [task] }
  | nobody {notifies : Nat} (counted : pool.notifies = notifies + 1) (awake : .asleep ∉ pool.workers) :
    Effect threads pool (.notifyOne none) { pool with notifies }
  | misdirected {notifies : Nat} (id : Nat) (callers : List AsyncCaller) (counted : pool.notifies = notifies + 1) :
    Effect threads pool (.notifyOne (some (.caller id))) { pool with notifies, callers }
  | notified {notifies idx : Nat} (counted : pool.notifies = notifies + 1) (here : pool.workers[idx]? = some .asleep) :
    Effect threads pool (.notifyOne (some (.worker idx))) ({ pool with notifies }.setWorker idx .ready)
  | woken {idx : Nat} (here : pool.workers[idx]? = some .asleep) :
    Effect threads pool (.wake (.worker idx)) (pool.setWorker idx .ready)
  | takes {idx : Nat} {task : τ} {tasks : List τ} (here : pool.workers[idx]? = some .ready)
      (queued : pool.tasks = task :: tasks) :
    Effect threads pool (.work idx) ({ pool with tasks, started := pool.started ++ [task] }.setWorker idx (.taken task))
  | sleeps {idx : Nat} (here : pool.workers[idx]? = some .ready) (empty : pool.tasks = []) (runs : pool.stop = false) :
    Effect threads pool (.work idx) (pool.setWorker idx .asleep)
  | leaves {idx : Nat} (here : pool.workers[idx]? = some .ready) (empty : pool.tasks = []) (stopped : pool.stop = true) :
    Effect threads pool (.work idx) (pool.setWorker idx .exited)
  | begins {idx : Nat} {task : τ} (here : pool.workers[idx]? = some (.taken task)) :
    Effect threads pool (.work idx) ({ pool with busy := pool.busy + 1 }.setWorker idx (.running task))
  | ends {idx : Nat} {task : τ} (here : pool.workers[idx]? = some (.running task)) :
    Effect threads pool (.work idx) ({ pool with ran := pool.ran ++ [task] }.setWorker idx .ended)
  | uncounts {idx : Nat} (here : pool.workers[idx]? = some .ended) :
    Effect threads pool (.work idx) ({ pool with busy := pool.busy - 1 }.setWorker idx .leaving)
  | comesBack {idx : Nat} (here : pool.workers[idx]? = some .leaving) :
    Effect threads pool (.work idx) (pool.setWorker idx .ready)
  | tells {idx : Nat} (here : pool.workers[idx]? = some .leaving) :
    Effect threads pool (.work idx) (pool.setWorker idx .ready).notifyAll
  | stops (size : pool.workers.length = threads) :
    Effect threads pool .stop { pool with stop := true, stopping := .signalling }
  | signals (signalling : pool.stopping = .signalling) :
    Effect threads pool .stop { pool.notifyAll with stopping := .joining 0 }
  | joins {joined : Nat} (joining : pool.stopping = .joining joined) (more : joined < threads)
      (left : pool.workers[joined]? = some .exited) :
    Effect threads pool .stop { pool with stopping := .joining (joined + 1) }
  | returns {joined : Nat} (joining : pool.stopping = .joining joined) (all : ¬joined < threads) :
    Effect threads pool .stop { pool with workers := [], stopping := .returned }

theorem work_effect (worked : pool.work idx = some next) : Effect threads pool (.work idx) next := by
  unfold work at worked
  split at worked
  next here =>
    cases worked
    unfold take
    split
    next queued => exact .takes here queued
    next empty =>
      cases stopped : pool.stop with
      | false => exact .sleeps here empty stopped
      | true => exact .leaves here empty stopped
  next here =>
    cases worked
    exact .begins here
  next here =>
    cases worked
    exact .ends here
  next here =>
    cases worked
    exact .uncounts here
  next here =>
    cases worked
    split
    · exact .tells here
    · exact .comesBack here
  · cases worked

theorem notifyOne_effect {sleeper : Option AsyncSleeper} (notified : pool.notifyOne sleeper = some next) :
    Effect threads pool (.notifyOne sleeper) next := by
  unfold notifyOne at notified
  split at notified
  · cases notified
  next notifies counted =>
    simp only [Option.ite_none_right_eq_some, Option.some.injEq] at notified
    obtain ⟨nobody, rfl⟩ := notified
    apply Effect.nobody counted
    intro asleep
    simp only [nobodySleeps, Bool.and_eq_true, Bool.not_eq_true'] at nobody
    exact Bool.noConfusion ((List.any_eq_true.2 ⟨_, asleep, rfl⟩).symm.trans nobody.1)
  next notifies sleeper counted =>
    cases sleeper with
    | worker idx =>
      simp only [wake] at notified
      split at notified
      next here =>
        cases notified
        exact .notified counted here
      · cases notified
    | caller id =>
      simp only [wake] at notified
      split at notified
      · cases notified
        exact .misdirected id _ counted
      · cases notified

theorem stopStep_effect (stepped : pool.stopStep threads = some next) : Effect threads pool .stop next := by
  unfold stopStep at stepped
  split at stepped
  next =>
    simp only [Option.ite_none_right_eq_some, Option.some.injEq] at stepped
    obtain ⟨size, rfl⟩ := stepped
    exact .stops size
  next signalling =>
    cases stepped
    exact .signals signalling
  next joined joining =>
    split at stepped
    next more =>
      split at stepped
      next left =>
        cases stepped
        exact .joins joining more left
      · cases stepped
    next all =>
      cases stepped
      exact .returns joining all
  · cases stepped

theorem effect_of_step {action : AsyncThreadpoolAction τ} (stepped : pool.step threads action = some next) :
    Effect threads pool action next := by
  cases action with
  | init =>
    simp only [step, Option.ite_none_right_eq_some, Option.some.injEq] at stepped
    obtain ⟨⟨none, -⟩, rfl⟩ := stepped
    exact .init none
  | addTask task =>
    cases stepped
    split
    · exact .callers _ rfl
    next runs => exact .added task (Bool.eq_false_iff.2 runs)
  | notifyOne sleeper => exact notifyOne_effect stepped
  | wake sleeper =>
    simp only [step, wake] at stepped
    split at stepped <;> split at stepped
    next idx here =>
      cases stepped
      exact .woken here
    · cases stepped
    · cases stepped
      exact .callers _ rfl
    · cases stepped
  | work idx => exact work_effect stepped
  | waitForAllDone timed =>
    cases stepped
    exact .callers _ rfl
  | resume id =>
    simp only [step] at stepped
    split at stepped
    · cases stepped
      exact .callers _ rfl
    · cases stepped
  | timeout id =>
    simp only [step] at stepped
    split at stepped
    · cases stepped
      exact .callers _ rfl
    · cases stepped
  | stop => exact stopStep_effect stepped

/-! ## One worker changes -/

theorem split_set (here : workers[idx]? = some old) (fresh : AsyncWorker τ) :
    ∃ front back, workers = front ++ old :: back ∧ workers.set idx fresh = front ++ fresh :: back := by
  obtain ⟨inside, rfl⟩ := List.getElem?_eq_some_iff.1 here
  obtain ⟨front, back, whole, -, changed⟩ := @List.exists_of_set _ _ fresh _ inside
  exact ⟨front, back, whole, changed⟩

theorem held_set (here : workers[idx]? = some old) (fresh : AsyncWorker τ) :
    ((workers.set idx fresh).flatMap (·.held) ++ old.held).Perm (workers.flatMap (·.held) ++ fresh.held) := by
  obtain ⟨front, back, rfl, changed⟩ := split_set here fresh
  rw [changed]
  simp only [List.flatMap_append, List.flatMap_cons, List.append_assoc, List.perm_append_left_iff]
  apply List.perm_append_comm.trans
  rw [List.append_assoc]
  exact List.perm_append_comm_assoc ..

theorem count_set (here : workers[idx]? = some old) (fresh : AsyncWorker τ) (p : AsyncWorker τ → Bool) :
    (workers.set idx fresh).countP p + (if p old then 1 else 0) = workers.countP p + (if p fresh then 1 else 0) := by
  obtain ⟨front, back, rfl, changed⟩ := split_set here fresh
  rw [changed]
  simp only [List.countP_append, List.countP_cons]
  omega

theorem left_set (here : workers[idx]? = some old) (fresh : AsyncWorker τ) :
    ((workers.set idx fresh).map (·.left)).sum + old.left = (workers.map (·.left)).sum + fresh.left := by
  obtain ⟨front, back, rfl, changed⟩ := split_set here fresh
  rw [changed]
  simp only [List.map_append, List.map_cons, List.sum_append, List.sum_cons]
  omega

/-! ## All are roused -/

theorem held_rouse (workers : List (AsyncWorker τ)) : (workers.map (·.rouse)).flatMap (·.held) = workers.flatMap (·.held) := by
  rw [List.flatMap_map]
  congr 1
  funext worker
  cases worker <;> rfl

theorem count_rouse (workers : List (AsyncWorker τ)) {p : AsyncWorker τ → Bool} (same : p .asleep = p .ready) :
    (workers.map (·.rouse)).countP p = workers.countP p := by
  rw [List.countP_map]
  congr 1
  funext worker
  cases worker with
  | asleep => exact same.symm
  | _ => rfl

theorem left_rouse (workers : List (AsyncWorker τ)) :
    ((workers.map (·.rouse)).map (·.left)).sum = (workers.map (·.left)).sum := by
  rw [List.map_map]
  congr 2
  funext worker
  cases worker <;> rfl

theorem asleep_not_mem_rouse (workers : List (AsyncWorker τ)) : .asleep ∉ workers.map (·.rouse) := by
  intro member
  obtain ⟨worker, -, same⟩ := List.mem_map.1 member
  cases worker <;> cases same

theorem exited_mem_rouse : .exited ∈ workers.map (·.rouse) ↔ .exited ∈ workers := by
  constructor
  · intro member
    obtain ⟨worker, inside, same⟩ := List.mem_map.1 member
    cases worker <;> cases same
    exact inside
  · exact fun member => List.mem_map.2 ⟨_, member, rfl⟩

/-! ## How far `stop` is, and who has left -/

namespace Halting

theorem new : Halting threads (AsyncThreadpool.new : AsyncThreadpool τ) := by
  constructor <;> simp [AsyncThreadpool.new]

theorem frame (halting : Halting threads pool) (stop : next.stop = pool.stop) (tasks : next.tasks = pool.tasks)
    (workers : next.workers = pool.workers) (stopping : next.stopping = pool.stopping) : Halting threads next := by
  obtain ⟨stopped, exited, joined, size, gone⟩ := halting
  rw [← stop, ← stopping] at stopped
  rw [← stop, ← tasks, ← workers] at exited
  rw [← workers, ← stopping] at size
  rw [← tasks, ← workers, ← stopping] at gone
  exact ⟨stopped, exited, by rwa [stopping, workers], size, gone⟩

/-- A worker that has not left goes on, and sleeps only while `_stop` is not set. -/
theorem setWorker (halting : Halting threads pool) (here : pool.workers[idx]? = some old) (more : old ≠ .exited)
    (sleeps : fresh = .asleep → pool.stop = false) (leaves : fresh = .exited → pool.stop = true ∧ pool.tasks = []) :
    Halting threads (pool.setWorker idx fresh) := by
  constructor
  · exact halting.stopped
  · intro left
    rcases List.mem_or_eq_of_mem_set left with before | same
    · exact halting.exited before
    · exact leaves same.symm
  · intro count (joining : pool.stopping = .joining count)
    obtain ⟨enough, size, exited, awake⟩ := halting.joined joining
    refine ⟨enough, ?_, fun other below => ?_, fun asleep => ?_⟩
    · rw [← size]
      exact List.length_set
    · have different : idx ≠ other := by
        intro same
        subst same
        exact more (Option.some.inj (here.symm.trans (exited idx below)))
      exact (List.getElem?_set_ne different).trans (exited other below)
    · rcases List.mem_or_eq_of_mem_set asleep with before | same
      · exact awake before
      · have called := halting.stopped (by simp [joining])
        rw [sleeps same.symm] at called
        cases called
  · exact fun signalling => List.length_set.trans (halting.size signalling)
  · intro returned
    rw [(halting.gone returned).1] at here
    cases here

theorem notifyAll (halting : Halting threads pool) : Halting threads pool.notifyAll := by
  constructor
  · exact halting.stopped
  · exact fun left => halting.exited (exited_mem_rouse.1 left)
  · intro count joining
    obtain ⟨enough, size, exited, -⟩ := halting.joined joining
    refine ⟨enough, (List.length_map _).trans size, fun other below => ?_, asleep_not_mem_rouse _⟩
    exact (List.getElem?_map ..).trans (congrArg _ (exited other below))
  · exact fun signalling => (List.length_map _).trans (halting.size signalling)
  · intro returned
    obtain ⟨none, empty⟩ := halting.gone returned
    exact ⟨List.map_eq_nil_iff.2 none, empty⟩

theorem step {action : AsyncThreadpoolAction τ} (halting : Halting threads pool) (some_ : 0 < threads)
    (stepped : pool.step threads action = some next) : Halting threads next := by
  cases effect_of_step stepped with
  | callers | nobody | misdirected => exact halting.frame rfl rfl rfl rfl
  | init => constructor <;> simp
  | added task runs =>
    have notCalled : pool.stopping = .notCalled := by
      by_contra called
      exact Bool.noConfusion (runs.symm.trans (halting.stopped called))
    refine ⟨halting.stopped, fun left => ?_, halting.joined, halting.size, fun returned => ?_⟩
    · exact Bool.noConfusion (runs.symm.trans (halting.exited left).1)
    · cases notCalled.symm.trans returned
  | notified _ here | begins here | ends here | uncounts here =>
    exact Halting.setWorker (halting.frame rfl rfl rfl rfl) here (by simp) (by simp) (by simp)
  | takes here queued =>
    refine Halting.setWorker ⟨halting.stopped, fun left => ?_, halting.joined, halting.size, fun returned => ?_⟩ here (by simp)
      (by simp) (by simp)
    · cases queued.symm.trans (halting.exited left).2
    · cases queued.symm.trans (halting.gone returned).2
  | sleeps here empty runs => exact halting.setWorker here (by simp) (fun _ => runs) (by simp)
  | leaves here empty stopped => exact halting.setWorker here (by simp) (by simp) fun _ => ⟨stopped, empty⟩
  | woken here | comesBack here => exact halting.setWorker here (by simp) (by simp) (by simp)
  | tells here => exact (halting.setWorker here (by simp) (by simp) (by simp)).notifyAll
  | stops size => exact ⟨fun _ => rfl, fun left => ⟨rfl, (halting.exited left).2⟩, by simp, fun _ => size, by simp⟩
  | signals signalling =>
    have roused := halting.notifyAll
    refine ⟨fun _ => halting.stopped (by simp [signalling]), roused.exited, fun joining => ?_, by simp, by simp⟩
    cases joining
    exact ⟨Nat.zero_le _, (List.length_map _).trans (halting.size signalling), by simp, asleep_not_mem_rouse _⟩
  | joins joining more left =>
    obtain ⟨-, size, exited, awake⟩ := halting.joined joining
    refine ⟨fun _ => halting.stopped (by simp [joining]), halting.exited, fun after => ?_, by simp, by simp⟩
    cases after
    refine ⟨more, size, fun other below => ?_, awake⟩
    rcases Nat.lt_succ_iff_lt_or_eq.1 below with before | rfl
    · exact exited other before
    · exact left
  | returns joining all =>
    obtain ⟨-, -, exited, -⟩ := halting.joined joining
    have left : .exited ∈ pool.workers := List.mem_of_getElem? (exited 0 (by omega))
    exact ⟨fun _ => halting.stopped (by simp [joining]), by simp, by simp, by simp, fun _ => ⟨rfl, (halting.exited left).2⟩⟩

theorem all_left {joined : Nat} (halting : Halting threads pool) (joining : pool.stopping = .joining joined)
    (all : ¬joined < threads) {worker : AsyncWorker τ} (member : worker ∈ pool.workers) : worker = .exited := by
  obtain ⟨-, size, exited, -⟩ := halting.joined joining
  obtain ⟨idx, here⟩ := List.mem_iff_getElem?.1 member
  obtain ⟨inside, -⟩ := List.getElem?_eq_some_iff.1 here
  exact Option.some.inj (here.symm.trans (exited idx (by omega)))

end Halting

/-! ## What becomes of the tasks -/

theorem ordered_step {action : AsyncThreadpoolAction τ} (ordered : pool.accepted = pool.started ++ pool.tasks)
    (stepped : pool.step threads action = some next) : next.accepted = next.started ++ next.tasks := by
  cases effect_of_step stepped with
  | added task => exact (congrArg (· ++ [task]) ordered).trans (List.append_assoc ..)
  | takes _ queued =>
    rw [queued] at ordered
    exact ordered.trans (List.append_cons ..)
  | _ => exact ordered

theorem held_set_of_same (here : workers[idx]? = some old) (same : fresh.held = old.held) :
    ((workers.set idx fresh).flatMap (·.held)).Perm (workers.flatMap (·.held)) := by
  have changed := held_set here fresh
  rw [same] at changed
  exact (List.perm_append_right_iff _).1 changed

theorem once_step {action : AsyncThreadpoolAction τ} (halting : Halting threads pool)
    (once : (pool.ran ++ pool.workers.flatMap (·.held)).Perm pool.started)
    (stepped : pool.step threads action = some next) : (next.ran ++ next.workers.flatMap (·.held)).Perm next.started := by
  cases effect_of_step stepped with
  | callers | added | nobody | misdirected | stops | joins => exact once
  | init none =>
    have idle : (List.replicate threads AsyncWorker.ready).flatMap (fun worker : AsyncWorker τ => worker.held) = [] := by
      apply List.flatMap_eq_nil_iff.2
      intro worker member
      rw [List.eq_of_mem_replicate member]
      rfl
    rw [none] at once
    exact (List.Perm.of_eq (congrArg _ idle)).trans once
  | notified _ here | woken here | sleeps here | leaves here | begins here | uncounts here | comesBack here =>
    refine ((held_set_of_same here ?_).append_left _).trans once
    rfl
  | tells here =>
    refine ((List.Perm.of_eq (held_rouse _)).append_left _).trans ?_
    refine ((held_set_of_same here ?_).append_left _).trans once
    rfl
  | @takes _ task _ here =>
    have gained : (_ ++ []).Perm (_ ++ [task]) := held_set here (.taken task)
    rw [List.append_nil] at gained
    refine (gained.append_left _).trans ?_
    rw [← List.append_assoc]
    exact once.append_right _
  | @ends _ task here =>
    have lost : (_ ++ [task]).Perm (_ ++ []) := held_set here .ended
    rw [List.append_nil] at lost
    have regrouped := (List.perm_append_comm.trans lost).append_left pool.ran
    rw [← List.append_assoc] at regrouped
    exact regrouped.trans once
  | signals => exact ((List.Perm.of_eq (held_rouse _)).append_left _).trans once
  | returns joining all =>
    have none : pool.workers.flatMap (·.held) = [] := by
      apply List.flatMap_eq_nil_iff.2
      intro worker member
      rw [halting.all_left joining all member]
      rfl
    rwa [none] at once

theorem busy_set {busy more : Nat} (counted : busy = workers.countP (·.isBusy)) (here : workers[idx]? = some old)
    (balance : more + (if old.isBusy then 1 else 0) = busy + (if fresh.isBusy then 1 else 0)) :
    more = (workers.set idx fresh).countP (·.isBusy) := by
  have changed := count_set here fresh (·.isBusy)
  omega

theorem counted_step {action : AsyncThreadpoolAction τ} (halting : Halting threads pool)
    (counted : pool.busy = pool.workers.countP (·.isBusy)) (stepped : pool.step threads action = some next) :
    next.busy = next.workers.countP (·.isBusy) := by
  cases effect_of_step stepped with
  | callers | added | nobody | misdirected | stops | joins => exact counted
  | init none =>
    rw [none] at counted
    refine counted.trans (List.countP_eq_zero.2 fun worker member => ?_).symm
    rw [List.eq_of_mem_replicate member]
    exact Bool.false_ne_true
  | notified _ here | woken here | takes here | sleeps here | leaves here | begins here | ends here | comesBack here =>
    refine busy_set counted here ?_
    rfl
  | uncounts here =>
    have changed : _ + 1 = _ + 0 := count_set here .leaving (·.isBusy)
    exact (Nat.sub_eq_iff_eq_add (by omega)).2 (counted.trans changed.symm)
  | tells here =>
    have changed := count_set here .ready (·.isBusy)
    exact (counted.trans changed.symm).trans (count_rouse _ rfl).symm
  | signals => exact counted.trans (count_rouse _ rfl).symm
  | returns joining all =>
    refine counted.trans (List.countP_eq_zero.2 fun worker member => ?_)
    rw [halting.all_left joining all member]
    exact Bool.false_ne_true

namespace Served

theorem new : Served (AsyncThreadpool.new : AsyncThreadpool τ) := ⟨rfl, .refl _, rfl, by simp [AsyncThreadpool.new]⟩

theorem step {action : AsyncThreadpoolAction τ} (served : Served pool) (halting : Halting threads pool) (some_ : 0 < threads)
    (stepped : pool.step threads action = some next) : Served next := by
  have ordered := ordered_step served.ordered stepped
  have once := once_step halting served.once stepped
  refine ⟨ordered, once, counted_step halting served.counted stepped, fun returned => ?_⟩
  obtain ⟨none, empty⟩ := (halting.step some_ stepped).gone returned
  rw [none, List.flatMap_nil, List.append_nil] at once
  rw [empty, List.append_nil] at ordered
  exact ⟨empty, ordered ▸ once⟩

end Served

/-! ## The end of `stop` -/

theorem rank_of_set {fewer : Nat} (here : pool.workers[idx]? = some old) (changed : next.workers = pool.workers.set idx fresh)
    (balance : 5 * next.tasks.length + fresh.left + fewer = 5 * pool.tasks.length + old.left) :
    next.rank + fewer = pool.rank := by
  have sum := left_set here fresh
  unfold rank
  rw [changed]
  omega

theorem rank_notifyAll (pool : AsyncThreadpool τ) : pool.notifyAll.rank = pool.rank :=
  congrArg (5 * pool.tasks.length + ·) (left_rouse pool.workers)

namespace Halting
variable {joined : Nat}

theorem workers_ne_nil (halting : Halting threads pool) (some_ : 0 < threads) (joining : pool.stopping = .joining joined) :
    pool.workers ≠ [] := by
  obtain ⟨-, size, -⟩ := halting.joined joining
  intro none
  rw [none] at size
  exact Nat.ne_of_lt some_ size

theorem rank_returned (halting : Halting threads pool) (some_ : 0 < threads) (joining : pool.stopping = .joining joined)
    (all : ¬joined < threads) : pool.rank = 0 := by
  obtain ⟨-, -, exited, -⟩ := halting.joined joining
  obtain ⟨-, empty⟩ := halting.exited (List.mem_of_getElem? (exited 0 (by omega)))
  have none : (pool.workers.map (·.left)).sum = 0 := by
    apply List.sum_eq_zero_iff_forall_eq_nat.2
    intro count member
    obtain ⟨worker, inside, rfl⟩ := List.mem_map.1 member
    rw [halting.all_left joining all inside]
    rfl
  rw [rank, none, empty]
  rfl

theorem rank_step {action : AsyncThreadpoolAction τ} (halting : Halting threads pool) (some_ : 0 < threads)
    (joining : pool.stopping = .joining joined) (stepped : pool.step threads action = some next) :
    next.rank + workSteps action = pool.rank := by
  have stopped := halting.stopped (by simp [joining])
  cases effect_of_step stepped with
  | callers _ idle =>
    rw [idle]
    rfl
  | nobody | misdirected | stops | joins => rfl
  | init none => exact (halting.workers_ne_nil some_ joining none).elim
  | added _ runs | sleeps _ _ runs => cases runs.symm.trans stopped
  | notified _ here | woken here | leaves here | begins here | ends here | uncounts here | comesBack here =>
    exact rank_of_set here rfl rfl
  | @takes _ _ tasks here queued =>
    apply rank_of_set here rfl
    have longer : pool.tasks.length = tasks.length + 1 := congrArg List.length queued
    change 5 * tasks.length + 5 + 1 = 5 * pool.tasks.length + 1
    omega
  | tells here =>
    rw [rank_notifyAll]
    exact rank_of_set here rfl rfl
  | signals => exact rank_notifyAll pool
  | returns joining all =>
    have none := halting.rank_returned some_ joining all
    rw [none]
    unfold rank at none ⊢
    exact (Nat.add_eq_zero_iff.1 none).1

theorem goes {worker : AsyncWorker τ} (halting : Halting threads pool) (joining : pool.stopping = .joining joined)
    (here : pool.workers[idx]? = some worker) (more : worker ≠ .exited) : (pool.work idx).isSome := by
  unfold AsyncThreadpool.work
  rw [here]
  cases worker with
  | asleep =>
    obtain ⟨-, -, -, awake⟩ := halting.joined joining
    exact (awake (List.mem_of_getElem? here)).elim
  | exited => exact (more rfl).elim
  | _ => rfl

/-- One thread after the other is joined. -/
theorem joins {remaining : Nat} (size : pool.workers.length = joined + remaining)
    (all : ∀ worker ∈ pool.workers, worker = .exited) (joining : pool.stopping = .joining joined) :
    ∃ final, (List.replicate (remaining + 1) .stop).foldlM (AsyncThreadpool.step (joined + remaining)) pool = some final ∧
      final.stopping = .returned := by
  induction remaining generalizing pool joined with
  | zero =>
    refine ⟨{ pool with workers := [], stopping := .returned }, ?_, rfl⟩
    simp [AsyncThreadpool.step, AsyncThreadpool.stopStep, joining]
  | succ remaining ih =>
    have here : pool.workers[joined]? = some .exited := by
      have inside : joined < pool.workers.length := by omega
      rw [List.getElem?_eq_getElem inside, all _ (List.getElem_mem inside)]
    have stepped : pool.step (joined + (remaining + 1)) .stop = some { pool with stopping := .joining (joined + 1) } := by
      simp [AsyncThreadpool.step, AsyncThreadpool.stopStep, joining, here]
    have fewer : { pool with stopping := .joining (joined + 1) }.workers.length = joined + 1 + remaining :=
      size.trans (Nat.add_right_comm joined remaining 1)
    obtain ⟨final, rest, returned⟩ := ih fewer all rfl
    refine ⟨final, ?_, returned⟩
    rw [List.replicate_succ, List.foldlM_cons, stepped]
    rwa [Nat.add_right_comm, Nat.add_assoc] at rest

theorem stopEnds (halting : Halting threads pool) (some_ : 0 < threads) (joining : pool.stopping = .joining joined) :
    StopEnds threads pool := by
  constructor
  · exact halting.goes joining
  · exact halting.rank_step some_ joining
  · intro none worker member
    have zero := List.sum_eq_zero_iff_forall_eq_nat.1 (Nat.add_eq_zero_iff.1 none).2 _ (List.mem_map_of_mem member)
    cases worker <;> cases zero
    rfl
  · intro joined joining all
    obtain ⟨enough, size, -⟩ := halting.joined joining
    obtain ⟨remaining, rfl⟩ := Nat.exists_eq_add_of_le enough
    rw [Nat.add_sub_cancel_left]
    exact joins size all joining

end Halting

/-! ## Who sleeps while there are tasks -/

theorem Covered.of_set (covered : Covered pool) (here : pool.workers[idx]? = some old) (awake : fresh ≠ .asleep)
    (changed : next.workers = pool.workers.set idx fresh)
    (balance : next.tasks.length + pool.notifies + (if old.isReady then 1 else 0) ≤
      pool.tasks.length + next.notifies + (if fresh.isReady then 1 else 0)) : Covered next := by
  intro asleep
  have count := count_set here fresh (·.isReady)
  rw [changed] at asleep ⊢
  rcases List.mem_or_eq_of_mem_set asleep with before | same
  · have enough := covered before
    omega
  · exact (awake same.symm).elim

theorem Covered.step {action : AsyncThreadpoolAction τ} (covered : Covered pool) (wakes : WakesWorker pool action)
    (stepped : pool.step threads action = some next) : Covered next := by
  cases effect_of_step stepped with
  | callers | stops | joins => exact covered
  | misdirected => exact wakes.elim
  | init => exact fun asleep => by cases List.eq_of_mem_replicate asleep
  | added =>
    intro asleep
    have enough := covered asleep
    simp only [List.length_append, List.length_singleton]
    omega
  | nobody _ awake => exact fun asleep => (awake asleep).elim
  | notified counted here =>
    apply covered.of_set here (by simp) rfl
    simp only [setWorker, AsyncWorker.isReady, Bool.false_eq_true, if_true, if_false]
    omega
  | woken here | begins here | ends here | uncounts here | comesBack here =>
    apply covered.of_set here (by simp) rfl
    simp [setWorker, AsyncWorker.isReady]
  | takes here queued =>
    apply covered.of_set here (by simp) rfl
    simp only [setWorker, AsyncWorker.isReady, queued, List.length_cons, Bool.false_eq_true, if_true, if_false]
    omega
  | sleeps _ empty =>
    intro _
    simp [setWorker, empty]
  | leaves _ empty =>
    intro _
    simp [setWorker, empty]
  | tells | signals => exact fun asleep => (asleep_not_mem_rouse _ asleep).elim
  | returns => exact fun asleep => by cases asleep

end AsyncThreadpool

namespace Proofs
open AsyncThreadpool

/-- Whatever the callers of `add_task`, `wait_for_all_done` and `stop` do and whoever wakes up, the tasks are
started in their order, each is over once, and `stop` ends. -/
theorem async_tasks_served {threads : Nat} (some_ : 0 < threads) (actions : List (AsyncThreadpoolAction τ)) :
    Throughout (AsyncThreadpool.step threads)
      (fun pool => pool.Served ∧ ∀ joined, pool.stopping = .joining joined → pool.StopEnds threads) AsyncThreadpool.new
      actions := by
  refine @throughout_of_eachStep _ _ _ (fun pool => pool.Served ∧ pool.Halting threads) _ _ (fun kept => ?_)
    (fun kept _ stepped => ?_) _ _ ⟨.new, .new⟩ (eachStep_true _ actions)
  · obtain ⟨served, halting⟩ := kept
    exact ⟨served, fun _ joining => halting.stopEnds some_ joining⟩
  · obtain ⟨served, halting⟩ := kept
    exact ⟨served.step halting some_ stepped, halting.step some_ stepped⟩

/-- The second of two tasks is over first, and a third one comes too late. -/
def twoTasks : List (AsyncThreadpoolAction Nat) :=
  [.init, .work 0, .addTask 7, .notifyOne (some (.worker 0)), .work 0, .addTask 8, .notifyOne none, .work 1, .work 1, .work 1,
    .work 0, .stop, .addTask 9, .stop, .work 0, .work 0, .work 0, .work 0, .stop, .work 1, .work 1, .work 1, .stop, .stop]

theorem twoTasks_served :
    ∃ final, twoTasks.foldlM (AsyncThreadpool.step 2) AsyncThreadpool.new = some final ∧ final.stopping = .returned ∧
      final.ran = [8, 7] ∧ final.Served := by
  have computed : (twoTasks.foldlM (AsyncThreadpool.step 2) AsyncThreadpool.new).map (fun final =>
      (final.stopping, final.ran)) = some (.returned, [8, 7]) := by decide +kernel
  obtain ⟨final, ran, same⟩ := Option.map_eq_some_iff.1 computed
  obtain ⟨returned, order⟩ := Prod.mk.inj same
  have every := @async_tasks_served _ 2 (by decide) twoTasks
  exact ⟨final, ran, returned, order, (every.last ran).1⟩

/-- As long as no `notify_one` goes to `wait_for_all_done`, a worker that sleeps is not needed. -/
theorem async_workers_wake {threads : Nat} (actions : List (AsyncThreadpoolAction τ))
    (wake : EachStep (AsyncThreadpool.step threads) WakesWorker AsyncThreadpool.new actions) :
    Throughout (AsyncThreadpool.step threads) Covered AsyncThreadpool.new actions := by
  refine throughout_of_eachStep id (fun covered wakes stepped => covered.step wakes stepped) ?_ wake
  intro asleep
  cases asleep

/-- Two tasks for two workers that sleep, of whom one has been told. -/
def oneRoused : List (AsyncThreadpoolAction Nat) :=
  [.init, .work 0, .work 1, .addTask 7, .addTask 8, .notifyOne (some (.worker 0))]

theorem oneRoused_covered :
    ∃ final, oneRoused.foldlM (AsyncThreadpool.step 2) AsyncThreadpool.new = some final ∧ .asleep ∈ final.workers ∧
      final.tasks = [7, 8] ∧ final.Covered := by
  have computed : (oneRoused.foldlM (AsyncThreadpool.step 2) AsyncThreadpool.new).map (fun final =>
      (final.workers, final.tasks)) = some ([.ready, .asleep], [7, 8]) := by decide +kernel
  obtain ⟨final, ran, same⟩ := Option.map_eq_some_iff.1 computed
  obtain ⟨sleeper, queued⟩ := Prod.mk.inj same
  have every := @async_workers_wake _ 2 oneRoused (by decide +kernel)
  exact ⟨final, ran, by rw [sleeper]; decide, queued, every.last ran⟩

/-- The `notify_one` of `add_task` wakes a caller of `wait_for_all_done`, who finds the task and sleeps again. -/
def misdirected : List (AsyncThreadpoolAction Nat) :=
  [.init, .work 0, .work 1, .addTask 7, .waitForAllDone false, .notifyOne (some (.caller 0)), .resume 0]

/-- All sleep, with a task in the queue and no notification under way. -/
theorem misdirected_not_covered :
    ∃ final, misdirected.foldlM (AsyncThreadpool.step 2) AsyncThreadpool.new = some final ∧
      final.workers = [.asleep, .asleep] ∧ final.callers = [.asleep false] ∧ final.tasks = [7] ∧ ¬ final.Covered := by
  have computed : (misdirected.foldlM (AsyncThreadpool.step 2) AsyncThreadpool.new).map (fun final =>
      (final.workers, final.callers, final.tasks, final.notifies)) =
        some ([.asleep, .asleep], [.asleep false], [7], 0) := by decide +kernel
  obtain ⟨final, ran, same⟩ := Option.map_eq_some_iff.1 computed
  simp only [Prod.mk.injEq] at same
  obtain ⟨workers, callers, tasks, notifies⟩ := same
  refine ⟨final, ran, workers, callers, tasks, fun covered => ?_⟩
  have enough := covered (by rw [workers]; exact List.mem_cons_self ..)
  rw [workers, tasks, notifies] at enough
  exact absurd enough (by decide)

end Proofs
end Cassobee
