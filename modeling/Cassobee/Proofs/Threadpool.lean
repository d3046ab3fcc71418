import Cassobee.Threadpool
import Cassobee.Support.Apart
import Cassobee.Support.Run

/-! Where a task is between its acceptance and its end: in the queue of a group, in the queue of a
thread, with a worker, or run. -/

namespace Cassobee
open Support

/-- What `stop` may be relied on for when it returns. -/
structure Pool.Served (pool : Pool) : Prop where
  accepted : pool.stopping = .returned → ∀ task ∈ pool.accepted, pool.ran.count task = 1
  refused {task : Nat} (gone : task ∈ pool.refused) : task ∉ pool.ran

/-- The group that a worker is about to steal from. -/
def WorkerAt.victim : WorkerAt → Option Nat
  | .stealing (victim :: _) => some victim
  | _ => none

/-- The group whose threads `stop` waits for. -/
def StopAt.joined : StopAt → Option Nat
  | .joining group => some group
  | _ => none

/-- Essential tasks are added by workers, or after `stop` was called. No group that is deleted is added
to or stolen from, and one without threads is deleted only when its queue is empty. -/
def Pool.InOrder (setting : PoolSetting) (pool : Pool) : ThreadpoolAction → Prop
  | .addTask _ => True
  | .push task group => (task, group) ∈ pool.adding → pool.deleted group = false
  | .addEssential (.worker _ _) => True
  | .addEssential (.other _) => pool.stop = true
  | .work group idx _ _ => ∀ victim ∈ (pool.worker (group, idx)).victim, pool.deleted victim = false
  | .stop => ∀ group ∈ pool.stopping.joined, setting.threadcnt group = 0 → pool.queue group = []

instance (setting : PoolSetting) (pool : Pool) : ∀ action, Decidable (pool.InOrder setting action)
  | .addTask _ | .addEssential (.worker _ _) => isTrue trivial
  | .push task group => inferInstanceAs (Decidable ((task, group) ∈ pool.adding → pool.deleted group = false))
  | .addEssential (.other _) => inferInstanceAs (Decidable (pool.stop = true))
  | .work group idx _ _ =>
    inferInstanceAs (Decidable (∀ victim ∈ (pool.worker (group, idx)).victim, pool.deleted victim = false))
  | .stop => inferInstanceAs (Decidable (∀ group ∈ pool.stopping.joined, setting.threadcnt group = 0 → pool.queue group = []))

namespace Proofs

inductive TaskPlace where
  | queue (group : Nat)
  | essential (thread : TaskThread)
  | running (group idx : Nat)
  | ran
  | refused
  deriving DecidableEq

def runningTask : WorkerAt → List Nat
  | .running task => [task]
  | _ => []

def held (pool : Pool) : TaskPlace → List Nat
  | .queue group => pool.queue group
  | .essential thread => pool.essential thread
  | .running group idx => runningTask (pool.worker (group, idx))
  | .ran => pool.ran
  | .refused => pool.refused

/-- Every task is in one place, and one that was accepted is not refused. -/
structure Placed (pool : Pool) : Prop where
  apart : Apart (held pool)
  bound {place : TaskPlace} {task : Nat} (here : task ∈ held pool place) : task < pool.tasks
  adding {task group : Nat} (call : (task, group) ∈ pool.adding) : task < pool.tasks ∧ ∀ place, task ∉ held pool place
  calls : (pool.adding.map Prod.fst).Nodup
  accepted {task : Nat} (was : task ∈ pool.accepted) : ∃ place, place ≠ .refused ∧ task ∈ held pool place

/-- What has come to rest. -/
structure Winding (setting : PoolSetting) (pool : Pool) : Prop where
  exited {group idx : Nat} (out : pool.worker (group, idx) = .exited) :
    pool.groupStop group ∧ pool.queue group = [] ∧ pool.essential (.worker group idx) = []
  deleted {group : Nat} (gone : pool.deleted group) : pool.groupStop group ∧ pool.queue group = [] ∧
    ∀ idx < setting.threadcnt group, pool.worker (group, idx) = .exited
  stealing {group idx : Nat} {rest : List Nat} (about : pool.worker (group, idx) = .stealing rest) :
    pool.essential (.worker group idx) = []
  others (id : Nat) : pool.essential (.other id) = []
  absent {group idx : Nat} (none : setting.threadcnt group ≤ idx) :
    pool.worker (group, idx) = .ready ∧ pool.essential (.worker group idx) = []
  adding {task group : Nat} (call : (task, group) ∈ pool.adding) : group < setting.groups.length
  queue {group : Nat} (none : setting.groups.length ≤ group) : pool.queue group = []
  stopping : match pool.stopping with
    | .notCalled => True
    | .waiting group | .deleting group => ∀ before < group, pool.deleted before
    | .joining group => (∀ before < group, pool.deleted before) ∧ pool.groupStop group
    | .returned => ∀ group < setting.groups.length, pool.deleted group

theorem placed_initial : Placed .initial := by
  have nothing (place : TaskPlace) : held .initial place = [] := by cases place <;> rfl
  refine ⟨⟨fun place => ?_, fun one _ => ?_⟩, fun here => ?_, fun call => ?_, .nil, fun was => ?_⟩
  · rw [nothing]
    exact .nil
  · rw [nothing] at one
    cases one
  · rw [nothing] at here
    cases here
  · cases call
  · cases was

theorem winding_initial (setting : PoolSetting) : Winding setting .initial := by
  constructor <;> simp [Pool.initial]

section
variable {setting : PoolSetting} {pool : Pool}

theorem threadcnt_of_le {group : Nat} (none : setting.groups.length ≤ group) : setting.threadcnt group = 0 := by
  rw [PoolSetting.threadcnt, List.getElem?_eq_none none]
  rfl

/-- When `stop` has returned there is one place left for an accepted task. -/
theorem served (inv : Placed pool ∧ Winding setting pool) : pool.Served := by
  obtain ⟨placed, winding⟩ := inv
  refine ⟨fun returned task was => ?_, fun {task} gone again => ?_⟩
  · have stopping := winding.stopping
    rw [returned] at stopping
    have threads (group idx : Nat) : pool.worker (group, idx) = .exited ∨ setting.threadcnt group ≤ idx := by
      by_cases there : idx < setting.threadcnt group
      · have lt : group < setting.groups.length := by
          by_contra none
          rw [threadcnt_of_le (Nat.le_of_not_lt none)] at there
          cases there
        exact .inl ((winding.deleted (stopping group lt)).2.2 idx there)
      · exact .inr (Nat.le_of_not_lt there)
    obtain ⟨place, kept, here⟩ := placed.accepted was
    cases place with
    | queue group =>
      by_cases there : group < setting.groups.length
      · simp [held, (winding.deleted (stopping group there)).2.1] at here
      · simp [held, winding.queue (Nat.le_of_not_lt there)] at here
    | essential thread =>
      cases thread with
      | worker group idx =>
        rcases threads group idx with out | none
        · simp [held, (winding.exited out).2.2] at here
        · simp [held, (winding.absent none).2] at here
      | other id => simp [held, winding.others] at here
    | running group idx =>
      rcases threads group idx with out | none
      · simp [held, out, runningTask] at here
      · simp [held, (winding.absent none).1, runningTask] at here
    | ran => exact List.count_eq_one_of_mem (placed.apart.nodup .ran) here
    | refused => exact absurd rfl kept
  · cases placed.apart.only (show task ∈ held pool .refused from gone) (show task ∈ held pool .ran from again)

/-! Where the tasks are after a step. -/

namespace Placed
variable {pool' : Pool} {task : Nat}

theorem same (placed : Placed pool) (places : ∀ place, held pool' place = held pool place) (tasks : pool'.tasks = pool.tasks)
    (adding : pool'.adding = pool.adding) (accepted : pool'.accepted = pool.accepted) : Placed pool' := by
  obtain ⟨apart, bound, calling, calls, was⟩ := placed
  have every : held pool' = held pool := funext places
  constructor
  · rwa [every]
  · rwa [every, tasks]
  · rwa [every, tasks, adding]
  · rwa [adding]
  · rwa [every, accepted]

theorem move (placed : Placed pool) (source target : TaskPlace) (here : task ∈ held pool source) (different : source ≠ target)
    (left : held pool' source = (held pool source).erase task) (arrived : (held pool' target).Perm (task :: held pool target))
    (rest : ∀ place, place ≠ source → place ≠ target → held pool' place = held pool place) (kept : target ≠ .refused)
    (tasks : pool'.tasks = pool.tasks) (adding : pool'.adding = pool.adding) (accepted : pool'.accepted = pool.accepted) :
    Placed pool' := by
  have mem {place : TaskPlace} {other : Nat} := placed.apart.mem_moved here left arrived rest (i := place) (b := other)
  refine ⟨placed.apart.move here different left arrived rest, fun {place other} there => ?_, fun {other group} call => ?_,
    adding ▸ placed.calls, fun {other} was => ?_⟩
  · rw [tasks]
    rcases mem.mp there with ⟨-, before⟩ | ⟨rfl, -⟩
    · exact placed.bound before
    · exact placed.bound here
  · rw [adding] at call
    rw [tasks]
    refine ⟨(placed.adding call).1, fun place there => ?_⟩
    rcases mem.mp there with ⟨-, before⟩ | ⟨rfl, -⟩
    · exact (placed.adding call).2 place before
    · exact (placed.adding call).2 source here
  · rw [accepted] at was
    by_cases moved : other = task
    · exact ⟨target, kept, mem.mpr (.inr ⟨moved, rfl⟩)⟩
    · obtain ⟨place, fine, before⟩ := placed.accepted was
      exact ⟨place, fine, mem.mpr (.inl ⟨moved, before⟩)⟩

/-- A task comes to its first place. -/
theorem add (placed : Placed pool) (target : TaskPlace) (fresh : ∀ place, task ∉ held pool place)
    (arrived : (held pool' target).Perm (task :: held pool target))
    (rest : ∀ place, place ≠ target → held pool' place = held pool place) (lt : task < pool'.tasks)
    (tasks : pool.tasks ≤ pool'.tasks) (adding : pool'.adding.Sublist pool.adding)
    (finished : ∀ group, (task, group) ∉ pool'.adding)
    (accepted : ∀ other ∈ pool'.accepted, other ∈ pool.accepted ∨ other = task ∧ target ≠ .refused) : Placed pool' := by
  have mem {place : TaskPlace} {other : Nat} := Apart.mem_added arrived rest (i := place) (b := other)
  refine ⟨placed.apart.add fresh arrived rest, fun {place other} there => ?_, fun {other group} call => ?_,
    placed.calls.sublist (adding.map _), fun {other} was => ?_⟩
  · rcases mem.mp there with before | ⟨rfl, -⟩
    · exact Nat.lt_of_lt_of_le (placed.bound before) tasks
    · exact lt
  · obtain ⟨bound, nowhere⟩ := placed.adding (adding.subset call)
    refine ⟨Nat.lt_of_lt_of_le bound tasks, fun place there => ?_⟩
    rcases mem.mp there with before | ⟨rfl, -⟩
    · exact nowhere place before
    · exact finished group call
  · rcases accepted other was with before | ⟨rfl, kept⟩
    · obtain ⟨place, fine, there⟩ := placed.accepted before
      exact ⟨place, fine, mem.mpr (.inl there)⟩
    · exact ⟨target, kept, mem.mpr (.inr ⟨rfl, rfl⟩)⟩

theorem refuse (placed : Placed pool) {tasks : Nat} {adding : List (Nat × Nat)} (fresh : ∀ place, task ∉ held pool place)
    (lt : task < tasks) (le : pool.tasks ≤ tasks) (fewer : adding.Sublist pool.adding) (finished : ∀ group, (task, group) ∉ adding) :
    Placed (Pool.refuse { pool with tasks := tasks, adding := adding } task) := by
  refine placed.add .refused fresh (.refl _) (fun place other => ?_) lt le fewer finished fun other was => .inl was
  cases place with
  | refused => exact absurd rfl other
  | queue | essential | running | ran => rfl

theorem unnumbered (placed : Placed pool) (place : TaskPlace) : pool.tasks ∉ held pool place :=
  fun here => Nat.lt_irrefl _ (placed.bound here)

theorem uncalled (placed : Placed pool) (group : Nat) : (pool.tasks, group) ∉ pool.adding :=
  fun call => Nat.lt_irrefl _ (placed.adding call).1

end Placed

namespace Placed

theorem addTask (placed : Placed pool) (group : Nat) : Placed (pool.addTask setting group) := by
  unfold Pool.addTask
  split
  · dsimp only
    split
    · exact placed.refuse placed.unnumbered (Nat.lt_succ_self _) (Nat.le_succ _) (.refl _) placed.uncalled
    · refine ⟨placed.apart, fun here => Nat.lt_succ_of_lt (placed.bound here), fun {task other} call => ?_, ?_, placed.accepted⟩
      · rcases List.mem_cons.mp call with new | old
        · cases new
          exact ⟨Nat.lt_succ_self _, placed.unnumbered⟩
        · exact ⟨Nat.lt_succ_of_lt (placed.adding old).1, (placed.adding old).2⟩
      · refine List.nodup_cons.mpr ⟨fun member => ?_, placed.calls⟩
        obtain ⟨⟨task, other⟩, call, same⟩ := List.mem_map.mp member
        cases same
        exact placed.uncalled other call
  · exact placed

/-- A call of `add_task` is over once. -/
theorem called (placed : Placed pool) {task group : Nat} (call : (task, group) ∈ pool.adding) (other : Nat) :
    (task, other) ∉ pool.adding.erase (task, group) := by
  intro again
  have once := List.inj_on_of_nodup_map placed.calls (List.mem_of_mem_erase again) call rfl
  rw [once] at again
  exact (placed.calls.of_map _).not_mem_erase again

theorem push (placed : Placed pool) {pool' : Pool} {task group : Nat} (pushed : pool.push setting task group = some pool') :
    Placed pool' := by
  unfold Pool.push at pushed
  split at pushed
  · rename_i call
    obtain ⟨lt, fresh⟩ := placed.adding call
    have sublist : (pool.adding.erase (task, group)).Sublist pool.adding := List.erase_sublist
    have refused := placed.refuse fresh lt (Nat.le_refl _) sublist (placed.called call)
    dsimp only at pushed
    split at pushed
    · cases pushed
    · split at pushed
      · cases pushed
        exact refused
      · split at pushed
        · cases pushed
          exact refused
        · cases pushed
          refine placed.add (.queue group) fresh ?_ (fun place other => ?_) lt (Nat.le_refl _) sublist (placed.called call)
            fun other was => ?_
          · simp [held]
          · cases place with
            | queue there => exact Function.update_of_ne (fun same : there = group => other (congrArg _ same)) _ _
            | essential | running | ran | refused => rfl
          · rcases List.mem_cons.mp was with rfl | before
            · exact .inr ⟨rfl, nofun⟩
            · exact .inl before
  · cases pushed
    exact placed

theorem addEssential (placed : Placed pool) (thread : TaskThread) : Placed (pool.addEssential thread) := by
  unfold Pool.addEssential
  split
  · dsimp only
    split
    · exact placed.refuse placed.unnumbered (Nat.lt_succ_self _) (Nat.le_succ _) (.refl _) placed.uncalled
    · refine placed.add (.essential thread) placed.unnumbered ?_ (fun place other => ?_) (Nat.lt_succ_self _)
        (Nat.le_succ _) (.refl _) placed.uncalled fun other was => ?_
      · simp [held]
      · cases place with
        | essential there => exact Function.update_of_ne (fun same : there = thread => other (congrArg _ same)) _ _
        | queue | running | ran | refused => rfl
      · rcases List.mem_cons.mp was with rfl | before
        · exact .inr ⟨rfl, nofun⟩
        · exact .inl before
  · exact placed

end Placed

/-- The next task of a queue goes to a worker. -/
theorem Placed.start {pool' : Pool} (placed : Placed pool) (source : TaskPlace) {group idx task : Nat} {rest : List Nat}
    (front : held pool source = task :: rest) (idle : runningTask (pool.worker (group, idx)) = [])
    (left : held pool' source = rest) (running : held pool' (.running group idx) = [task])
    (others : ∀ place, place ≠ source → place ≠ .running group idx → held pool' place = held pool place)
    (tasks : pool'.tasks = pool.tasks) (adding : pool'.adding = pool.adding) (accepted : pool'.accepted = pool.accepted) :
    Placed pool' := by
  have different : source ≠ .running group idx := by
    rintro rfl
    cases idle.symm.trans front
  have here : task ∈ held pool source := by
    rw [front]
    exact List.mem_cons_self ..
  refine placed.move source (.running group idx) here different ?_ ?_ others nofun tasks adding accepted
  · rw [front, left, List.erase_cons_head]
  · rw [running, show held pool (.running group idx) = [] from idle]

theorem held_setWorker (pool : Pool) (group idx : Nat) {stage : WorkerAt}
    (same : runningTask stage = runningTask (pool.worker (group, idx))) (place : TaskPlace) :
    held (pool.setWorker group idx stage) place = held pool place := by
  cases place with
  | running group' idx' =>
    by_cases here : (group', idx') = (group, idx)
    · cases here
      simpa [held, Pool.setWorker] using same
    · exact congrArg runningTask (Function.update_of_ne here _ _)
  | queue | essential | ran | refused => rfl

theorem Placed.setWorker (placed : Placed pool) (group idx : Nat) {stage : WorkerAt}
    (same : runningTask stage = runningTask (pool.worker (group, idx))) : Placed (pool.setWorker group idx stage) :=
  placed.same (held_setWorker pool group idx same) rfl rfl rfl

/-- A task is taken out of a queue by a worker that has none. -/
theorem Placed.ofQueue (placed : Placed pool) {group idx victim task : Nat} {rest : List Nat}
    (front : pool.queue victim = task :: rest) (idle : runningTask (pool.worker (group, idx)) = []) :
    Placed ({ pool with queue := Function.update pool.queue victim rest }.setWorker group idx (.running task)) := by
  refine placed.start (.queue victim) front idle ?_ ?_ (fun place other different => ?_) rfl rfl rfl
  · simp [held, Pool.setWorker]
  · simp [held, Pool.setWorker, runningTask]
  · cases place with
    | queue there => exact Function.update_of_ne (fun same : there = victim => other (congrArg _ same)) _ _
    | running group' idx' =>
      refine congrArg runningTask (Function.update_of_ne (fun same => different ?_) _ _)
      cases same
      rfl
    | essential | ran | refused => rfl

theorem Placed.take (placed : Placed pool) {group idx : Nat} {otherwise : WorkerAt}
    (idle : runningTask (pool.worker (group, idx)) = []) (same : runningTask otherwise = []) :
    Placed (pool.take group idx otherwise) := by
  unfold Pool.take
  split
  · rename_i task rest front
    refine placed.start (.essential (.worker group idx)) front idle ?_ ?_ (fun place other different => ?_) rfl rfl rfl
    · simp [held, Pool.setWorker]
    · simp [held, Pool.setWorker, runningTask]
    · cases place with
      | essential thread => exact Function.update_of_ne (fun same : thread = _ => other (congrArg _ same)) _ _
      | running group' idx' =>
        refine congrArg runningTask (Function.update_of_ne (fun same => different ?_) _ _)
        cases same
        rfl
      | queue | ran | refused => rfl
  · split
    · rename_i front
      exact placed.ofQueue front idle
    · split
      · exact placed.setWorker group idx idle.symm
      · exact placed.setWorker group idx (same.trans idle.symm)

/-- The task of a worker is done. -/
theorem Placed.finish (placed : Placed pool) {group idx task : Nat} (running : pool.worker (group, idx) = .running task) :
    Placed ({ pool with ran := task :: pool.ran }.setWorker group idx .ready) := by
  have now : held pool (.running group idx) = [task] := by simp [held, running, runningTask]
  refine placed.move (.running group idx) .ran (now ▸ List.mem_singleton.mpr rfl) nofun ?_ (.refl _)
    (fun place other different => ?_) nofun rfl rfl rfl
  · rw [now]
    simp [held, Pool.setWorker, runningTask]
  · cases place with
    | running group' idx' =>
      refine congrArg runningTask (Function.update_of_ne (fun same => other ?_) _ _)
      cases same
      rfl
    | ran => exact absurd rfl different
    | queue | essential | refused => rfl

theorem Placed.stop (placed : Placed pool) : Placed (pool.stopStep setting) := by
  have unmoved {stop : Bool} {groupStop deleted : Nat → Bool} {stopping : StopAt} :
      Placed { pool with stop := stop, groupStop := groupStop, deleted := deleted, stopping := stopping } :=
    placed.same (fun place => by cases place <;> rfl) rfl rfl rfl
  unfold Pool.stopStep
  split
  · exact unmoved
  · split
    · split
      · exact unmoved
      · exact placed
    · exact unmoved
  · exact unmoved
  · split
    · exact unmoved
    · exact placed
  · exact placed

theorem Placed.work (placed : Placed pool) {pool' : Pool} {group idx offset : Nat} {owns : Bool}
    (worked : pool.work setting group idx offset owns = some pool') : Placed pool' := by
  unfold Pool.work at worked
  split at worked
  · split at worked
    · rename_i ready
      cases worked
      refine placed.take (by rw [ready]; rfl) ?_
      split <;> rfl
    · rename_i about
      cases worked
      exact placed.setWorker group idx (by rw [about]; rfl)
    · rename_i about
      have idle : runningTask (pool.worker (group, idx)) = [] := by rw [about]; rfl
      unfold Pool.trySteal at worked
      split at worked
      · cases worked
      · split at worked
        · split at worked
          · rename_i front
            cases worked
            exact placed.ofQueue front idle
          · cases worked
        · cases worked
          exact placed.setWorker group idx idle.symm
    · rename_i blocked
      cases worked
      exact placed.take (by rw [blocked]; rfl) rfl
    · rename_i running
      cases worked
      exact placed.finish running
    · cases worked
      exact placed
  · cases worked
    exact placed

theorem Placed.step (placed : Placed pool) {pool' : Pool} {action : ThreadpoolAction}
    (stepped : pool.step setting action = some pool') : Placed pool' := by
  cases action with
  | addTask group =>
    cases stepped
    exact placed.addTask group
  | push task group => exact placed.push stepped
  | addEssential thread =>
    cases stepped
    exact placed.addEssential thread
  | work group idx offset owns => exact placed.work stepped
  | stop =>
    cases stepped
    exact placed.stop

/-! What the steps do to what has come to rest. -/

namespace Winding

/-- A step of a worker that is not out of its loop. -/
theorem work {pool' : Pool} (winding : Winding setting pool) {group idx : Nat} {stage : WorkerAt}
    (lt : idx < setting.threadcnt group) (active : pool.worker (group, idx) ≠ .exited)
    (worker : pool'.worker = Function.update pool.worker (group, idx) stage)
    (queue : ∀ other, pool.queue other = [] → pool'.queue other = [])
    (essential : ∀ thread, pool.essential thread = [] → pool'.essential thread = [])
    (groupStop : pool'.groupStop = pool.groupStop) (deleted : pool'.deleted = pool.deleted)
    (adding : pool'.adding = pool.adding) (stopping : pool'.stopping = pool.stopping)
    (out : stage = .exited → pool.groupStop group ∧ pool.queue group = [] ∧ pool.essential (.worker group idx) = [])
    (about : ∀ rest, stage = .stealing rest → pool.essential (.worker group idx) = []) : Winding setting pool' := by
  obtain ⟨hexited, hdeleted, hstealing, hothers, habsent, hadding, hqueue, hstopping⟩ := winding
  constructor
  · intro group' idx' now
    rw [worker] at now
    have before : pool.groupStop group' ∧ pool.queue group' = [] ∧ pool.essential (.worker group' idx') = [] := by
      by_cases here : (group', idx') = (group, idx)
      · cases here
        exact out (by simpa using now)
      · rw [Function.update_of_ne here] at now
        exact hexited now
    exact ⟨groupStop ▸ before.1, queue _ before.2.1, essential _ before.2.2⟩
  · intro group' gone
    rw [deleted] at gone
    obtain ⟨stopped, empty, all⟩ := hdeleted gone
    refine ⟨groupStop ▸ stopped, queue _ empty, fun idx' bound => ?_⟩
    have here : (group', idx') ≠ (group, idx) := by
      intro same
      cases same
      exact active (all _ bound)
    rw [worker, Function.update_of_ne here]
    exact all idx' bound
  · intro group' idx' rest now
    rw [worker] at now
    apply essential _
    by_cases here : (group', idx') = (group, idx)
    · cases here
      exact about rest (by simpa using now)
    · rw [Function.update_of_ne here] at now
      exact hstealing now
  · exact fun id => essential _ (hothers id)
  · intro group' idx' none
    have here : (group', idx') ≠ (group, idx) := by
      intro same
      cases same
      exact absurd lt (Nat.not_lt.mpr none)
    rw [worker, Function.update_of_ne here]
    exact ⟨(habsent none).1, essential _ (habsent none).2⟩
  · rwa [adding]
  · exact fun none => queue _ (hqueue none)
  · rw [stopping, deleted, groupStop]
    exact hstopping

theorem setWorker (winding : Winding setting pool) {group idx : Nat} {stage : WorkerAt}
    (lt : idx < setting.threadcnt group) (active : pool.worker (group, idx) ≠ .exited)
    (out : stage = .exited → pool.groupStop group ∧ pool.queue group = [] ∧ pool.essential (.worker group idx) = [])
    (about : ∀ rest, stage = .stealing rest → pool.essential (.worker group idx) = []) :
    Winding setting (pool.setWorker group idx stage) :=
  winding.work lt active rfl (fun _ => id) (fun _ => id) rfl rfl rfl rfl out about

theorem ofQueue (winding : Winding setting pool) {group idx victim task : Nat} {rest : List Nat}
    (lt : idx < setting.threadcnt group) (active : pool.worker (group, idx) ≠ .exited)
    (front : pool.queue victim = task :: rest) :
    Winding setting ({ pool with queue := Function.update pool.queue victim rest }.setWorker group idx (.running task)) := by
  refine winding.work lt active rfl (fun other empty => ?_) (fun _ => id) rfl rfl rfl rfl nofun nofun
  have different : other ≠ victim := by
    rintro rfl
    cases empty.symm.trans front
  exact (Function.update_of_ne different _ _).trans empty

theorem take (winding : Winding setting pool) {group idx : Nat} {otherwise : WorkerAt} (lt : idx < setting.threadcnt group)
    (active : pool.worker (group, idx) ≠ .exited) (stays : otherwise ≠ .exited) :
    Winding setting (pool.take group idx otherwise) := by
  unfold Pool.take
  split
  · rename_i task rest front
    refine winding.work lt active rfl (fun _ => id) (fun thread empty => ?_) rfl rfl rfl rfl nofun nofun
    have different : thread ≠ .worker group idx := by
      rintro rfl
      cases empty.symm.trans front
    exact (Function.update_of_ne different _ _).trans empty
  · rename_i none
    split
    · rename_i front
      exact winding.ofQueue lt active front
    · rename_i empty
      split
      · rename_i stopped
        exact winding.setWorker lt active (fun _ => ⟨stopped, empty, none⟩) nofun
      · exact winding.setWorker lt active (fun same => absurd same stays) fun _ _ => none

theorem addTask (winding : Winding setting pool) (group : Nat) : Winding setting (pool.addTask setting group) := by
  obtain ⟨exited, deleted, stealing, others, absent, adding, queue, stopping⟩ := winding
  unfold Pool.addTask
  split
  · rename_i lt
    dsimp only
    split
    · exact ⟨exited, deleted, stealing, others, absent, adding, queue, stopping⟩
    · refine ⟨exited, deleted, stealing, others, absent, fun {task other} call => ?_, queue, stopping⟩
      rcases List.mem_cons.mp call with new | old
      · cases new
        exact lt
      · exact adding old
  · exact ⟨exited, deleted, stealing, others, absent, adding, queue, stopping⟩

theorem push {pool' : Pool} {task group : Nat} (winding : Winding setting pool)
    (pushed : pool.push setting task group = some pool') : Winding setting pool' := by
  obtain ⟨exited, deleted, stealing, others, absent, adding, queue, stopping⟩ := winding
  unfold Pool.push at pushed
  split at pushed
  · rename_i call
    have fewer {other at' : Nat} (left : (other, at') ∈ pool.adding.erase (task, group)) : at' < setting.groups.length :=
      adding (List.mem_of_mem_erase left)
    dsimp only at pushed
    split at pushed
    · cases pushed
    · split at pushed
      · cases pushed
        exact ⟨exited, deleted, stealing, others, absent, fewer, queue, stopping⟩
      · split at pushed
        · cases pushed
          exact ⟨exited, deleted, stealing, others, absent, fewer, queue, stopping⟩
        · rename_i running
          cases pushed
          -- a queue that has to stay empty is not the one that has grown
          have empty {other : Nat} (stopped : pool.groupStop other) :
              Function.update pool.queue group (pool.queue group ++ [task]) other = pool.queue other := by
            refine Function.update_of_ne ?_ _ _
            rintro rfl
            exact running stopped
          refine ⟨fun out => ?_, fun gone => ?_, stealing, others, absent, fewer, fun {other} none => ?_, stopping⟩
          · obtain ⟨stopped, before, own⟩ := exited out
            exact ⟨stopped, (empty stopped).trans before, own⟩
          · obtain ⟨stopped, before, all⟩ := deleted gone
            exact ⟨stopped, (empty stopped).trans before, all⟩
          · have different : other ≠ group := by
              rintro rfl
              exact absurd (adding call) (Nat.not_lt.mpr none)
            exact (Function.update_of_ne different _ _).trans (queue none)
  · cases pushed
    exact ⟨exited, deleted, stealing, others, absent, adding, queue, stopping⟩

theorem running_of_canCall {group idx : Nat} (can : pool.canCall (.worker group idx)) :
    ∃ task, pool.worker (group, idx) = .running task := by
  cases now : pool.worker (group, idx) with
  | running task => exact ⟨task, rfl⟩
  | ready | stealing | blocked | exited => simp [Pool.canCall, now] at can

/-- A worker that can call is in its loop. -/
theorem addEssential (winding : Winding setting pool) {thread : TaskThread}
    (inOrder : pool.InOrder setting (.addEssential thread)) : Winding setting (pool.addEssential thread) := by
  obtain ⟨exited, deleted, stealing, others, absent, adding, queue, stopping⟩ := winding
  unfold Pool.addEssential
  split
  · rename_i can
    dsimp only
    split
    · exact ⟨exited, deleted, stealing, others, absent, adding, queue, stopping⟩
    · rename_i open'
      cases thread with
      | other id => exact absurd inOrder open'
      | worker group idx =>
        have kept {group' idx' : Nat} (before : ∀ task, pool.worker (group', idx') ≠ .running task) :
            Function.update pool.essential (.worker group idx) (pool.essential (.worker group idx) ++ [pool.tasks])
              (.worker group' idx') = pool.essential (.worker group' idx') := by
          refine Function.update_of_ne (fun same => ?_) _ _
          cases same
          obtain ⟨task, running⟩ := running_of_canCall can
          exact before task running
        refine ⟨fun {group' idx'} (out : pool.worker (group', idx') = .exited) => ?_, deleted,
          fun {group' idx' rest} (about : pool.worker (group', idx') = .stealing rest) => ?_, fun id => ?_, fun none => ?_,
          adding, queue, stopping⟩
        · obtain ⟨stopped, empty, own⟩ := exited out
          exact ⟨stopped, empty, (kept fun task running => nomatch out.symm.trans running).trans own⟩
        · exact (kept fun task running => nomatch about.symm.trans running).trans (stealing about)
        · have different : TaskThread.other id ≠ .worker group idx := nofun
          simpa only [Function.update_of_ne different] using others id
        · obtain ⟨ready, own⟩ := absent none
          exact ⟨ready, (kept fun task running => nomatch ready.symm.trans running).trans own⟩
  · exact ⟨exited, deleted, stealing, others, absent, adding, queue, stopping⟩

theorem stop (winding : Winding setting pool) (inOrder : pool.InOrder setting .stop) :
    Winding setting (pool.stopStep setting) := by
  obtain ⟨exited, deleted, stealing, others, absent, adding, queue, stopping⟩ := winding
  unfold Pool.stopStep
  split
  · exact ⟨exited, deleted, stealing, others, absent, adding, queue, nofun⟩
  · rename_i group now
    rw [now] at stopping
    split
    · split
      · exact ⟨exited, deleted, stealing, others, absent, adding, queue, stopping⟩
      · exact ⟨exited, deleted, stealing, others, absent, adding, queue, by rwa [now]⟩
    · rename_i all
      refine ⟨exited, deleted, stealing, others, absent, adding, queue, fun other lt => ?_⟩
      exact stopping other (Nat.lt_of_lt_of_le lt (Nat.le_of_not_lt all))
  · rename_i group now
    rw [now] at stopping
    have stays {other : Nat} (stopped : pool.groupStop other) : Function.update pool.groupStop group true other := by
      by_cases same : other = group
      · simp [same]
      · rwa [Function.update_of_ne same]
    refine ⟨fun out => ?_, fun gone => ?_, stealing, others, absent, adding, queue, stopping, by simp⟩
    · obtain ⟨stopped, rest⟩ := exited out
      exact ⟨stays stopped, rest⟩
    · obtain ⟨stopped, rest⟩ := deleted gone
      exact ⟨stays stopped, rest⟩
  · rename_i group now
    rw [now] at stopping
    obtain ⟨before, stopped⟩ := stopping
    split
    · rename_i joined
      have empty : pool.queue group = [] := by
        by_cases threads : setting.threadcnt group = 0
        · exact inOrder group (by rw [now]; rfl) threads
        · exact (exited (joined 0 (Nat.pos_of_ne_zero threads))).2.1
      refine ⟨exited, fun {other} gone => ?_, stealing, others, absent, adding, queue, fun other lt => ?_⟩
      · by_cases same : other = group
        · subst same
          exact ⟨stopped, empty, joined⟩
        · exact deleted ((Function.update_of_ne same _ _).symm.trans gone)
      · by_cases same : other = group
        · simp [same]
        · exact (Function.update_of_ne same _ _).trans (before other (by omega))
    · exact ⟨exited, deleted, stealing, others, absent, adding, queue, by rw [now]; exact ⟨before, stopped⟩⟩
  · exact ⟨exited, deleted, stealing, others, absent, adding, queue, stopping⟩

end Winding

theorem pushStep {task group : Nat} (inOrder : pool.InOrder setting (.push task group)) :
    ∃ pool', pool.push setting task group = some pool' := by
  unfold Pool.push
  split
  · rename_i call
    simp only [inOrder call, Bool.false_eq_true, if_false]
    split
    · exact ⟨_, rfl⟩
    · split <;> exact ⟨_, rfl⟩
  · exact ⟨_, rfl⟩

theorem workStep (winding : Winding setting pool) {group idx offset : Nat} {owns : Bool}
    (inOrder : pool.InOrder setting (.work group idx offset owns)) :
    ∃ pool', pool.work setting group idx offset owns = some pool' ∧ Winding setting pool' := by
  unfold Pool.work
  split
  · rename_i lt
    split
    · rename_i ready
      refine ⟨_, rfl, winding.take lt (by simp [ready]) ?_⟩
      split <;> nofun
    · rename_i about
      exact ⟨_, rfl, winding.setWorker lt (by simp [about]) nofun nofun⟩
    · rename_i victim rest about
      have there : pool.deleted victim = false := inOrder victim (by rw [about]; rfl)
      have none := winding.stealing about
      simp only [Pool.trySteal, there, none, Bool.false_eq_true, if_false, ne_eq, not_true_eq_false, false_or]
      split
      · rename_i found
        split
        · rename_i front
          exact ⟨_, rfl, winding.ofQueue lt (by simp [about]) front⟩
        · rename_i empty
          exact absurd empty found.2
      · exact ⟨_, rfl, winding.setWorker lt (by simp [about]) nofun fun _ _ => none⟩
    · rename_i blocked
      exact ⟨_, rfl, winding.take lt (by simp [blocked]) nofun⟩
    · rename_i task running
      refine ⟨_, rfl, winding.work lt (by simp [running]) rfl ?_ ?_ rfl rfl rfl rfl nofun nofun⟩
      · exact fun _ => id
      · exact fun _ => id
    · exact ⟨_, rfl, winding⟩
  · exact ⟨_, rfl, winding⟩

theorem poolStep {action : ThreadpoolAction} (inv : Placed pool ∧ Winding setting pool) (inOrder : pool.InOrder setting action) :
    ∃ pool', pool.step setting action = some pool' ∧ Placed pool' ∧ Winding setting pool' := by
  obtain ⟨placed, winding⟩ := inv
  obtain ⟨pool', stepped, after⟩ : ∃ pool', pool.step setting action = some pool' ∧ Winding setting pool' := by
    cases action with
    | addTask group => exact ⟨_, rfl, winding.addTask group⟩
    | push task group =>
      obtain ⟨pool', pushed⟩ := pushStep inOrder
      exact ⟨pool', pushed, winding.push pushed⟩
    | addEssential thread => exact ⟨_, rfl, winding.addEssential inOrder⟩
    | work group idx offset owns => exact workStep winding inOrder
    | stop => exact ⟨_, rfl, winding.stop inOrder⟩
  exact ⟨pool', stepped, placed.step stepped, after⟩

end

theorem tasks_served_while_in_order (setting : PoolSetting) {actions : List ThreadpoolAction}
    (each : EachStep (Pool.step setting) (Pool.InOrder setting) .initial actions) :
    Throughout (Pool.step setting) Pool.Served .initial actions ∧ (actions.foldlM (Pool.step setting) .initial).isSome := by
  have start : Placed .initial ∧ Winding setting .initial := ⟨placed_initial, winding_initial setting⟩
  exact completes_of_eachStep served poolStep start each

/-- Two groups of one thread each. -/
def poolSetting : PoolSetting := ⟨[(1, 1), (1, 1)], true⟩

/-- The thread of the second group steals a task, which adds an essential one; then another is refused
because the queue is full, one because the pool is stopped, and `stop` returns. -/
def inOrderActions : List ThreadpoolAction :=
  [.addTask 0, .push 0 0, .addTask 0, .push 1 0, .work 1 0 0 true, .work 1 0 0 true, .addEssential (.worker 1 0),
    .work 1 0 0 true, .work 1 0 0 true, .work 1 0 0 true, .work 0 0 1 true, .work 0 0 0 false, .stop, .addTask 1, .stop, .stop,
    .work 0 0 0 true, .work 0 0 0 true, .stop, .stop, .stop, .work 1 0 1 true, .stop, .stop]

theorem tasks_served_of_three :
    Throughout (Pool.step poolSetting) Pool.Served .initial inOrderActions ∧
      (inOrderActions.foldlM (Pool.step poolSetting) .initial).isSome :=
  tasks_served_while_in_order poolSetting (by decide)

example : (inOrderActions.foldlM (Pool.step poolSetting) .initial).map
    (fun pool => (pool.stopping, pool.accepted, pool.refused, pool.ran)) = some (.returned, [2, 0], [3, 1], [2, 0]) := by
  decide

/-- An essential task that is not added by a worker stays in the queue of the thread that added it. -/
theorem essential_task_lost : ¬ Throughout (Pool.step ⟨[(10, 1)], false⟩) Pool.Served .initial
    [.addEssential (.other 1), .stop, .stop, .stop, .work 0 0 0 true, .stop, .stop] := by
  intro right
  obtain ⟨pool, computed, returned, accepted, ran⟩ : ∃ pool : Pool,
      [ThreadpoolAction.addEssential (.other 1), .stop, .stop, .stop, .work 0 0 0 true, .stop, .stop].foldlM
        (Pool.step ⟨[(10, 1)], false⟩) .initial = some pool ∧
      pool.stopping = .returned ∧ pool.accepted = [0] ∧ pool.ran = [] :=
    ⟨_, rfl, by decide, by decide, by decide⟩
  have once := (right.last computed).accepted returned 0 (accepted ▸ List.mem_singleton.mpr rfl)
  rw [ran] at once
  cases once

end Proofs
end Cassobee
