import Cassobee.Draining
import Cassobee.Proofs.Threadpool

/-! What a call of `wait_for_all_done` that returns true says about the tasks of its group. It looks at
queues, so a task that a worker has taken out of one and not finished is not seen. -/

namespace Cassobee
open Support

/-- When a call has returned, the tasks before it are done; and so are all tasks of a group that is freed. -/
structure Draining.Drained (draining : Draining) : Prop where
  returned {call : WaitCall} (ended : call ∈ draining.returned) {task : Nat} (was : task ∈ call.before) : task ∈ draining.pool.ran
  freed {task group : Nat} (home : (task, group) ∈ draining.homes) (gone : draining.pool.deleted group) : task ∈ draining.pool.ran

/-- No worker is in the middle of one of the tasks. -/
def Pool.NotRunning (setting : PoolSetting) (pool : Pool) (tasks : List Nat) : Prop :=
  ∀ task ∈ tasks, ∀ group < setting.groups.length, ∀ idx < setting.threadcnt group, pool.worker (group, idx) ≠ .running task

/-- When a call returns true, no worker is in the middle of a task that came before it; when the threads of
a group are joined, none is in the middle of one of its tasks, and a group without threads has none left. -/
def Draining.Settled (setting : PoolSetting) (draining : Draining) : DrainingAction → Prop
  | .wake call => call ∈ draining.waiting → draining.pool.deleted call.group = false →
    draining.pool.hasTask call.thread call.group = false → draining.pool.NotRunning setting call.before
  | .pool .stop => match draining.pool.stopping with
    | .waiting group => group < setting.groups.length → draining.pool.hasTask (.other 0) group = false →
      draining.pool.NotRunning setting draining.stopBefore
    | .joining group => (∀ idx < setting.threadcnt group, draining.pool.worker (group, idx) = .exited) →
      (setting.threadcnt group = 0 → draining.pool.queue group = []) ∧
        draining.pool.NotRunning setting (acceptedBy draining.homes group)
    | _ => True
  | _ => True

namespace Proofs

theorem mem_acceptedBy {homes : List (Nat × Nat)} {task group : Nat} : task ∈ acceptedBy homes group ↔ (task, group) ∈ homes := by
  simp only [acceptedBy, List.mem_map, List.mem_filter, decide_eq_true_eq]
  constructor
  · rintro ⟨⟨other, home⟩, ⟨member, rfl⟩, rfl⟩
    exact member
  · intro member
    exact ⟨(task, group), ⟨member, rfl⟩, rfl⟩

/-! ## What the steps of the pool touch -/

section
variable {setting : PoolSetting} {pool pool' : Pool}

theorem hasTask_false {thread : TaskThread} {group : Nat} :
    pool.hasTask thread group = false ↔ pool.essential thread = [] ∧ pool.queue group = [] := by
  simp [Pool.hasTask]

/-- What a step of `stop` does. -/
theorem stopStep_cases (setting : PoolSetting) (pool : Pool) :
    (pool.stopping = .notCalled ∧ pool.stopStep setting = { pool with stop := true, stopping := .waiting 0 }) ∨
    (∃ group, pool.stopping = .waiting group ∧ group < setting.groups.length ∧ pool.hasTask (.other 0) group = false ∧
      pool.stopStep setting = { pool with stopping := .deleting group }) ∨
    (∃ group, pool.stopping = .waiting group ∧ pool.stopStep setting = { pool with stopping := .returned }) ∨
    (∃ group, pool.stopping = .deleting group ∧
      pool.stopStep setting = { pool with groupStop := Function.update pool.groupStop group true, stopping := .joining group }) ∨
    (∃ group, pool.stopping = .joining group ∧ (∀ idx < setting.threadcnt group, pool.worker (group, idx) = .exited) ∧
      pool.stopStep setting = { pool with deleted := Function.update pool.deleted group true, stopping := .waiting (group + 1) }) ∨
    pool.stopStep setting = pool := by
  unfold Pool.stopStep
  split
  next now => exact .inl ⟨now, rfl⟩
  next group now =>
    split
    next lt =>
      split
      next none => exact .inr (.inl ⟨group, now, lt, hasTask_false.2 none, rfl⟩)
      next => exact .inr (.inr (.inr (.inr (.inr rfl))))
    next => exact .inr (.inr (.inl ⟨group, now, rfl⟩))
  next group now => exact .inr (.inr (.inr (.inl ⟨group, now, rfl⟩)))
  next group now =>
    split
    next joined => exact .inr (.inr (.inr (.inr (.inl ⟨group, now, joined, rfl⟩))))
    next => exact .inr (.inr (.inr (.inr (.inr rfl))))
  next => exact .inr (.inr (.inr (.inr (.inr rfl))))

theorem stopStep_ran (setting : PoolSetting) (pool : Pool) : (pool.stopStep setting).ran = pool.ran := by
  rcases stopStep_cases setting pool with ⟨-, step⟩ | ⟨group, -, -, -, step⟩ | ⟨group, -, step⟩ | ⟨group, -, step⟩ |
    ⟨group, -, -, step⟩ | step <;> rw [step]

/-- `stop` goes on when it finds no task. -/
theorem stopStep_returns {group next : Nat} (now : pool.stopping = .waiting group)
    (later : (pool.stopStep setting).stopping = .deleting next) :
    group < setting.groups.length ∧ pool.hasTask (.other 0) group = false := by
  simp only [Pool.stopStep, now] at later
  split at later
  next lt =>
    split at later
    next none => exact ⟨lt, hasTask_false.2 none⟩
    next => cases now.symm.trans later
  next => cases later

/-- A group is freed when its threads are joined. -/
theorem stopStep_frees {group : Nat} (gone : (pool.stopStep setting).deleted group) :
    pool.deleted group ∨ pool.stopping = .joining group ∧ ∀ idx < setting.threadcnt group, pool.worker (group, idx) = .exited := by
  rcases stopStep_cases setting pool with ⟨-, step⟩ | ⟨other, -, -, -, step⟩ | ⟨other, -, step⟩ | ⟨other, -, step⟩ |
    ⟨other, now, joined, step⟩ | step
  · rw [step] at gone
    exact .inl gone
  · rw [step] at gone
    exact .inl gone
  · rw [step] at gone
    exact .inl gone
  · rw [step] at gone
    exact .inl gone
  · rw [step] at gone
    by_cases here : group = other
    · subst here
      exact .inr ⟨now, joined⟩
    · exact .inl ((Function.update_of_ne here _ _).symm.trans gone)
  · rw [step] at gone
    exact .inl gone

theorem addTask_fields (setting : PoolSetting) (pool : Pool) (group : Nat) :
    ∃ tasks adding refused, pool.addTask setting group = { pool with tasks, adding, refused } := by
  unfold Pool.addTask
  split
  · dsimp only
    split <;> exact ⟨_, _, _, rfl⟩
  · exact ⟨_, _, _, rfl⟩

theorem addEssential_fields (pool : Pool) (thread : TaskThread) :
    ∃ essential tasks accepted refused, pool.addEssential thread = { pool with essential, tasks, accepted, refused } := by
  unfold Pool.addEssential
  split
  · dsimp only
    split <;> exact ⟨_, _, _, _, rfl⟩
  · exact ⟨_, _, _, _, rfl⟩

theorem push_fields {task group : Nat} (pushed : pool.push setting task group = some pool') :
    ∃ queue adding accepted refused, pool' = { pool with queue, adding, accepted, refused } := by
  unfold Pool.push at pushed
  repeat' split at pushed
  all_goals cases pushed
  all_goals exact ⟨_, _, _, _, rfl⟩

theorem take_fields (pool : Pool) (group idx : Nat) (otherwise : WorkerAt) :
    ∃ queue essential worker, pool.take group idx otherwise = { pool with queue, essential, worker } := by
  unfold Pool.take
  repeat' split
  all_goals exact ⟨_, _, _, rfl⟩

theorem work_fields {group idx offset : Nat} {owns : Bool} (worked : pool.work setting group idx offset owns = some pool') :
    ∃ queue essential worker ran, pool' = { pool with queue, essential, worker, ran } ∧ pool.ran ⊆ ran := by
  have taken (otherwise : WorkerAt) : ∃ queue essential worker ran,
      pool.take group idx otherwise = { pool with queue, essential, worker, ran } ∧ pool.ran ⊆ ran := by
    obtain ⟨queue, essential, worker, same⟩ := take_fields pool group idx otherwise
    exact ⟨queue, essential, worker, pool.ran, same, fun _ => id⟩
  simp only [Pool.work, Pool.trySteal] at worked
  repeat' split at worked
  all_goals cases worked
  all_goals first
    | exact taken _
    | exact ⟨_, _, _, _, rfl, fun _ => id⟩
    | exact ⟨_, _, _, _, rfl, List.subset_cons_self _ _⟩

/-- Only `stop` deletes groups. -/
theorem step_of_not_stop {action : ThreadpoolAction} (other : action ≠ .stop) (stepped : pool.step setting action = some pool') :
    pool'.stopping = pool.stopping ∧ pool'.deleted = pool.deleted ∧ pool.ran ⊆ pool'.ran := by
  cases action with
  | addTask group =>
    obtain ⟨tasks, adding, refused, same⟩ := addTask_fields setting pool group
    cases stepped
    rw [same]
    exact ⟨rfl, rfl, fun _ => id⟩
  | push task group =>
    obtain ⟨queue, adding, accepted, refused, rfl⟩ := push_fields stepped
    exact ⟨rfl, rfl, fun _ => id⟩
  | addEssential thread =>
    obtain ⟨essential, tasks, accepted, refused, same⟩ := addEssential_fields pool thread
    cases stepped
    rw [same]
    exact ⟨rfl, rfl, fun _ => id⟩
  | work group idx offset owns =>
    obtain ⟨queue, essential, worker, ran, rfl, more⟩ := work_fields stepped
    exact ⟨rfl, rfl, more⟩
  | stop => exact absurd rfl other

end

/-! ## Where the tasks of a group are -/

/-- A task that a group has accepted is in its queue, with a worker, or done. -/
structure Homed (setting : PoolSetting) (pool : Pool) (homes : List (Nat × Nat)) : Prop where
  placed : Placed pool
  somewhere {task group : Nat} (home : (task, group) ∈ homes) :
    task ∈ pool.queue group ∨ (∃ worker, pool.worker worker = .running task) ∨ task ∈ pool.ran
  queued {task group : Nat} (member : task ∈ pool.queue group) : (task, group) ∈ homes
  absent {group idx : Nat} (none : setting.threadcnt group ≤ idx) : pool.worker (group, idx) = .ready
  exited {group idx : Nat} (out : pool.worker (group, idx) = .exited) : pool.groupStop group ∧ pool.queue group = []

theorem homed_initial (setting : PoolSetting) : Homed setting .initial [] := by
  refine ⟨placed_initial, ?_, ?_, fun _ => rfl, ?_⟩ <;> simp [Pool.initial]

namespace Homed
variable {setting : PoolSetting} {pool pool' : Pool} {homes : List (Nat × Nat)}

/-- A step that touches no queue and no worker. -/
theorem same (homed : Homed setting pool homes) (placed : Placed pool') (queue : pool'.queue = pool.queue)
    (worker : pool'.worker = pool.worker) (ran : pool'.ran = pool.ran)
    (groupStop : ∀ group, pool.groupStop group → pool'.groupStop group) : Homed setting pool' homes := by
  obtain ⟨-, somewhere, queued, absent, exited⟩ := homed
  refine ⟨placed, ?_, ?_, ?_, fun {group idx} out => ?_⟩
  · rwa [queue, worker, ran]
  · rwa [queue]
  · rwa [worker]
  · rw [worker] at out
    rw [queue]
    exact ⟨groupStop group (exited out).1, (exited out).2⟩

/-- A step of one worker. What it was running it has done, and what is missing in a queue it runs now. -/
theorem work (homed : Homed setting pool homes) (placed : Placed pool') {group idx : Nat} {stage : WorkerAt}
    (lt : idx < setting.threadcnt group) (worker : pool'.worker = Function.update pool.worker (group, idx) stage)
    (groupStop : pool'.groupStop = pool.groupStop) (ran : pool.ran ⊆ pool'.ran)
    (finished : ∀ task, pool.worker (group, idx) = .running task → task ∈ pool'.ran)
    (fewer : ∀ other, pool'.queue other ⊆ pool.queue other)
    (taken : ∀ other, ∀ task ∈ pool.queue other, task ∈ pool'.queue other ∨ stage = .running task)
    (out : stage = .exited → pool.groupStop group ∧ pool.queue group = []) : Homed setting pool' homes := by
  have empty {other : Nat} (none : pool.queue other = []) : pool'.queue other = [] :=
    List.eq_nil_of_subset_nil (none ▸ fewer other)
  refine ⟨placed, fun {task other} home => ?_, fun member => homed.queued (fewer _ member), fun {group' idx'} none => ?_,
    fun {group' idx'} now => ?_⟩
  · rw [worker]
    rcases homed.somewhere home with here | ⟨holder, running⟩ | done
    · rcases taken other task here with still | now
      · exact .inl still
      · refine .inr (.inl ⟨(group, idx), ?_⟩)
        rw [Function.update_self, now]
    · by_cases same : holder = (group, idx)
      · subst same
        exact .inr (.inr (finished task running))
      · refine .inr (.inl ⟨holder, ?_⟩)
        rw [Function.update_of_ne same, running]
    · exact .inr (.inr (ran done))
  · have different : (group', idx') ≠ (group, idx) := by
      intro same
      cases same
      exact absurd lt (Nat.not_lt.mpr none)
    rw [worker, Function.update_of_ne different]
    exact homed.absent none
  · rw [worker] at now
    rw [groupStop]
    by_cases here : (group', idx') = (group, idx)
    · cases here
      rw [Function.update_self] at now
      exact ⟨(out now).1, empty (out now).2⟩
    · rw [Function.update_of_ne here] at now
      exact ⟨(homed.exited now).1, empty (homed.exited now).2⟩

theorem setWorker (homed : Homed setting pool homes) {group idx : Nat} {stage : WorkerAt}
    (placed : Placed (pool.setWorker group idx stage))
    (lt : idx < setting.threadcnt group) (idle : ∀ task, pool.worker (group, idx) ≠ .running task)
    (out : stage = .exited → pool.groupStop group ∧ pool.queue group = []) :
    Homed setting (pool.setWorker group idx stage) homes :=
  homed.work placed lt rfl rfl (fun _ => id) (fun task running => absurd running (idle task)) (fun _ _ => id) (fun _ _ => .inl) out

/-- A worker takes the first task of a queue. -/
theorem ofQueue (homed : Homed setting pool homes) {group idx victim task : Nat} {rest : List Nat}
    (placed : Placed ({ pool with queue := Function.update pool.queue victim rest }.setWorker group idx (.running task)))
    (lt : idx < setting.threadcnt group) (idle : ∀ task, pool.worker (group, idx) ≠ .running task)
    (front : pool.queue victim = task :: rest) :
    Homed setting ({ pool with queue := Function.update pool.queue victim rest }.setWorker group idx (.running task)) homes := by
  refine homed.work placed lt rfl rfl (fun _ => id) (fun other running => absurd running (idle other)) (fun other => ?_)
    (fun other task' member => ?_) nofun
  · intro task' member
    by_cases same : other = victim
    · subst same
      rw [front]
      simp only [Pool.setWorker, Function.update_self] at member
      exact .tail _ member
    · simpa only [Pool.setWorker, Function.update_of_ne same] using member
  · by_cases same : other = victim
    · subst same
      rw [front] at member
      rcases List.mem_cons.mp member with rfl | later
      · exact .inr rfl
      · left
        simpa only [Pool.setWorker, Function.update_self] using later
    · left
      simpa only [Pool.setWorker, Function.update_of_ne same] using member

theorem take (homed : Homed setting pool homes) {group idx : Nat} {otherwise : WorkerAt}
    (placed : Placed (pool.take group idx otherwise)) (lt : idx < setting.threadcnt group)
    (idle : ∀ task, pool.worker (group, idx) ≠ .running task) (stays : otherwise ≠ .exited) :
    Homed setting (pool.take group idx otherwise) homes := by
  unfold Pool.take at placed ⊢
  split
  next front =>
    rw [front] at placed
    exact homed.work placed lt rfl rfl (fun _ => id) (fun task running => absurd running (idle task)) (fun _ _ => id)
      (fun _ _ => .inl) nofun
  next none =>
    rw [none] at placed
    dsimp only at placed
    split
    next front =>
      rw [front] at placed
      exact homed.ofQueue placed lt idle front
    next empty =>
      rw [empty] at placed
      dsimp only at placed
      split
      next stopped =>
        rw [if_pos stopped] at placed
        exact homed.setWorker placed lt idle fun _ => ⟨stopped, empty⟩
      next going =>
        rw [if_neg going] at placed
        exact homed.setWorker placed lt idle fun same => absurd same stays

theorem workStep (homed : Homed setting pool homes) {group idx offset : Nat} {owns : Bool}
    (worked : pool.work setting group idx offset owns = some pool') : Homed setting pool' homes := by
  have placed := homed.placed.work worked
  unfold Pool.work at worked
  split at worked
  next lt =>
    split at worked
    next ready =>
      cases worked
      refine homed.take placed lt (by simp [ready]) ?_
      split <;> nofun
    next about =>
      cases worked
      exact homed.setWorker placed lt (by simp [about]) nofun
    next about =>
      unfold Pool.trySteal at worked
      split at worked
      next => cases worked
      next =>
        split at worked
        next =>
          split at worked
          next front =>
            cases worked
            exact homed.ofQueue placed lt (by simp [about]) front
          next => cases worked
        next =>
          cases worked
          exact homed.setWorker placed lt (by simp [about]) nofun
    next blocked =>
      cases worked
      exact homed.take placed lt (by simp [blocked]) nofun
    next task running =>
      cases worked
      refine homed.work placed lt rfl rfl (List.subset_cons_self _ _) (fun other now => ?_) (fun _ _ => id) (fun _ _ => .inl) nofun
      cases running.symm.trans now
      exact .head _
    next =>
      cases worked
      exact homed
  next =>
    cases worked
    exact homed

/-- A group that is not stopped gets a task. -/
theorem grow (homed : Homed setting pool homes) (placed : Placed pool') {task group : Nat} (going : ¬ pool.groupStop group)
    (queue : pool'.queue = Function.update pool.queue group (pool.queue group ++ [task])) (worker : pool'.worker = pool.worker)
    (ran : pool'.ran = pool.ran) (groupStop : pool'.groupStop = pool.groupStop) : Homed setting pool' ((task, group) :: homes) := by
  have here : pool'.queue group = pool.queue group ++ [task] := by rw [queue, Function.update_self]
  have elsewhere {other : Nat} (different : other ≠ group) : pool'.queue other = pool.queue other := by
    rw [queue, Function.update_of_ne different]
  refine ⟨placed, fun {other home} member => ?_, fun {other home} member => ?_, fun none => ?_, fun {home idx} out => ?_⟩
  · rw [worker, ran]
    rcases List.mem_cons.mp member with new | old
    · cases new
      left
      simp [here]
    · rcases homed.somewhere old with queued | rest
      · left
        by_cases same : home = group
        · subst same
          simp [here, queued]
        · rwa [elsewhere same]
      · exact .inr rest
  · by_cases same : home = group
    · subst same
      rw [here] at member
      rcases List.mem_append.mp member with old | new
      · exact .tail _ (homed.queued old)
      · cases List.mem_singleton.mp new
        exact .head _
    · rw [elsewhere same] at member
      exact .tail _ (homed.queued member)
  · rw [worker]
    exact homed.absent none
  · rw [worker] at out
    obtain ⟨stopped, empty⟩ := homed.exited out
    have different : home ≠ group := by
      rintro rfl
      exact going stopped
    rw [groupStop, elsewhere different]
    exact ⟨stopped, empty⟩

/-- An `add_task` of a group accepts its task, or leaves the queues as they are. -/
theorem push (homed : Homed setting pool homes) {task group : Nat} (pushed : pool.push setting task group = some pool') :
    (pool'.accepted = task :: pool.accepted ∧ pool.deleted group = false ∧ Homed setting pool' ((task, group) :: homes)) ∨
      pool'.accepted = pool.accepted ∧ Homed setting pool' homes := by
  have placed := homed.placed.push pushed
  unfold Pool.push at pushed
  split at pushed
  next =>
    dsimp only at pushed
    split at pushed
    next => cases pushed
    next there =>
      split at pushed
      next =>
        cases pushed
        exact .inr ⟨rfl, homed.same placed rfl rfl rfl fun _ => id⟩
      next =>
        split at pushed
        next =>
          cases pushed
          exact .inr ⟨rfl, homed.same placed rfl rfl rfl fun _ => id⟩
        next going =>
          cases pushed
          exact .inl ⟨rfl, by simpa using there, homed.grow placed going rfl rfl rfl rfl⟩
  next =>
    cases pushed
    exact .inr ⟨rfl, homed⟩

theorem addTask (homed : Homed setting pool homes) (group : Nat) : Homed setting (pool.addTask setting group) homes := by
  have placed : Placed (pool.addTask setting group) := homed.placed.addTask group
  obtain ⟨tasks, adding, refused, same⟩ := addTask_fields setting pool group
  rw [same] at placed ⊢
  exact homed.same placed rfl rfl rfl fun _ => id

theorem addEssential (homed : Homed setting pool homes) (thread : TaskThread) : Homed setting (pool.addEssential thread) homes := by
  have placed := homed.placed.addEssential thread
  obtain ⟨essential, tasks, accepted, refused, same⟩ := addEssential_fields pool thread
  rw [same] at placed ⊢
  exact homed.same placed rfl rfl rfl fun _ => id

theorem stop (homed : Homed setting pool homes) : Homed setting (pool.stopStep setting) homes := by
  have placed : Placed (pool.stopStep setting) := homed.placed.stop
  rcases stopStep_cases setting pool with ⟨-, step⟩ | ⟨group, -, -, -, step⟩ | ⟨group, -, step⟩ | ⟨group, -, step⟩ |
    ⟨group, -, -, step⟩ | step
  · rw [step] at placed ⊢
    exact homed.same placed rfl rfl rfl fun _ => id
  · rw [step] at placed ⊢
    exact homed.same placed rfl rfl rfl fun _ => id
  · rw [step] at placed ⊢
    exact homed.same placed rfl rfl rfl fun _ => id
  · rw [step] at placed ⊢
    refine homed.same placed rfl rfl rfl fun other stopped => ?_
    by_cases here : other = group
    · simp [here]
    · simpa only [Function.update_of_ne here] using stopped
  · rw [step] at placed ⊢
    exact homed.same placed rfl rfl rfl fun _ => id
  · rw [step] at placed ⊢
    exact homed

/-- A task that is in no queue and with no worker is done. -/
theorem ran_of_notRunning (homed : Homed setting pool homes) {task group : Nat} {tasks : List Nat} (home : (task, group) ∈ homes)
    (empty : pool.queue group = []) (free : pool.NotRunning setting tasks) (member : task ∈ tasks) : task ∈ pool.ran := by
  rcases homed.somewhere home with here | ⟨⟨holder, idx⟩, running⟩ | done
  · rw [empty] at here
    cases here
  · have lt : idx < setting.threadcnt holder := by
      by_contra none
      cases running.symm.trans (homed.absent (Nat.le_of_not_lt none))
    have inside : holder < setting.groups.length := by
      by_contra none
      rw [threadcnt_of_le (Nat.le_of_not_lt none)] at lt
      cases lt
    exact absurd running (free task member holder inside idx lt)
  · exact done

/-- A task that is done is with no worker. -/
theorem notRunning_of_ran (homed : Homed setting pool homes) {tasks : List Nat} (done : ∀ task ∈ tasks, task ∈ pool.ran) :
    pool.NotRunning setting tasks := by
  intro task member group _ idx _ running
  have here : task ∈ held pool (.running group idx) := by
    rw [held, running]
    exact .head _
  cases homed.placed.apart.only here (show task ∈ held pool .ran from done task member)

end Homed

/-! ## The calls -/

section
variable {setting : PoolSetting} {pool pool' : Pool} {draining after : Draining}

/-- What is known between the steps. -/
structure WaitsKnown (setting : PoolSetting) (draining : Draining) : Prop where
  homed : Homed setting draining.pool draining.homes
  waiting {call : WaitCall} (asks : call ∈ draining.waiting) {task : Nat} (was : task ∈ call.before) :
    (task, call.group) ∈ draining.homes
  stopping {group : Nat} (now : draining.pool.stopping = .waiting group) {task : Nat} (was : task ∈ draining.stopBefore) :
    (task, group) ∈ draining.homes
  drained : draining.Drained

theorem waitsKnown_initial (setting : PoolSetting) : WaitsKnown setting .initial := by
  refine ⟨homed_initial setting, ?_, ?_, ?_, ?_⟩ <;> simp [Draining.initial, Pool.initial]

/-- A step of the pool that is not one of `stop`. -/
theorem follow_of_same {action : ThreadpoolAction} (other : action ≠ .stop) (stepped : draining.pool.step setting action = some pool') :
    (draining.follow action pool').stopBefore = draining.stopBefore ∧ (draining.follow action pool').returned = draining.returned := by
  have same := (step_of_not_stop other stepped).1
  simp only [Draining.follow, same]
  constructor
  · split <;> simp_all
  · split <;> simp_all

/-- The tasks of the groups after a step that is not one of `stop`. -/
theorem Homed.follow (homed : Homed setting draining.pool draining.homes) {action : ThreadpoolAction} (other : action ≠ .stop)
    (stepped : draining.pool.step setting action = some pool') :
    Homed setting pool' (draining.follow action pool').homes ∧
      ((draining.follow action pool').homes = draining.homes ∨ ∃ task group, draining.pool.deleted group = false ∧
        (draining.follow action pool').homes = (task, group) :: draining.homes) := by
  cases action with
  | addTask group =>
    cases stepped
    exact ⟨homed.addTask group, .inl rfl⟩
  | push task group =>
    rcases homed.push stepped with ⟨accepted, there, homed⟩ | ⟨accepted, homed⟩
    · have grown : (draining.follow (.push task group) pool').homes = (task, group) :: draining.homes := by
        simp [Draining.follow, accepted]
      rw [grown]
      exact ⟨homed, .inr ⟨task, group, there, rfl⟩⟩
    · have same : (draining.follow (.push task group) pool').homes = draining.homes := by
        simp [Draining.follow, accepted]
      rw [same]
      exact ⟨homed, .inl rfl⟩
  | addEssential thread =>
    cases stepped
    exact ⟨homed.addEssential thread, .inl rfl⟩
  | work group idx offset owns => exact ⟨homed.workStep stepped, .inl rfl⟩
  | stop => exact absurd rfl other

theorem WaitsKnown.follow (known : WaitsKnown setting draining) {action : ThreadpoolAction} (other : action ≠ .stop)
    (stepped : draining.pool.step setting action = some pool') : WaitsKnown setting (draining.follow action pool') := by
  obtain ⟨stopping, deleted, ran⟩ := step_of_not_stop other stepped
  obtain ⟨stopBefore, returned⟩ := follow_of_same other stepped
  obtain ⟨homed, grown⟩ := known.homed.follow other stepped
  have old {home : Nat × Nat} (member : home ∈ draining.homes) : home ∈ (draining.follow action pool').homes := by
    rcases grown with same | ⟨task, group, -, more⟩
    · rwa [same]
    · rw [more]
      exact .tail _ member
  refine ⟨homed, fun asks task was => old (known.waiting asks was), fun {group} now task was => ?_, ⟨fun ended task was => ?_, ?_⟩⟩
  · rw [stopBefore] at was
    exact old (known.stopping (stopping.symm.trans now) was)
  · rw [returned] at ended
    exact ran (known.drained.returned ended was)
  · intro task group home gone
    have before : draining.pool.deleted group := (congrFun deleted group).symm.trans gone
    rcases grown with same | ⟨new, there, free, more⟩
    · rw [same] at home
      exact ran (known.drained.freed home before)
    · rw [more] at home
      rcases List.mem_cons.mp home with same | old
      · cases same
        rw [free] at before
        cases before
      · exact ran (known.drained.freed old before)

/-- What `stop` waits for has been accepted by the group that it waits for. -/
theorem WaitsKnown.stopBefore_home (known : WaitsKnown setting draining) {task group : Nat} (now : pool'.stopping = .waiting group)
    (was : task ∈ (draining.follow .stop pool').stopBefore) : (task, group) ∈ draining.homes := by
  simp only [Draining.follow, now] at was
  split at was
  next same => exact known.stopping same was
  next => exact mem_acceptedBy.1 was

theorem returned_of_follow {call : WaitCall} (ended : call ∈ (draining.follow .stop pool').returned) :
    call ∈ draining.returned ∨ ∃ group next, draining.pool.stopping = .waiting group ∧ pool'.stopping = .deleting next ∧
      call = ⟨.other 0, group, draining.stopBefore⟩ := by
  simp only [Draining.follow] at ended
  split at ended
  next group next now later =>
    rcases List.mem_cons.mp ended with new | old
    · exact .inr ⟨group, next, now, later, new⟩
    · exact .inl old
  next => exact .inl ended

theorem WaitsKnown.stop (known : WaitsKnown setting draining) (settled : draining.Settled setting (.pool .stop)) :
    WaitsKnown setting (draining.follow .stop (draining.pool.stopStep setting)) := by
  have ran {task : Nat} (done : task ∈ draining.pool.ran) : task ∈ (draining.pool.stopStep setting).ran := by
    rwa [stopStep_ran]
  refine ⟨known.homed.stop, known.waiting, fun now task was => known.stopBefore_home now was,
    ⟨fun {call} ended task was => ?_, fun {task group} home gone => ?_⟩⟩
  · apply ran
    rcases returned_of_follow ended with old | ⟨group, next, now, later, rfl⟩
    · exact known.drained.returned old was
    · obtain ⟨lt, nothing⟩ := stopStep_returns now later
      simp only [Draining.Settled, now] at settled
      exact known.homed.ran_of_notRunning (known.stopping now was) (hasTask_false.1 nothing).2 (settled lt nothing) was
  · apply ran
    rcases stopStep_frees gone with old | ⟨now, joined⟩
    · exact known.drained.freed home old
    · simp only [Draining.Settled, now] at settled
      obtain ⟨threadless, free⟩ := settled joined
      have empty : draining.pool.queue group = [] := by
        by_cases threads : setting.threadcnt group = 0
        · exact threadless threads
        · exact (known.homed.exited (joined 0 (Nat.pos_of_ne_zero threads))).2
      exact known.homed.ran_of_notRunning home empty free (mem_acceptedBy.2 home)

theorem WaitsKnown.wait (known : WaitsKnown setting draining) {thread : TaskThread} {group : Nat}
    (called : draining.wait setting thread group = some after) : WaitsKnown setting after := by
  unfold Draining.wait at called
  split at called
  next =>
    split at called
    next => cases called
    next =>
      cases called
      refine ⟨known.homed, fun {call} asks task was => ?_, known.stopping, ⟨known.drained.returned, known.drained.freed⟩⟩
      rcases List.mem_cons.mp asks with rfl | old
      · exact mem_acceptedBy.1 was
      · exact known.waiting old was
  next =>
    cases called
    exact known

theorem WaitsKnown.wake (known : WaitsKnown setting draining) {call : WaitCall} (settled : draining.Settled setting (.wake call))
    (woken : draining.wake call = some after) : WaitsKnown setting after := by
  unfold Draining.wake at woken
  split at woken
  next asks =>
    split at woken
    next => cases woken
    next there =>
      split at woken
      next =>
        cases woken
        exact known
      next nothing =>
        have empty : draining.pool.hasTask call.thread call.group = false := by simpa using nothing
        have free := settled asks (by simpa using there) empty
        cases woken
        refine ⟨known.homed, fun stays task was => known.waiting (List.mem_of_mem_erase stays) was, known.stopping,
          ⟨fun {other} ended task was => ?_, known.drained.freed⟩⟩
        rcases List.mem_cons.mp ended with rfl | old
        · exact known.homed.ran_of_notRunning (known.waiting asks was) (hasTask_false.1 empty).2 free was
        · exact known.drained.returned old was
  next =>
    cases woken
    exact known

theorem WaitsKnown.timeout (known : WaitsKnown setting draining) {call : WaitCall} (ended : draining.timeout call = some after) :
    WaitsKnown setting after := by
  unfold Draining.timeout at ended
  split at ended
  next =>
    split at ended
    next => cases ended
    next =>
      cases ended
      exact ⟨known.homed, fun stays task was => known.waiting (List.mem_of_mem_erase stays) was, known.stopping,
        ⟨known.drained.returned, known.drained.freed⟩⟩
  next =>
    cases ended
    exact known

theorem WaitsKnown.step {action : DrainingAction} (known : WaitsKnown setting draining) (settled : draining.Settled setting action)
    (stepped : draining.step setting action = some after) : WaitsKnown setting after := by
  cases action with
  | pool action =>
    obtain ⟨pool', computed, rfl⟩ := Option.map_eq_some_iff.mp stepped
    by_cases stops : action = .stop
    · subst stops
      cases computed
      exact known.stop settled
    · exact known.follow stops computed
  | wait thread group => exact known.wait stepped
  | wake call => exact known.wake settled stepped
  | timeout call => exact known.timeout stepped

/-- A step of `stop` after which all is as it should be. -/
theorem WaitsKnown.settled_stop (known : WaitsKnown setting draining)
    (drained : (draining.follow .stop (draining.pool.stopStep setting)).Drained) : draining.Settled setting (.pool .stop) := by
  rw [Draining.Settled]
  split
  next group now =>
    intro lt nothing
    have step : draining.pool.stopStep setting = { draining.pool with stopping := .deleting group } := by
      simp only [Pool.stopStep, now, if_pos lt, if_pos (hasTask_false.1 nothing)]
    rw [step] at drained
    have ended : (⟨.other 0, group, draining.stopBefore⟩ : WaitCall) ∈
        (draining.follow .stop { draining.pool with stopping := .deleting group }).returned := by
      simp [Draining.follow, now]
    exact known.homed.notRunning_of_ran fun task was => drained.returned ended was
  next group now =>
    intro joined
    have step : draining.pool.stopStep setting =
        { draining.pool with deleted := Function.update draining.pool.deleted group true, stopping := .waiting (group + 1) } := by
      simp only [Pool.stopStep, now, if_pos joined]
    rw [step] at drained
    have done {task : Nat} (home : (task, group) ∈ draining.homes) : task ∈ draining.pool.ran :=
      drained.freed home (Function.update_self ..)
    refine ⟨fun _ => ?_, known.homed.notRunning_of_ran fun task was => done (mem_acceptedBy.1 was)⟩
    apply List.eq_nil_iff_forall_not_mem.2
    intro task member
    have here : task ∈ held draining.pool (.queue group) := member
    cases known.homed.placed.apart.only here (show task ∈ held draining.pool .ran from done (known.homed.queued member))
  next => trivial

/-- A step after which all is as it should be meets the condition. -/
theorem WaitsKnown.settled {action : DrainingAction} (known : WaitsKnown setting draining)
    (every : ∀ after, draining.step setting action = some after → after.Drained) : draining.Settled setting action := by
  cases action with
  | wait | timeout => trivial
  | wake call =>
    intro asks there nothing
    have stepped : draining.step setting (.wake call) =
        some { draining with waiting := draining.waiting.erase call, returned := call :: draining.returned } := by
      simp only [Draining.step, Draining.wake, if_pos asks, there, nothing, Bool.false_eq_true, if_false]
    have drained := every _ stepped
    exact known.homed.notRunning_of_ran fun task was => drained.returned (.head _) was
  | pool action =>
    cases action with
    | addTask | push | addEssential | work => trivial
    | stop => exact known.settled_stop (every _ rfl)

end

/-- The calls and the groups are drained as they should be exactly if no worker is in the middle of one of the
tasks when a call returns, or the threads of a group are joined. -/
theorem drained_iff (setting : PoolSetting) (actions : List DrainingAction) :
    Throughout (Draining.step setting) Draining.Drained .initial actions ↔
      EachStep (Draining.step setting) (Draining.Settled setting) .initial actions :=
  throughout_iff_eachStep WaitsKnown.drained WaitsKnown.step WaitsKnown.settled (waitsKnown_initial setting)

/-- The worker has taken the only task and runs it when the call is made. -/
theorem running_task_missed : ¬ Throughout (Draining.step ⟨[(10, 1)], false⟩) Draining.Drained .initial
    [.pool (.addTask 0), .pool (.push 0 0), .pool (.work 0 0 0 true), .wait (.other 1) 0, .wake ⟨.other 1, 0, [0]⟩] := by
  intro right
  obtain ⟨draining, computed, returned, ran⟩ : ∃ draining : Draining,
      [DrainingAction.pool (.addTask 0), .pool (.push 0 0), .pool (.work 0 0 0 true), .wait (.other 1) 0,
        .wake ⟨.other 1, 0, [0]⟩].foldlM (Draining.step ⟨[(10, 1)], false⟩) .initial = some draining ∧
      ⟨.other 1, 0, [0]⟩ ∈ draining.returned ∧ draining.pool.ran = [] :=
    ⟨_, rfl, by decide, by decide⟩
  have done := (right.last computed).returned returned (.head _)
  rw [ran] at done
  cases done

end Proofs
end Cassobee
