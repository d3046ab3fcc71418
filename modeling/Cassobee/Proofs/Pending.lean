import Cassobee.Proofs.HttpClient

/-! When `advance_all` finds the tasks of the ids that it takes from `_connections.pending`. -/

namespace Cassobee
open Support

/-- Every id that is left in the queue has its task. -/
def HttpClient.Known (client : HttpClient) : Prop := ∀ taskid ∈ client.pending, (client.findTask taskid).isSome

def HttpClient.NoneOverdue (client : HttpClient) : Prop :=
  ∀ task ∈ client.tasks, task.taskid ∈ client.pending → client.clock < task.timeout

/-- No request that waits has reached its timeout, and a new one is given time. -/
def HttpClient.Punctual (setting : HttpClientSetting) (client : HttpClient) : HttpClientAction → Prop
  | .sendRequest timeout _ => client.NoneOverdue ∧ (0 < timeout ∨ 0 < setting.taskTimeout)
  | .advance _ => True
  | _ => client.NoneOverdue

instance (client : HttpClient) : Decidable client.NoneOverdue :=
  inferInstanceAs (Decidable (∀ task ∈ client.tasks, task.taskid ∈ client.pending → client.clock < task.timeout))

instance (setting : HttpClientSetting) (client : HttpClient) : ∀ action, Decidable (client.Punctual setting action)
  | .sendRequest timeout _ => inferInstanceAs (Decidable (client.NoneOverdue ∧ (0 < timeout ∨ 0 < setting.taskTimeout)))
  | .advance _ => isTrue trivial
  | .addSession _ | .delSession _ | .response .. => inferInstanceAs (Decidable client.NoneOverdue)

namespace Proofs

/-- A request waits in the queue or on a connection, and in the queue only while its task is there. -/
structure Queued (pending : List Nat) (client : HttpClient) : Prop where
  numbered : TasksNumbered client
  present {taskid : Nat} (member : taskid ∈ pending) : ∃ task ∈ client.tasks, task.taskid = taskid
  distinct : pending.Nodup
  apart {sid taskid : Nat} (busy : client.busy sid = some taskid) : taskid ∉ pending ∧ taskid ≤ client.requests

theorem queued_initial (now : Int) : Queued [] (.initial now) :=
  ⟨tasksNumbered_initial now, by simp, .nil, by simp [HttpClient.initial]⟩

theorem findTask_of_mem {client : HttpClient} {task : HttpTask} (member : task ∈ client.tasks) :
    ∃ found, client.findTask task.taskid = some found := by
  cases result : client.findTask task.taskid with
  | some found => exact ⟨found, rfl⟩
  | none =>
    rw [HttpClient.findTask, List.find?_eq_none] at result
    simpa using result task member

namespace Queued
variable {setting : HttpClientSetting} {pending : List Nat} {client after : HttpClient}

theorem known (queued : Queued client.pending client) : client.Known := by
  intro taskid member
  obtain ⟨task, waits, rfl⟩ := queued.present member
  obtain ⟨found, result⟩ := findTask_of_mem waits
  rw [result]
  rfl

theorem le (queued : Queued pending client) {taskid : Nat} (member : taskid ∈ pending) : taskid ≤ client.requests := by
  obtain ⟨task, waits, rfl⟩ := queued.present member
  rw [queued.numbered.taskid waits]
  exact queued.numbered.bound (List.mem_append_left _ (List.mem_map_of_mem waits))

theorem startTask (queued : Queued client.pending client) (few : client.requests + 1 < wordSize) (timeout : Int) (keepalive : Bool) :
    Queued (client.startTask timeout keepalive).pending (client.startTask timeout keepalive) := by
  have numbered := queued.numbered.startTask few timeout keepalive
  rw [queued.numbered.startTask_eq few] at numbered ⊢
  refine ⟨numbered, fun member => ?_, ?_, fun busy => ?_⟩
  · rcases List.mem_append.mp member with old | new
    · obtain ⟨task, waits, same⟩ := queued.present old
      exact ⟨task, .tail _ waits, same⟩
    · rw [List.mem_singleton.mp new]
      exact ⟨_, .head _, rfl⟩
  · refine List.nodup_append.mpr ⟨queued.distinct, List.nodup_singleton _, ?_⟩
    rintro old member new added rfl
    have := queued.le member
    have := List.mem_singleton.mp added
    omega
  · obtain ⟨other, le⟩ := queued.apart busy
    refine ⟨fun member => ?_, le.trans (Nat.le_succ _)⟩
    rcases List.mem_append.mp member with old | new
    · exact other old
    · have := List.mem_singleton.mp new
      omega

theorem checkTimeouts (queued : Queued client.pending client) (inTime : client.NoneOverdue) :
    Queued client.pending client.checkTimeouts := by
  refine ⟨queued.numbered.checkTimeouts, fun member => ?_, queued.distinct, queued.apart⟩
  obtain ⟨task, waits, rfl⟩ := queued.present member
  exact ⟨task, List.mem_filter.mpr ⟨waits, decide_eq_true (inTime task waits member)⟩, rfl⟩

/-- Each turn of the loop finds its task. -/
theorem advancePending (queued : Queued pending client) :
    ∃ after, client.advancePending setting pending = some after ∧ Queued after.pending after ∧ after.requests = client.requests := by
  induction pending generalizing client with
  | nil =>
    obtain ⟨⟨next, taskid, bound, distinct⟩, present, -, apart⟩ := queued
    exact ⟨_, rfl, ⟨⟨next, taskid, bound, distinct⟩, present, .nil, apart⟩, rfl⟩
  | cons taskid pending ih =>
    obtain ⟨numbered, present, distinct, apart⟩ := queued
    obtain ⟨fresh, rest⟩ := List.nodup_cons.mp distinct
    rw [HttpClient.advancePending]
    split
    next available =>
      obtain ⟨task, waits, rfl⟩ := present (.head _)
      obtain ⟨found, result⟩ := findTask_of_mem waits
      have le : task.taskid ≤ client.requests := by
        rw [numbered.taskid waits]
        exact numbered.bound (List.mem_append_left _ (List.mem_map_of_mem waits))
      obtain ⟨middle, sent⟩ : ∃ middle, HttpClient.send setting
          { client with idle := client.idle.erase (client.idle.min' available) } task.taskid (client.idle.min' available) = some middle :=
        send_of_found result
      have left {sid taskid : Nat} (busy : client.busy sid = some taskid) : taskid ∉ pending ∧ taskid ≤ client.requests :=
        ⟨fun member => (apart busy).1 (.tail _ member), (apart busy).2⟩
      have next : Queued pending middle ∧ middle.requests = client.requests := by
        rcases send_cases sent with rfl | ⟨given, -, rfl⟩
        · exact ⟨⟨⟨numbered.next, numbered.taskid, numbered.bound, numbered.distinct⟩, fun member => present (.tail _ member), rest,
            left⟩, rfl⟩
        · refine ⟨⟨⟨numbered.next, numbered.taskid, numbered.bound, numbered.distinct⟩, fun member => present (.tail _ member), rest,
            fun {sid other} busy => ?_⟩, rfl⟩
          by_cases same : sid = client.idle.min' available
          · simp only [same, Function.update_self, Option.some.injEq] at busy
            rw [← busy]
            exact ⟨fresh, le⟩
          · simp only [Function.update_of_ne same] at busy
            exact left busy
      obtain ⟨after, advanced, queued', requests⟩ := ih next.1
      exact ⟨after, Option.bind_eq_some_iff.mpr ⟨middle, sent, advanced⟩, queued', requests.trans next.2⟩
    next =>
      exact ⟨_, rfl, ⟨⟨numbered.next, numbered.taskid, numbered.bound, numbered.distinct⟩, present, distinct, apart⟩, rfl⟩

theorem advanceAll (queued : Queued client.pending client) (inTime : client.NoneOverdue) :
    ∃ after, client.advanceAll setting = some after ∧ Queued after.pending after ∧ after.requests = client.requests :=
  (queued.checkTimeouts inTime).advancePending

/-- Connections come and go. -/
theorem of_same (queued : Queued pending client) (next : after.nextTaskid = client.nextTaskid) (tasks : after.tasks = client.tasks)
    (requests : after.requests = client.requests) (finished : after.finished = client.finished)
    (busy : ∀ {sid taskid}, after.busy sid = some taskid → client.busy sid = some taskid) : Queued pending after := by
  obtain ⟨numbered, present, distinct, apart⟩ := queued
  have same : requestsOf after = requestsOf client := by rw [requestsOf, tasks, finished, requestsOf]
  refine ⟨⟨?_, ?_, ?_, ?_⟩, ?_, distinct, fun waits => ?_⟩
  · rw [next, requests]
    exact numbered.next
  · rw [tasks]
    exact numbered.taskid
  · rw [same, requests]
    exact numbered.bound
  · rw [same]
    exact numbered.distinct
  · rw [tasks]
    exact present
  · rw [requests]
    exact apart (busy waits)

theorem busy_of_released {sid other taskid : Nat} (busy : Function.update client.busy sid none other = some taskid) :
    client.busy other = some taskid := by
  by_cases same : other = sid
  · rw [same, Function.update_self] at busy
    cases busy
  · rwa [Function.update_of_ne same] at busy

theorem finishTask (queued : Queued pending client) {task : HttpTask} (member : task ∈ client.tasks) {finish : Finish}
    (same : finish.request = task.request) (taken : task.taskid ∉ pending) : Queued pending (client.finishTask task finish) := by
  refine ⟨queued.numbered.finishTask member same, fun {taskid} waits => ?_, queued.distinct, queued.apart⟩
  obtain ⟨other, stays, rfl⟩ := queued.present waits
  refine ⟨other, List.mem_filter.mpr ⟨stays, ?_⟩, rfl⟩
  have different : other.taskid ≠ task.taskid := by
    intro equal
    exact taken (equal ▸ waits)
  simpa using different

theorem recycleConnection (queued : Queued pending client) (sid : Nat) (keepalive : Bool) :
    Queued pending (client.recycleConnection sid keepalive) := by
  rw [HttpClient.recycleConnection]
  split
  next => exact queued.of_same rfl rfl rfl rfl id
  next => exact queued

/-- A response takes a task that does not wait in the queue. -/
theorem response (queued : Queued client.pending client) (inTime : client.NoneOverdue) (sid : Nat) (keepalive : Bool) :
    ∃ after, client.step setting (.response sid keepalive) = some after ∧ Queued after.pending after ∧
      after.requests = client.requests := by
  rw [HttpClient.step, HttpClient.handleResponse]
  simp only
  cases busy : client.busy sid with
  | none => exact ⟨_, rfl, queued.of_same rfl rfl rfl rfl id, rfl⟩
  | some taskid =>
    have released : Queued client.pending { client with
        responses := Function.update client.responses sid (client.responses sid + 1), busy := Function.update client.busy sid none } :=
      queued.of_same rfl rfl rfl rfl busy_of_released
    have recycled (now : HttpClient) (flag : Bool) : (now.recycleConnection sid flag).pending = now.pending ∧
        (now.recycleConnection sid flag).requests = now.requests ∧ (now.recycleConnection sid flag).tasks = now.tasks ∧
        (now.recycleConnection sid flag).clock = now.clock := by
      rw [HttpClient.recycleConnection]
      split <;> exact ⟨rfl, rfl, rfl, rfl⟩
    simp only
    split
    next =>
      refine ⟨_, rfl, ?_, (recycled _ keepalive).2.1⟩
      rw [(recycled _ keepalive).1]
      exact released.recycleConnection sid keepalive
    next task found =>
      obtain ⟨member, rfl⟩ := find_task found
      obtain ⟨now, now_eq⟩ : ∃ now : HttpClient, now = HttpClient.finishTask { client with
          responses := Function.update client.responses sid (client.responses sid + 1)
          busy := Function.update client.busy sid none } task (.response task.request sid) := ⟨_, rfl⟩
      have finished : Queued now.pending now := by
        rw [now_eq]
        exact released.finishTask member rfl (queued.apart busy).1
      have inTime' : now.NoneOverdue := by
        rw [now_eq]
        exact fun other waits queue => inTime other (List.mem_of_mem_filter waits) queue
      obtain ⟨same, requests, tasks, clock⟩ := recycled now (task.keepalive && keepalive)
      obtain ⟨after, advanced, queued', kept⟩ := advanceAll (same ▸ finished.recycleConnection sid (task.keepalive && keepalive))
        (by rwa [HttpClient.NoneOverdue, tasks, same, clock])
      rw [← now_eq]
      refine ⟨after, advanced, queued', kept.trans (requests.trans ?_)⟩
      rw [now_eq]
      rfl

theorem step (queued : Queued client.pending client) {action : HttpClientAction} (punctual : client.Punctual setting action)
    (few : client.requests + action.isSend.toNat < wordSize) :
    ∃ after, client.step setting action = some after ∧ Queued after.pending after ∧
      after.requests = client.requests + action.isSend.toNat := by
  cases action with
  | sendRequest timeout keepalive =>
    obtain ⟨inTime, given⟩ := punctual
    have positive : 0 < if timeout > 0 then timeout else setting.taskTimeout := by
      split <;> omega
    have inTime' : (client.startTask (if timeout > 0 then timeout else setting.taskTimeout) keepalive).NoneOverdue := by
      rw [queued.numbered.startTask_eq few]
      intro task member waits
      rcases List.mem_cons.mp member with rfl | old
      · exact Int.lt_add_of_pos_right _ positive
      · rcases List.mem_append.mp waits with queue | new
        · exact inTime task old queue
        · have := queued.numbered.taskid old
          have := queued.numbered.bound (List.mem_append_left _ (List.mem_map_of_mem old))
          have := List.mem_singleton.mp new
          omega
    obtain ⟨after, advanced, queued', requests⟩ := (queued.startTask few _ keepalive).advanceAll inTime'
    exact ⟨after, advanced, queued', requests⟩
  | addSession sid =>
    have added : Queued client.pending { client with
        sessions := insert sid client.sessions, opened := insert sid client.opened, idle := insert sid client.idle } :=
      queued.of_same rfl rfl rfl rfl id
    exact added.advanceAll punctual
  | delSession sid =>
    have removed : Queued client.pending { client with
        sessions := client.sessions.erase sid, idle := client.idle.erase sid, busy := Function.update client.busy sid none } :=
      queued.of_same rfl rfl rfl rfl busy_of_released
    exact removed.advanceAll punctual
  | response sid keepalive => exact queued.response punctual sid keepalive
  | advance seconds => exact ⟨_, rfl, queued.of_same rfl rfl rfl rfl id, rfl⟩

theorem run {actions : List HttpClientAction} (queued : Queued client.pending client)
    (few : client.requests + actions.countP HttpClientAction.isSend < wordSize)
    (each : EachStep (HttpClient.step setting) (HttpClient.Punctual setting) client actions) :
    ∃ after, actions.foldlM (HttpClient.step setting) client = some after ∧ after.Known := by
  induction actions generalizing client with
  | nil => exact ⟨client, rfl, queued.known⟩
  | cons action actions ih =>
    obtain ⟨punctual, later⟩ := each
    have counted : (action :: actions).countP HttpClientAction.isSend =
        action.isSend.toNat + actions.countP HttpClientAction.isSend := by
      cases send : action.isSend <;> simp [send, Nat.add_comm]
    rw [counted] at few
    obtain ⟨next, stepped, queued', requests⟩ := queued.step punctual (by omega)
    obtain ⟨after, rest, known⟩ := ih queued' (by omega) (later next stepped)
    refine ⟨after, ?_, known⟩
    rw [List.foldlM_cons, stepped]
    exact rest

end Queued

/-- The first request is answered in time, and so is the second one, which has waited for its connection. -/
def punctualActions : List HttpClientAction :=
  [.sendRequest 5 true, .advance 4, .addSession 1, .sendRequest 0 true, .response 1 true, .advance 29, .response 1 true]

end Proofs
end Cassobee
