import Cassobee.HttpClient
import Cassobee.Support.Run

/-! How `httpclient` gives responses to requests. -/

namespace Cassobee
open Support

/-- Sessions are added once, and a peer sends at most one response for each request. -/
def HttpClient.Allowed (client : HttpClient) : HttpClientAction → Prop
  | .addSession sid => sid ∉ client.opened
  | .response sid _ => client.responses sid < (client.written sid).length
  | _ => True

instance (client : HttpClient) : ∀ action, Decidable (client.Allowed action)
  | .addSession sid => inferInstanceAs (Decidable (sid ∉ client.opened))
  | .response sid _ => inferInstanceAs (Decidable (client.responses sid < (client.written sid).length))
  | .sendRequest .. | .delSession _ | .advance _ => isTrue trivial

def HttpClient.Steps (setting : HttpClientSetting) (before : HttpClient) (action : HttpClientAction) (after : HttpClient) : Prop :=
  before.Allowed action ∧ before.step setting action = some after

def HttpClientAction.isSend : HttpClientAction → Bool
  | .sendRequest .. => true
  | _ => false

/-- A task is finished at most once, a connection is not idle and busy, and the next response goes to
the request that was written last on its session, if it goes to one. -/
structure HttpClient.Matching (setting : HttpClientSetting) (client : HttpClient) : Prop where
  once : (client.finished.map Finish.request).Nodup
  apart {sid : Nat} (idle : sid ∈ client.idle) : client.busy sid = none
  given {action : HttpClientAction} {after : HttpClient} (allowed : client.Allowed action)
    (stepped : client.step setting action = some after) {request sid : Nat} (response : .response request sid ∈ after.finished) :
    .response request sid ∈ client.finished ∨
      (∃ keepalive, action = .response sid keepalive) ∧ (client.written sid).head? = some request

namespace Proofs

/-- The requests whose task is waiting, and those whose task is finished. -/
def requestsOf (client : HttpClient) : List Nat := client.tasks.map HttpTask.request ++ client.finished.map Finish.request

/-- As long as the counter has not come around, a task id names one request. -/
structure TasksNumbered (client : HttpClient) : Prop where
  next : client.nextTaskid = client.requests
  taskid {task : HttpTask} (member : task ∈ client.tasks) : task.taskid = task.request + 1
  bound {request : Nat} (member : request ∈ requestsOf client) : request < client.requests
  distinct : (requestsOf client).Nodup

/-- What has passed on a connection. A busy one has been written on once more than it has answered,
unless the request did not fit into its buffer. -/
structure Connected (client : HttpClient) : Prop where
  idle {sid : Nat} (idle : sid ∈ client.idle) : client.busy sid = none ∧ client.responses sid = (client.written sid).length
  busy {sid taskid : Nat} (busy : client.busy sid = some taskid) :
    client.responses sid = (client.written sid).length ∨
      ∃ request older, client.written sid = request :: older ∧ taskid = request + 1 ∧ client.responses sid = older.length
  opened {sid : Nat} (fresh : sid ∉ client.opened) :
    client.busy sid = none ∧ sid ∉ client.idle ∧ client.responses sid = (client.written sid).length

theorem tasksNumbered_initial (now : Int) : TasksNumbered (.initial now) := by
  constructor <;> simp [HttpClient.initial, requestsOf]

theorem connected_initial (now : Int) : Connected (.initial now) := by
  constructor <;> simp [HttpClient.initial]

section
variable {setting : HttpClientSetting} {client after : HttpClient}

theorem find_task {taskid : Nat} {task : HttpTask} (found : client.findTask taskid = some task) :
    task ∈ client.tasks ∧ task.taskid = taskid := by
  refine ⟨List.mem_of_find?_eq_some found, ?_⟩
  have matched := List.find?_some found
  rwa [decide_eq_true_eq] at matched

/-- What the body of the loop can do. -/
theorem send_cases {taskid sid : Nat} (sent : client.send setting taskid sid = some after) :
    after = client ∨ ∃ task, client.findTask taskid = some task ∧
      after = { client with
        written := if setting.room task.request then
            Function.update client.written sid (task.request :: client.written sid)
          else client.written
        busy := Function.update client.busy sid (some taskid) } := by
  rw [HttpClient.send] at sent
  split at sent
  next => cases sent
  next task found =>
    split at sent
    next => exact .inr ⟨task, found, (Option.some.inj sent).symm⟩
    next => exact .inl (Option.some.inj sent).symm

/-- With its task a request is sent, or its session is gone. -/
theorem send_of_found {taskid sid : Nat} {task : HttpTask} (found : client.findTask taskid = some task) :
    ∃ after, client.send setting taskid sid = some after := by
  simp only [HttpClient.send, found]
  split <;> exact ⟨_, rfl⟩

/-- The loop of `advance_all` keeps what its body keeps. -/
theorem advancePending_keeps (holds : HttpClient → Prop)
    (queue : ∀ {client} pending, holds client → holds { client with pending })
    (body : ∀ {client after taskid sid}, holds client → sid ∈ client.idle →
      { client with idle := client.idle.erase sid }.send setting taskid sid = some after → holds after)
    {pending : List Nat} (start : holds client) (advanced : client.advancePending setting pending = some after) : holds after := by
  induction pending generalizing client with
  | nil =>
    cases advanced
    exact queue [] start
  | cons taskid pending ih =>
    rw [HttpClient.advancePending] at advanced
    split at advanced
    next available =>
      obtain ⟨middle, sent, rest⟩ := Option.bind_eq_some_iff.mp advanced
      exact ih (body start (Finset.min'_mem _ available) sent) rest
    next =>
      cases advanced
      exact queue _ start

theorem finished_of_advanceAll (advanced : client.advanceAll setting = some after) :
    after.finished = client.checkTimeouts.finished := by
  refine advancePending_keeps (fun now => now.finished = client.checkTimeouts.finished) (fun _ same => same) ?_ rfl advanced
  intro now next taskid sid same _ sent
  rcases send_cases sent with rfl | ⟨task, -, rfl⟩
  · exact same
  · exact same

/-- Only time runs out in `check_timeouts`. -/
theorem response_of_checkTimeouts {request sid : Nat} :
    .response request sid ∈ client.checkTimeouts.finished ↔ .response request sid ∈ client.finished := by
  simp [HttpClient.checkTimeouts]

end

namespace TasksNumbered
variable {setting : HttpClientSetting} {client after : HttpClient}

/-- A new task has an id that no other has. -/
theorem startTask_eq (numbered : TasksNumbered client) (few : client.requests + 1 < wordSize) (timeout : Int) (keepalive : Bool) :
    client.startTask timeout keepalive = { client with
      nextTaskid := client.requests + 1
      requests := client.requests + 1
      tasks := ⟨client.requests + 1, client.clock + timeout, client.requests, keepalive⟩ :: client.tasks
      pending := client.pending ++ [client.requests + 1] } := by
  have id : (client.nextTaskid + 1) % wordSize = client.requests + 1 := by rw [numbered.next, Nat.mod_eq_of_lt few]
  have unused : client.findTask (client.requests + 1) = none := by
    rw [HttpClient.findTask, List.find?_eq_none]
    intro task member same
    rw [decide_eq_true_eq, numbered.taskid member] at same
    have := numbered.bound (List.mem_append_left _ (List.mem_map_of_mem member))
    omega
  simp only [HttpClient.startTask, id, unused]

theorem startTask (numbered : TasksNumbered client) (few : client.requests + 1 < wordSize) (timeout : Int) (keepalive : Bool) :
    TasksNumbered (client.startTask timeout keepalive) := by
  rw [numbered.startTask_eq few]
  refine ⟨rfl, fun member => ?_, fun member => ?_, ?_⟩
  · rcases List.mem_cons.mp member with rfl | old
    · rfl
    · exact numbered.taskid old
  · rcases List.mem_cons.mp member with rfl | old
    · exact Nat.lt_succ_self _
    · exact (numbered.bound old).trans (Nat.lt_succ_self _)
  · exact List.nodup_cons.mpr ⟨fun old => Nat.lt_irrefl _ (numbered.bound old), numbered.distinct⟩

theorem finishTask (numbered : TasksNumbered client) {task : HttpTask} (member : task ∈ client.tasks) {finish : Finish}
    (same : finish.request = task.request) : TasksNumbered (client.finishTask task finish) := by
  obtain ⟨waiting, finished, apart⟩ := List.nodup_append.mp numbered.distinct
  have kept : (client.tasks.filter fun other => other.taskid ≠ task.taskid).Sublist client.tasks := List.filter_sublist
  refine ⟨numbered.next, fun stays => numbered.taskid (kept.subset stays), fun named => ?_, List.nodup_append.mpr ⟨?_, ?_, ?_⟩⟩
  · rcases List.mem_append.mp named with waits | done
    · exact numbered.bound (List.mem_append_left _ ((kept.map _).subset waits))
    · rcases List.mem_cons.mp done with rfl | old
      · rw [same]
        exact numbered.bound (List.mem_append_left _ (List.mem_map_of_mem member))
      · exact numbered.bound (List.mem_append_right _ old)
  · exact (kept.map _).nodup waiting
  · refine List.nodup_cons.mpr ⟨fun again => ?_, finished⟩
    exact apart _ (List.mem_map_of_mem member) _ again same.symm
  · intro request waits other done
    obtain ⟨left, stays, rfl⟩ := List.mem_map.mp waits
    rcases List.mem_cons.mp done with rfl | old
    · have different : left.taskid ≠ task.taskid := by simpa using List.of_mem_filter stays
      rw [numbered.taskid (kept.subset stays), numbered.taskid member] at different
      rw [same]
      omega
    · exact apart _ (List.mem_map_of_mem (kept.subset stays)) _ old

theorem checkTimeouts (numbered : TasksNumbered client) : TasksNumbered client.checkTimeouts := by
  have same : (requestsOf client.checkTimeouts).Perm (requestsOf client) := by
    have split : (client.tasks.filter (fun task => client.clock < task.timeout) ++
        client.tasks.filter fun task => task.timeout ≤ client.clock).Perm client.tasks := by
      have other : (fun task : HttpTask => decide (task.timeout ≤ client.clock)) =
          fun task => !decide (client.clock < task.timeout) := by
        funext task
        rw [← decide_not, decide_eq_decide, Int.not_lt]
      rw [other]
      exact List.filter_append_perm _ _
    have whole := (split.map HttpTask.request).append_right (client.finished.map Finish.request)
    simpa [requestsOf, HttpClient.checkTimeouts, Function.comp_def, Finish.request] using whole
  refine ⟨numbered.next, fun member => numbered.taskid (List.mem_of_mem_filter member), fun named => ?_, ?_⟩
  · exact numbered.bound (same.mem_iff.mp named)
  · exact same.nodup_iff.mpr numbered.distinct

theorem recycleConnection (numbered : TasksNumbered client) (sid : Nat) (keepalive : Bool) :
    TasksNumbered (client.recycleConnection sid keepalive) := by
  rw [HttpClient.recycleConnection]
  split
  next => exact ⟨numbered.next, numbered.taskid, numbered.bound, numbered.distinct⟩
  next => exact numbered

end TasksNumbered

namespace Connected
variable {setting : HttpClientSetting} {client after : HttpClient}

/-- The tables of the tasks may change. -/
theorem of_same (connected : Connected client) (idle : after.idle = client.idle) (busy : after.busy = client.busy)
    (opened : after.opened = client.opened) (written : after.written = client.written)
    (responses : after.responses = client.responses) : Connected after := by
  constructor
  · rw [idle, busy, written, responses]
    exact connected.idle
  · rw [busy, written, responses]
    exact connected.busy
  · rw [opened, busy, idle, written, responses]
    exact connected.opened

theorem finishTask (connected : Connected client) (task : HttpTask) (finish : Finish) : Connected (client.finishTask task finish) :=
  connected.of_same rfl rfl rfl rfl rfl

/-- A connection that was idle is written on. -/
theorem send (connected : Connected client) (numbered : TasksNumbered client) {taskid sid : Nat} (idle : sid ∈ client.idle)
    (sent : { client with idle := client.idle.erase sid }.send setting taskid sid = some after) : Connected after := by
  obtain ⟨free, even⟩ := connected.idle idle
  have known {other : Nat} (fresh : other ∉ client.opened) : other ≠ sid := by
    rintro rfl
    exact (connected.opened fresh).2.1 idle
  rcases send_cases sent with rfl | ⟨task, found, rfl⟩
  · refine ⟨fun stays => connected.idle (Finset.mem_of_mem_erase stays), connected.busy, fun fresh => ?_⟩
    obtain ⟨busy, rest, equal⟩ := connected.opened fresh
    exact ⟨busy, fun stays => rest (Finset.mem_of_mem_erase stays), equal⟩
  · obtain ⟨member, rfl⟩ := find_task found
    have others {other : Nat} (different : other ≠ sid) :
        (if setting.room task.request then Function.update client.written sid (task.request :: client.written sid)
          else client.written) other = client.written other := by
      split
      next => exact Function.update_of_ne different _ _
      next => rfl
    refine ⟨fun {other} stays => ?_, fun {other taskid} busy => ?_, fun {other} fresh => ?_⟩
    · have different := Finset.ne_of_mem_erase stays
      simp only [Function.update_of_ne different, others different]
      exact connected.idle (Finset.mem_of_mem_erase stays)
    · by_cases different : other = sid
      · subst different
        simp only [Function.update_self, Option.some.injEq] at busy
        by_cases room : setting.room task.request
        · refine .inr ⟨task.request, client.written other, by simp [room], ?_, even⟩
          rw [← busy]
          exact numbered.taskid member
        · simp only [room]
          exact .inl even
      · simp only [Function.update_of_ne different] at busy
        simp only [others different]
        exact connected.busy busy
    · have different := known fresh
      simp only [Function.update_of_ne different, others different]
      obtain ⟨busy, rest, equal⟩ := connected.opened fresh
      exact ⟨busy, fun stays => rest (Finset.mem_of_mem_erase stays), equal⟩

theorem recycleConnection (connected : Connected client) {sid : Nat} (free : client.busy sid = none)
    (even : client.responses sid = (client.written sid).length) (known : sid ∈ client.opened) (keepalive : Bool) :
    Connected (client.recycleConnection sid keepalive) := by
  rw [HttpClient.recycleConnection]
  split
  next =>
    refine ⟨fun idle => ?_, connected.busy, fun fresh => ?_⟩
    · rcases Finset.mem_insert.mp idle with rfl | old
      · exact ⟨free, even⟩
      · exact connected.idle old
    · obtain ⟨busy, rest, equal⟩ := connected.opened fresh
      refine ⟨busy, fun idle => ?_, equal⟩
      rcases Finset.mem_insert.mp idle with rfl | old
      · exact fresh known
      · exact rest old
  next => exact connected

theorem addSession (connected : Connected client) {sid : Nat} (fresh : sid ∉ client.opened) :
    Connected { client with
      sessions := insert sid client.sessions, opened := insert sid client.opened, idle := insert sid client.idle } := by
  obtain ⟨free, -, even⟩ := connected.opened fresh
  refine ⟨fun idle => ?_, connected.busy, fun other => ?_⟩
  · rcases Finset.mem_insert.mp idle with rfl | old
    · exact ⟨free, even⟩
    · exact connected.idle old
  · rw [Finset.mem_insert, not_or] at other
    obtain ⟨busy, rest, equal⟩ := connected.opened other.2
    refine ⟨busy, fun idle => ?_, equal⟩
    rcases Finset.mem_insert.mp idle with same | old
    · exact other.1 same
    · exact rest old

/-- Nothing waits on the connection any more. -/
theorem release (connected : Connected client) (sid : Nat) :
    Connected { client with busy := Function.update client.busy sid none } := by
  have left {other taskid : Nat} (busy : Function.update client.busy sid none other = some taskid) :
      client.busy other = some taskid := by
    by_cases same : other = sid
    · rw [same, Function.update_self] at busy
      cases busy
    · rwa [Function.update_of_ne same] at busy
  have free {other : Nat} (before : client.busy other = none) : Function.update client.busy sid none other = none := by
    by_cases same : other = sid
    · rw [same, Function.update_self]
    · rwa [Function.update_of_ne same]
  refine ⟨fun idle => ?_, fun busy => connected.busy (left busy), fun fresh => ?_⟩
  · exact ⟨free (connected.idle idle).1, (connected.idle idle).2⟩
  · exact ⟨free (connected.opened fresh).1, (connected.opened fresh).2⟩

theorem delSession (connected : Connected client) (sid : Nat) :
    Connected { client with
      sessions := client.sessions.erase sid, idle := client.idle.erase sid, busy := Function.update client.busy sid none } := by
  have released := connected.release sid
  refine ⟨fun idle => released.idle (Finset.mem_of_mem_erase idle), released.busy, fun fresh => ?_⟩
  obtain ⟨busy, rest, equal⟩ := released.opened fresh
  exact ⟨busy, fun idle => rest (Finset.mem_of_mem_erase idle), equal⟩

end Connected

/-- What every step keeps. -/
structure Handled (client : HttpClient) : Prop where
  numbered : TasksNumbered client
  connected : Connected client

namespace Handled
variable {setting : HttpClientSetting} {client after : HttpClient}

theorem advanceAll (handled : Handled client) (advanced : client.advanceAll setting = some after) :
    Handled after ∧ after.requests = client.requests := by
  refine advancePending_keeps (fun now => Handled now ∧ now.requests = client.requests) ?_ ?_ ⟨⟨handled.numbered.checkTimeouts,
    handled.connected.of_same rfl rfl rfl rfl rfl⟩, rfl⟩ advanced
  · rintro now pending ⟨⟨⟨next, taskid, bound, distinct⟩, connected⟩, same⟩
    exact ⟨⟨⟨next, taskid, bound, distinct⟩, connected.of_same rfl rfl rfl rfl rfl⟩, same⟩
  · rintro now next taskid sid ⟨⟨numbered, connected⟩, same⟩ idle sent
    have connected' := connected.send numbered idle sent
    rcases send_cases sent with rfl | ⟨task, -, rfl⟩
    · exact ⟨⟨⟨numbered.next, numbered.taskid, numbered.bound, numbered.distinct⟩, connected'⟩, same⟩
    · exact ⟨⟨⟨numbered.next, numbered.taskid, numbered.bound, numbered.distinct⟩, connected'⟩, same⟩

/-- A response that the peer may send, on a connection that waits for one: it is for the request of the
busy connection. -/
theorem expected (handled : Handled client) {sid taskid : Nat} {keepalive : Bool} (allowed : client.Allowed (.response sid keepalive))
    (busy : client.busy sid = some taskid) : ∃ request older, client.written sid = request :: older ∧ taskid = request + 1 ∧
      client.responses sid = older.length := by
  rcases handled.connected.busy busy with even | odd
  · rw [HttpClient.Allowed, even] at allowed
    exact absurd allowed (Nat.lt_irrefl _)
  · exact odd

/-- The connection has been answered on, and waits no more. -/
theorem received (handled : Handled client) {sid : Nat} {keepalive : Bool} (allowed : client.Allowed (.response sid keepalive)) :
    Handled { client with
      responses := Function.update client.responses sid (client.responses sid + 1), busy := Function.update client.busy sid none } := by
  obtain ⟨numbered, connected⟩ := handled
  have released := connected.release sid
  have waits : client.responses sid ≠ (client.written sid).length := Nat.ne_of_lt allowed
  have others {other : Nat} (different : other ≠ sid) :
      Function.update client.responses sid (client.responses sid + 1) other = client.responses other :=
    Function.update_of_ne different _ _
  refine ⟨⟨numbered.next, numbered.taskid, numbered.bound, numbered.distinct⟩, fun {other} idle => ?_, fun {other taskid} busy => ?_,
    fun {other} fresh => ?_⟩
  · have different : other ≠ sid := by
      rintro rfl
      exact waits (connected.idle idle).2
    simp only [others different]
    exact released.idle idle
  · have different : other ≠ sid := by
      rintro rfl
      simp at busy
    simp only [others different]
    exact released.busy busy
  · have different : other ≠ sid := by
      rintro rfl
      exact waits (connected.opened fresh).2.2
    simp only [others different]
    exact released.opened fresh

/-- What a response can do: nothing, give the connection back, or finish the task that was written
last. -/
theorem response_cases (handled : Handled client) {sid : Nat} {keepalive : Bool} (allowed : client.Allowed (.response sid keepalive))
    (stepped : client.step setting (.response sid keepalive) = some after) :
    ∃ now, Handled now ∧ now.requests = client.requests ∧
      (now.finished = client.finished ∧ after = now ∨
        ∃ request, (client.written sid).head? = some request ∧ now.finished = .response request sid :: client.finished ∧
          now.advanceAll setting = some after) := by
  rw [HttpClient.step, HttpClient.handleResponse] at stepped
  simp only at stepped
  have received := handled.received allowed
  cases busy : client.busy sid with
  | none =>
    rw [busy] at stepped
    refine ⟨{ client with responses := Function.update client.responses sid (client.responses sid + 1) }, ?_, rfl,
      .inl ⟨rfl, (Option.some.inj stepped).symm⟩⟩
    rwa [Function.update_eq_self_iff.mpr busy.symm] at received
  | some taskid =>
    obtain ⟨request, older, written, rfl, even⟩ := handled.expected allowed busy
    rw [busy] at stepped
    simp only at stepped
    have known : sid ∈ client.opened := by
      by_contra fresh
      cases busy.symm.trans (handled.connected.opened fresh).1
    have back {now : HttpClient} (kept : Connected now) (busy' : now.busy = Function.update client.busy sid none)
        (responses : now.responses = Function.update client.responses sid (client.responses sid + 1))
        (same : now.written = client.written) (opened : now.opened = client.opened) (flag : Bool) :
        Connected (now.recycleConnection sid flag) := by
      apply kept.recycleConnection
      · rw [busy', Function.update_self]
      · rw [responses, Function.update_self, same, written, even, List.length_cons]
      · rwa [opened]
    split at stepped
    next =>
      cases stepped
      refine ⟨_, ⟨received.numbered.recycleConnection sid keepalive, back received.connected rfl rfl rfl rfl keepalive⟩, ?_,
        .inl ⟨?_, rfl⟩⟩ <;> (rw [HttpClient.recycleConnection]; split <;> rfl)
    next task found =>
      obtain ⟨member, id⟩ := find_task found
      have same : task.request = request := by
        have := handled.numbered.taskid member
        omega
      have finished := received.numbered.finishTask member (rfl : (Finish.response task.request sid).request = task.request)
      refine ⟨_, ⟨finished.recycleConnection sid (task.keepalive && keepalive), ?_⟩, ?_,
        .inr ⟨request, by rw [written]; rfl, ?_, stepped⟩⟩
      · exact back (received.connected.finishTask task _) rfl rfl rfl rfl _
      · rw [HttpClient.recycleConnection]
        split <;> rfl
      · rw [HttpClient.recycleConnection, ← same]
        split <;> rfl

theorem step (handled : Handled client) {action : HttpClientAction} (allowed : client.Allowed action)
    (few : client.requests + action.isSend.toNat < wordSize) (stepped : client.step setting action = some after) :
    Handled after ∧ after.requests = client.requests + action.isSend.toNat := by
  obtain ⟨numbered, connected⟩ := handled
  cases action with
  | sendRequest timeout keepalive =>
    exact advanceAll ⟨numbered.startTask few _ keepalive, connected.of_same rfl rfl rfl rfl rfl⟩ stepped
  | addSession sid =>
    have added : Handled { client with
        sessions := insert sid client.sessions, opened := insert sid client.opened, idle := insert sid client.idle } :=
      ⟨⟨numbered.next, numbered.taskid, numbered.bound, numbered.distinct⟩, connected.addSession allowed⟩
    exact added.advanceAll stepped
  | delSession sid =>
    have removed : Handled { client with
        sessions := client.sessions.erase sid, idle := client.idle.erase sid, busy := Function.update client.busy sid none } :=
      ⟨⟨numbered.next, numbered.taskid, numbered.bound, numbered.distinct⟩, connected.delSession sid⟩
    exact removed.advanceAll stepped
  | response sid keepalive =>
    obtain ⟨now, handled', same, ⟨-, rfl⟩ | ⟨request, -, -, advanced⟩⟩ := response_cases ⟨numbered, connected⟩ allowed stepped
    · exact ⟨handled', same⟩
    · obtain ⟨final, kept⟩ := handled'.advanceAll advanced
      exact ⟨final, kept.trans same⟩
  | advance seconds =>
    cases stepped
    exact ⟨⟨⟨numbered.next, numbered.taskid, numbered.bound, numbered.distinct⟩, connected.of_same rfl rfl rfl rfl rfl⟩, rfl⟩

theorem matching (handled : Handled client) : client.Matching setting where
  once := (List.nodup_append.mp handled.numbered.distinct).2.1
  apart idle := (handled.connected.idle idle).1
  given {action after} allowed stepped {request sid} response := by
    have advances {now : HttpClient} (advanced : now.advanceAll setting = some after) : .response request sid ∈ now.finished := by
      rw [finished_of_advanceAll advanced] at response
      exact response_of_checkTimeouts.mp response
    cases action with
    | sendRequest timeout keepalive =>
      rw [HttpClient.step] at stepped
      have old := advances stepped
      exact .inl old
    | addSession other =>
      rw [HttpClient.step] at stepped
      have old := advances stepped
      exact .inl old
    | delSession other =>
      rw [HttpClient.step] at stepped
      have old := advances stepped
      exact .inl old
    | response other keepalive =>
      obtain ⟨now, -, -, ⟨same, rfl⟩ | ⟨last, written, finished, advanced⟩⟩ := handled.response_cases allowed stepped
      · exact .inl (same ▸ response)
      · have member := advances advanced
        rw [finished] at member
        rcases List.mem_cons.mp member with same | old
        · cases same
          exact .inr ⟨⟨keepalive, rfl⟩, written⟩
        · exact .inl old
    | advance seconds =>
      cases stepped
      exact .inl response

theorem run {before : HttpClient} {actions : List HttpClientAction}
    (ran : Run (HttpClient.Steps setting) before actions after)
    (handled : Handled before) (few : before.requests + actions.countP HttpClientAction.isSend < wordSize) : Handled after := by
  refine (ran.invariant_of_rest
    (fun now rest => Handled now ∧ now.requests + rest.countP HttpClientAction.isSend < wordSize) ?_ ⟨handled, few⟩).1
  rintro now action next rest ⟨handled, few⟩ ⟨allowed, stepped⟩
  have counted : (action :: rest).countP HttpClientAction.isSend =
      action.isSend.toNat + rest.countP HttpClientAction.isSend := by
    cases send : action.isSend <;> simp [send, Nat.add_comm]
  rw [counted] at few
  obtain ⟨handled', requests⟩ := handled.step allowed (by omega) stepped
  exact ⟨handled', by omega⟩

end Handled

/-- Whatever order the requests, the sessions and the responses come in. -/
theorem responses_match (setting : HttpClientSetting) (now : Int) {actions : List HttpClientAction} {client : HttpClient}
    (ran : Run (HttpClient.Steps setting) (.initial now) actions client)
    (few : actions.countP HttpClientAction.isSend < 2 ^ 64) : client.Matching setting := by
  have handled := Handled.run ran ⟨tasksNumbered_initial now, connected_initial now⟩ (by simpa [HttpClient.initial, wordSize] using few)
  exact handled.matching

def clientSetting : HttpClientSetting := ⟨30, fun _ => true⟩

/-- Runs that are computed. -/
theorem run_of_computed {setting : HttpClientSetting} {actions : List HttpClientAction} {before after : HttpClient}
    (computed : actions.foldlM (fun before action => if before.Allowed action then before.step setting action else none) before =
      some after) : Run (HttpClient.Steps setting) before actions after := by
  refine (Run.of_foldlM computed).mono fun stepped => ?_
  split at stepped
  next allowed => exact ⟨allowed, stepped⟩
  next => cases stepped

/-- The second request takes over the connection of the first one, whose response comes too late. -/
def lateActions : List HttpClientAction :=
  [.addSession 1, .sendRequest 5 true, .advance 6, .sendRequest 20 true, .response 1 true, .addSession 2, .response 1 true]

theorem responses_match_of_late :
    ∃ client, Run (HttpClient.Steps clientSetting) (.initial 0) lateActions client ∧
      client.Matching clientSetting ∧ client.finished = [.response 1 1, .timeout 0] := by
  obtain ⟨client, computed, finished⟩ : ∃ client : HttpClient, lateActions.foldlM
      (fun before action => if before.Allowed action then before.step clientSetting action else none) (.initial 0) = some client ∧
      client.finished = [.response 1 1, .timeout 0] := ⟨_, rfl, by decide⟩
  have ran : Run (HttpClient.Steps clientSetting) (.initial 0) lateActions client := run_of_computed computed
  exact ⟨client, ran, responses_match clientSetting 0 ran (by decide), finished⟩

/-! After as many requests as there are words, a task id is given again. -/

/-- The first request was written on session 1 and has run out of time; there is no other session. -/
structure Waiting (count : Nat) (client : HttpClient) : Prop where
  clock : client.clock = 1
  idle : client.idle = ∅
  busy : client.busy 1 = some 1
  written : client.written 1 = [0]
  responses : client.responses 1 = 0
  next : client.nextTaskid = (count + 1) % wordSize
  requests : client.requests = count + 1
  absent : client.findTask 1 = none
  unanswered {request sid : Nat} : .response request sid ∉ client.finished

theorem advancePending_of_busy (setting : HttpClientSetting) (client : HttpClient) (idle : client.idle = ∅) (pending : List Nat) :
    client.advancePending setting pending = some { client with pending } := by
  cases pending with
  | nil => rfl
  | cons taskid pending => rw [HttpClient.advancePending, dif_neg (by simp [idle])]

theorem Waiting.send {count : Nat} {client : HttpClient} (waiting : Waiting count client) (few : count + 2 ≤ wordSize) :
    ∃ next, client.step clientSetting (.sendRequest 1 true) = some next ∧ Waiting (count + 1) next := by
  have id : (client.nextTaskid + 1) % wordSize = (count + 2) % wordSize := by rw [waiting.next, Nat.mod_add_mod]
  have other : (count + 2) % wordSize ≠ 1 := by
    rcases few.lt_or_eq with less | equal
    · rw [Nat.mod_eq_of_lt less]
      omega
    · rw [equal, Nat.mod_self]
      exact Nat.zero_ne_one
  have advanced := advancePending_of_busy clientSetting (client.startTask 1 true).checkTimeouts waiting.idle
    (client.startTask 1 true).pending
  refine ⟨_, advanced, waiting.clock, waiting.idle, waiting.busy, waiting.written, waiting.responses, id,
    congrArg (· + 1) waiting.requests, ?_, fun {request sid} answered => ?_⟩
  · have absent := waiting.absent
    rw [HttpClient.findTask, List.find?_eq_none] at absent ⊢
    intro task member
    have started := List.mem_of_mem_filter member
    rw [HttpClient.startTask] at started
    simp only at started
    split at started
    next => exact absent task started
    next =>
      rcases List.mem_cons.mp started with rfl | old
      · simpa [id] using other
      · exact absent task old
  · have old : .response request sid ∈ (client.startTask 1 true).finished := response_of_checkTimeouts.mp answered
    exact waiting.unanswered old

theorem Waiting.sends {count : Nat} {client : HttpClient} (waiting : Waiting count client) (more : Nat)
    (few : count + more + 1 ≤ wordSize) : ∃ after, Run (HttpClient.Steps clientSetting) client
      (List.replicate more (.sendRequest 1 true)) after ∧ Waiting (count + more) after := by
  induction more generalizing count client with
  | zero => exact ⟨client, .done _, waiting⟩
  | succ more ih =>
    obtain ⟨next, stepped, waiting'⟩ := waiting.send (by omega)
    obtain ⟨after, rest, final⟩ := ih waiting' (by omega)
    refine ⟨after, .cons ⟨trivial, stepped⟩ rest, ?_⟩
    rwa [Nat.add_right_comm, Nat.add_assoc] at final

/-- The task of a busy connection gets the response. -/
theorem response_given (setting : HttpClientSetting) {client : HttpClient} (sid : Nat) {taskid : Nat} {task : HttpTask}
    (idle : client.idle = ∅) (busy : client.busy sid = some taskid) (found : client.findTask taskid = some task) :
    ∃ after, client.step setting (.response sid false) = some after ∧ .response task.request sid ∈ after.finished := by
  obtain ⟨now, now_eq⟩ : ∃ now : HttpClient, now = HttpClient.finishTask { client with
      responses := Function.update client.responses sid (client.responses sid + 1)
      busy := Function.update client.busy sid none } task (.response task.request sid) := ⟨_, rfl⟩
  have idle' : now.idle = ∅ := by
    rw [now_eq]
    exact idle
  obtain ⟨after, advanced⟩ : ∃ after, now.advanceAll setting = some after :=
    ⟨_, advancePending_of_busy setting now.checkTimeouts idle' now.pending⟩
  refine ⟨after, ?_, ?_⟩
  · have same : HttpClient.findTask { client with
        responses := Function.update client.responses sid (client.responses sid + 1)
        busy := Function.update client.busy sid none } taskid = some task := found
    rw [← advanced, now_eq, HttpClient.step, HttpClient.handleResponse]
    simp only [busy, same, HttpClient.recycleConnection, Bool.and_false, Bool.false_eq_true, if_false]
  · rw [finished_of_advanceAll advanced, response_of_checkTimeouts, now_eq]
    exact List.mem_cons_self ..

/-- The request that is given the first id again gets the response to the first one. -/
theorem Waiting.mistaken {client : HttpClient} (waiting : Waiting (wordSize - 1) client) :
    ∃ next, client.step clientSetting (.sendRequest 1 true) = some next ∧ ¬ next.Matching clientSetting := by
  have id : (client.nextTaskid + 1) % wordSize = 1 := by
    rw [waiting.next]
    decide
  have started : client.startTask 1 true = { client with
      nextTaskid := 1
      requests := client.requests + 1
      tasks := ⟨1, client.clock + 1, client.requests, true⟩ :: client.tasks
      pending := client.pending ++ [1] } := by
    simp only [HttpClient.startTask, id, waiting.absent]
  have advanced := advancePending_of_busy clientSetting (client.startTask 1 true).checkTimeouts waiting.idle
    (client.startTask 1 true).pending
  obtain ⟨next, next_eq⟩ : ∃ next : HttpClient, next = { (client.startTask 1 true).checkTimeouts with
      pending := (client.startTask 1 true).pending } := ⟨_, rfl⟩
  rw [← next_eq] at advanced
  refine ⟨next, advanced, fun right => ?_⟩
  have found : next.findTask 1 = some ⟨1, client.clock + 1, client.requests, true⟩ := by
    rw [next_eq, started]
    simp [HttpClient.findTask, HttpClient.checkTimeouts]
  have idle : next.idle = ∅ := by rw [next_eq]; exact waiting.idle
  have busy : next.busy 1 = some 1 := by rw [next_eq]; exact waiting.busy
  have written : next.written 1 = [0] := by rw [next_eq]; exact waiting.written
  have responses : next.responses 1 = 0 := by rw [next_eq]; exact waiting.responses
  obtain ⟨after, stepped, given⟩ := response_given clientSetting 1 idle busy found
  have allowed : next.Allowed (.response 1 false) := by
    rw [HttpClient.Allowed, responses, written]
    exact Nat.one_pos
  rcases right.given allowed stepped given with old | ⟨-, last⟩
  · have before : .response client.requests 1 ∈ (client.startTask 1 true).finished := by
      rw [next_eq] at old
      exact response_of_checkTimeouts.mp old
    exact waiting.unanswered before
  · rw [written, waiting.requests] at last
    simp [wordSize] at last

def firstActions : List HttpClientAction := [.addSession 1, .sendRequest 1 true, .advance 1, .sendRequest 1 true]

/-- One response, and as many requests after the one it is for as there are task ids. -/
theorem responses_mismatched_after_all_taskids :
    ∃ client, Run (HttpClient.Steps clientSetting) (.initial 0)
        (firstActions ++ (List.replicate (2 ^ 64 - 2) (.sendRequest 1 true) ++ [.sendRequest 1 true])) client ∧
      ¬ client.Matching clientSetting := by
  obtain ⟨client, computed, clock, idle, busy, written, responses, next, requests, absent, finished⟩ : ∃ client : HttpClient,
      firstActions.foldlM (fun before action => if before.Allowed action then before.step clientSetting action else none)
        (.initial 0) = some client ∧
      client.clock = 1 ∧ client.idle = ∅ ∧ client.busy 1 = some 1 ∧ client.written 1 = [0] ∧ client.responses 1 = 0 ∧
      client.nextTaskid = 2 ∧ client.requests = 2 ∧ client.findTask 1 = none ∧ client.finished = [.timeout 0] :=
    ⟨_, rfl, by decide, by decide, by decide, by decide, by decide, by decide, by decide, by decide, by decide⟩
  have start : Run (HttpClient.Steps clientSetting) (.initial 0) firstActions client := run_of_computed computed
  have waiting : Waiting 1 client :=
    ⟨clock, idle, busy, written, responses, next, requests, absent, by simp [finished]⟩
  obtain ⟨late, sends, waiting'⟩ := waiting.sends (2 ^ 64 - 2) (by decide)
  obtain ⟨last, stepped, wrong⟩ := Waiting.mistaken waiting'
  exact ⟨last, start.append (sends.append (.cons ⟨trivial, stepped⟩ (.done _))), wrong⟩

end Proofs
end Cassobee
