import Cassobee.HttpConnections
import Cassobee.Proofs.HttpClient

/-! When the client asks for the connections that its requests wait for. It never does, so every call of
`advance_all` has to find enough of them, or as many as there may be. -/

namespace Cassobee
open Support

/-- No call of `advance_all` leaves a request without a connection where one more is allowed. -/
def HttpConnections.Moving (maxConnections : Nat) (connections : HttpConnections) : Prop :=
  ∀ call ∈ connections.advanced, call.client.pending ≠ [] → call.client.idle = ∅ →
    call.client.checkConnectionCount maxConnections = true → call.connected = true

/-- The loop of `advance_all` finds the task of each id that it takes. -/
def HttpClient.TakesKnown (client : HttpClient) : Prop :=
  ∀ taskid ∈ client.pending.take client.idle.card, (client.checkTimeouts.findTask taskid).isSome

/-- Unless an `ASSERT` ends it, a call of `advance_all` finds a connection for every request, or the
limit is reached. -/
def HttpConnections.Served (setting : HttpClientSetting) (maxConnections : Nat) (connections : HttpConnections)
    (action : HttpClientAction) : Prop :=
  ∀ client, connections.client.handedOver setting action = some client → client.TakesKnown →
    client.pending.length ≤ client.idle.card ∨ client.checkConnectionCount maxConnections = false

namespace Proofs
variable {setting : HttpClientSetting} {maxConnections : Nat}

/-- What is handed over is what the step goes on with. -/
theorem step_of_handedOver {client handed : HttpClient} {action : HttpClientAction}
    (given : client.handedOver setting action = some handed) : client.step setting action = handed.advanceAll setting := by
  cases action with
  | sendRequest timeout keepalive =>
    cases given
    rfl
  | addSession sid =>
    cases given
    rfl
  | delSession sid =>
    cases given
    rfl
  | advance seconds => cases given
  | response sid keepalive =>
    obtain ⟨taskid, busy, rest⟩ := Option.bind_eq_some_iff.mp given
    obtain ⟨task, found, rfl⟩ := Option.map_eq_some_iff.mp rest
    have same : HttpClient.findTask { client with
        responses := Function.update client.responses sid (client.responses sid + 1)
        busy := Function.update client.busy sid none } taskid = some task := found
    simp only [HttpClient.step, HttpClient.handleResponse, busy, same]

/-- Under the connections runs the client. -/
theorem client_of_step (connections : HttpConnections) (action : HttpClientAction) :
    (connections.step setting maxConnections action).map (·.client) = connections.client.step setting action := by
  rw [HttpConnections.step]
  split
  next handed given =>
    rw [step_of_handedOver given, Option.map_map]
    exact Option.map_id'
  next =>
    rw [Option.map_map]
    exact Option.map_id'

theorem connectsAtEnd_eq (client : HttpClient) : client.connectsAtEnd maxConnections = false := by
  rw [HttpClient.connectsAtEnd, Bool.not_and_self, if_neg Bool.false_ne_true]

/-- The part of the client that the loop does not look at. -/
theorem send_kept {client after : HttpClient} {taskid sid : Nat} (sent : client.send setting taskid sid = some after) :
    after.idle = client.idle ∧ after.sessions = client.sessions ∧ after.tasks = client.tasks := by
  rcases send_cases sent with rfl | ⟨task, -, rfl⟩
  · exact ⟨rfl, rfl, rfl⟩
  · exact ⟨rfl, rfl, rfl⟩

theorem send_known {client after : HttpClient} {taskid sid : Nat} (sent : client.send setting taskid sid = some after) :
    (client.findTask taskid).isSome := by
  rw [HttpClient.send] at sent
  split at sent
  next => cases sent
  next task found => exact Option.isSome_iff_exists.mpr ⟨task, found⟩

/-- As many requests are taken as there are idle connections, and as many connections as there are
requests. -/
theorem advancePending_left {pending : List Nat} {client after : HttpClient}
    (advanced : client.advancePending setting pending = some after) :
    after.pending = pending.drop client.idle.card ∧ after.idle.card = client.idle.card - pending.length ∧
      after.sessions = client.sessions ∧ ∀ taskid ∈ pending.take client.idle.card, (client.findTask taskid).isSome := by
  induction pending generalizing client with
  | nil =>
    cases advanced
    exact ⟨List.drop_nil.symm, rfl, rfl, by simp⟩
  | cons taskid pending ih =>
    rw [HttpClient.advancePending] at advanced
    split at advanced
    next available =>
      obtain ⟨middle, sent, rest⟩ := Option.bind_eq_some_iff.mp advanced
      obtain ⟨idle, sessions, tasks⟩ := send_kept sent
      obtain ⟨left, still, same, known⟩ := ih rest
      have one : client.idle.card = middle.idle.card + 1 := by
        rw [idle, Finset.card_erase_add_one (Finset.min'_mem _ available)]
      rw [one]
      refine ⟨left, ?_, same.trans sessions, fun other member => ?_⟩
      · rw [still, List.length_cons]
        omega
      · rcases List.mem_cons.mp member with rfl | later
        · have found := send_known sent
          exact found
        · have found := known other later
          rwa [HttpClient.findTask, tasks] at found
    next empty =>
      have none : client.idle.card = 0 := Finset.card_eq_zero.mpr (Finset.not_nonempty_iff_eq_empty.mp empty)
      cases advanced
      rw [none]
      exact ⟨rfl, (Nat.zero_sub _).symm, rfl, by simp⟩

theorem advancePending_returns {pending : List Nat} {client : HttpClient}
    (known : ∀ taskid ∈ pending.take client.idle.card, (client.findTask taskid).isSome) :
    ∃ after, client.advancePending setting pending = some after := by
  induction pending generalizing client with
  | nil => exact ⟨_, rfl⟩
  | cons taskid pending ih =>
    rw [HttpClient.advancePending]
    split
    next available =>
      have one := Finset.card_erase_add_one (Finset.min'_mem _ available)
      rw [← one, List.take_succ_cons] at known
      obtain ⟨task, found⟩ := Option.isSome_iff_exists.mp (known taskid (.head _))
      obtain ⟨middle, sent⟩ : ∃ middle, HttpClient.send setting
          { client with idle := client.idle.erase (client.idle.min' available) } taskid (client.idle.min' available) = some middle :=
        send_of_found found
      obtain ⟨idle, -, tasks⟩ := send_kept sent
      have later : ∀ other ∈ pending.take middle.idle.card, (middle.findTask other).isSome := by
        intro other member
        rw [HttpClient.findTask, tasks]
        rw [idle] at member
        exact known other (.tail _ member)
      obtain ⟨after, rest⟩ := ih later
      exact ⟨after, Option.bind_eq_some_iff.mpr ⟨middle, sent, rest⟩⟩
    next => exact ⟨_, rfl⟩

/-- A call that returns leaves a request without a connection exactly if there were too few. -/
theorem advanceAll_left (maxConnections : Nat) {client after : HttpClient} (advanced : client.advanceAll setting = some after) :
    client.TakesKnown ∧ after.checkConnectionCount maxConnections = client.checkConnectionCount maxConnections ∧
      (after.pending ≠ [] ∧ after.idle = ∅ ↔ ¬ client.pending.length ≤ client.idle.card) := by
  obtain ⟨left, idle, sessions, known⟩ := advancePending_left advanced
  refine ⟨known, ?_, ?_⟩
  · rw [HttpClient.checkConnectionCount, sessions]
    rfl
  · have card : client.checkTimeouts.idle = client.idle := rfl
    rw [card] at left idle
    rw [left, ne_eq, List.drop_eq_nil_iff, ← Finset.card_eq_zero, idle]
    omega

section
variable {connections after : HttpConnections} {action : HttpClientAction}

/-- A step that calls `advance_all`, or one that does not. -/
theorem connections_step_cases (stepped : connections.step setting maxConnections action = some after) :
    (∃ handed, connections.client.handedOver setting action = some handed ∧ handed.advanceAll setting = some after.client ∧
      after.advanced = ⟨after.client, false⟩ :: connections.advanced) ∨
    (connections.client.handedOver setting action = none ∧ after.advanced = connections.advanced) := by
  rw [HttpConnections.step] at stepped
  split at stepped
  next handed given =>
    obtain ⟨client, advanced, rfl⟩ := Option.map_eq_some_iff.mp stepped
    rw [connectsAtEnd_eq]
    exact .inl ⟨handed, given, advanced, rfl⟩
  next given =>
    obtain ⟨client, -, rfl⟩ := Option.map_eq_some_iff.mp stepped
    exact .inr ⟨given, rfl⟩

theorem moving_step (moving : connections.Moving maxConnections) (served : connections.Served setting maxConnections action)
    (stepped : connections.step setting maxConnections action = some after) : after.Moving maxConnections := by
  rcases connections_step_cases stepped with ⟨handed, given, advanced, calls⟩ | ⟨-, calls⟩
  · intro call member waits empty allowed
    rw [calls] at member
    rcases List.mem_cons.mp member with rfl | old
    · obtain ⟨known, count, left⟩ := advanceAll_left maxConnections advanced
      rcases served handed given known with enough | full
      · exact absurd enough (left.mp ⟨waits, empty⟩)
      · rw [← count, allowed] at full
        cases full
    · exact moving call old waits empty allowed
  · rwa [HttpConnections.Moving, calls]

theorem served_of_moving (every : ∀ after, connections.step setting maxConnections action = some after → after.Moving maxConnections) :
    connections.Served setting maxConnections action := by
  intro handed given known
  by_contra neither
  obtain ⟨few, allowed⟩ := not_or.mp neither
  obtain ⟨client, advanced⟩ : ∃ client, handed.advanceAll setting = some client := advancePending_returns known
  obtain ⟨-, count, left⟩ := advanceAll_left maxConnections advanced
  obtain ⟨waits, empty⟩ := left.mpr few
  have stepped : connections.step setting maxConnections action =
      some ⟨client, ⟨client, client.connectsAtEnd maxConnections⟩ :: connections.advanced⟩ := by
    rw [HttpConnections.step, given]
    exact congrArg (Option.map _) advanced
  have connected := every _ stepped _ (.head _) waits empty (by rw [count]; simpa using allowed)
  rw [connectsAtEnd_eq] at connected
  cases connected

end

/-- The client keeps moving exactly while nothing needs a new connection that it may open. -/
theorem moving_iff (setting : HttpClientSetting) (maxConnections : Nat) (now : Int) (actions : List HttpClientAction) :
    Throughout (HttpConnections.step setting maxConnections) (HttpConnections.Moving maxConnections) (.initial now) actions ↔
      EachStep (HttpConnections.step setting maxConnections) (HttpConnections.Served setting maxConnections) (.initial now) actions := by
  have start : (HttpConnections.initial now).Moving maxConnections := by
    intro call member
    cases member
  exact throughout_iff_eachStep id moving_step (fun _ every => served_of_moving every) start

/-- The first request of a client that has no session and no limit opens no connection. -/
theorem first_request_unserved : ¬ Throughout (HttpConnections.step ⟨30, fun _ => true⟩ 0) (HttpConnections.Moving 0) (.initial 0)
    [.sendRequest 5 true] := by
  intro every
  have moving := every.2 _ rfl
  have connected := moving _ (.head _) (by decide) (by decide) (by decide)
  cases connected

end Proofs
end Cassobee
