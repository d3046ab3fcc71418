import Cassobee.Relay
import Cassobee.Support.Run

/-! What a proxy answers. The last thing that has come about under a trace id says what `_rpcs` holds
there: a request that was sent on and not answered yet, with the session and the trace id it came
with. -/

namespace Cassobee
open Support

variable {δ : Type}

def RelayEvent.traceid : RelayEvent δ → Nat
  | .relayed traceid _ | .called traceid | .answered traceid => traceid

/-- The trace id under which a request has been sent on. -/
def RelayEvent.issued : RelayEvent δ → Option Nat
  | .relayed traceid _ | .called traceid => some traceid
  | .answered _ => none

/-- Requests come on a session, with a trace id that their caller has given them. -/
def RelayAction.FromSession : RelayAction δ → Prop
  | .call .. => True
  | .receive packet _ _ => packet.isServer = false → 1 ≤ packet.src ∧ 1 ≤ packet.traceid

def RelayAction.isRequest : RelayAction δ → Bool
  | .call .. => true
  | .receive packet _ _ => !packet.isServer

/-- The request that waits for an answer under the trace id. -/
def Relay.waiting (relay : Relay δ) (traceid : Nat) : Option (Packet Nat δ) :=
  match relay.log.find? fun event => event.traceid = traceid with
  | some (.relayed _ request) => some request
  | _ => none

/-- The answer to the request goes to the session it came from, with its own trace id. -/
def Packet.reply (request response : Packet Nat δ) : Packet Nat δ :=
  ⟨0, request.src, request.type, request.traceid, true, response.data⟩

/-- Trace ids are given out once. A response is passed on to the caller of the request that waits for
it, and nothing is sent where none does; a request is sent on under a trace id that is new. -/
structure RelaysRight (stubs : RpcStubs Nat δ) (relay : Relay δ) : Prop where
  distinct : (relay.log.filterMap RelayEvent.issued).Nodup
  response {packet : Packet Nat δ} (role : packet.isServer = true) (known : (stubs.find packet.type).isSome)
    (result : δ) (backend : Nat) : ∃ after, relay.step stubs (.receive packet result backend) =
      some (after, ((relay.waiting packet.traceid).map fun request => request.reply packet).toList)
  request {packet : Packet Nat δ} (role : packet.isServer = false) (known : (stubs.find packet.type).isSome)
    (session : 1 ≤ packet.src ∧ 1 ≤ packet.traceid) (result : δ) (backend : Nat) : ∃ after traceid, relay.step stubs (.receive packet result backend) =
      some (after, [⟨0, backend, packet.type, traceid, false, packet.data⟩]) ∧ after.log = .relayed traceid packet :: relay.log

namespace Proofs

/-- The newest event under a trace id, and what `_rpcs` holds there. -/
def Matches : Option (RelayEvent δ) → Option (Rpc Nat δ) → Prop
  | some (.relayed _ request), some rpc => rpc.proxyTraceid = request.traceid ∧ rpc.sid = some request.src ∧
      rpc.type = request.type ∧ 1 ≤ request.src ∧ 1 ≤ request.traceid
  | some (.called _), some rpc => rpc.proxyTraceid = 0
  | some (.answered _), none => True
  | none, none => True
  | _, _ => False

structure Relaying (relay : Relay δ) : Prop where
  distinct : (relay.log.filterMap RelayEvent.issued).Nodup
  bound {traceid : Nat} (issued : traceid ∈ relay.log.filterMap RelayEvent.issued) : traceid ≤ relay.table.nextTraceid
  table (traceid : Nat) : Matches (relay.log.find? fun event => event.traceid = traceid) (relay.table.rpcs traceid)

theorem relaying_initial : Relaying (Relay.initial : Relay δ) :=
  ⟨.nil, by simp [Relay.initial], fun _ => trivial⟩

theorem issued_of_held {event : Option (RelayEvent δ)} {rpc : Rpc Nat δ} (held : Matches event (some rpc)) :
    ∃ found traceid, event = some found ∧ found.issued = some traceid ∧ found.traceid = traceid := by
  match event, held with
  | some (.relayed traceid request), _ => exact ⟨_, traceid, rfl, rfl, rfl⟩
  | some (.called traceid), _ => exact ⟨_, traceid, rfl, rfl, rfl⟩

namespace Relaying
variable {relay after : Relay δ} {sent : List (Packet Nat δ)} {stubs : RpcStubs Nat δ}

/-- Only a trace id that was given out is held. -/
theorem held_le (relaying : Relaying relay) {traceid : Nat} {rpc : Rpc Nat δ} (held : relay.table.rpcs traceid = some rpc) :
    traceid ≤ relay.table.nextTraceid := by
  have now := relaying.table traceid
  rw [held] at now
  obtain ⟨event, _, found, issued, same⟩ := issued_of_held now
  have matched := List.find?_some found
  rw [decide_eq_true_eq] at matched
  apply relaying.bound
  refine List.mem_filterMap.mpr ⟨event, List.mem_of_find?_eq_some found, ?_⟩
  rw [issued, ← same, matched]

theorem free_next (relaying : Relaying relay) : relay.table.rpcs (relay.table.nextTraceid + 1) = none := by
  cases held : relay.table.rpcs (relay.table.nextTraceid + 1) with
  | none => rfl
  | some rpc =>
    have := relaying.held_le held
    omega

/-- A request is registered under the next trace id. -/
theorem request (relaying : Relaying relay) (few : relay.table.nextTraceid + 1 < wordSize) (rpc : Rpc Nat δ) (isProxy : Bool)
    (backend : Nat) (event : Nat → RelayEvent δ) (issues : ∀ traceid, (event traceid).issued = some traceid)
    (about : ∀ traceid, (event traceid).traceid = traceid)
    (stored : ∀ traceid, Matches (some (event traceid)) (some { rpc with
      proxyTraceid := if isProxy then rpc.traceid else rpc.proxyTraceid, traceid, isServer := false }))
    {data : δ} (argument : rpc.argument = some data) :
    ∃ after, relay.request rpc isProxy backend event =
        some (after, [⟨0, backend, rpc.type, relay.table.nextTraceid + 1, false, data⟩]) ∧
      Relaying after ∧ after.log = event (relay.table.nextTraceid + 1) :: relay.log ∧
      after.table.nextTraceid = relay.table.nextTraceid + 1 := by
  have wrapped : (relay.table.nextTraceid + 1) % wordSize = relay.table.nextTraceid + 1 := Nat.mod_eq_of_lt few
  obtain ⟨set, set_eq⟩ : ∃ set, set = relay.table.setRequest rpc isProxy := ⟨_, rfl⟩
  have next : set.1.nextTraceid = relay.table.nextTraceid + 1 := by
    rw [set_eq]
    exact wrapped
  have registered : set.2 = { rpc with
      proxyTraceid := if isProxy then rpc.traceid else rpc.proxyTraceid
      traceid := relay.table.nextTraceid + 1, isServer := false } := by
    simp only [set_eq, RpcTable.setRequest, wrapped]
  have held : set.1.rpcs = Function.update relay.table.rpcs (relay.table.nextTraceid + 1) (some set.2) := by
    rw [registered]
    simp only [set_eq, RpcTable.setRequest, wrapped, relaying.free_next]
  refine ⟨⟨set.1, event (relay.table.nextTraceid + 1) :: relay.log⟩, ?_, ⟨?_, ?_, ?_⟩, rfl, next⟩
  · have traceid : set.2.traceid = relay.table.nextTraceid + 1 := by rw [registered]
    have packed : set.2.pack 0 backend = some ⟨0, backend, rpc.type, relay.table.nextTraceid + 1, false, data⟩ := by
      simp [registered, Rpc.pack, argument]
    rw [Relay.request, ← set_eq]
    simp only [packed, traceid, Option.bind_eq_bind, Option.bind_some, Option.pure_def]
  · rw [List.filterMap_cons_some (issues _), List.nodup_cons]
    refine ⟨fun again => ?_, relaying.distinct⟩
    have := relaying.bound again
    omega
  · intro traceid issued
    rw [List.filterMap_cons_some (issues _), List.mem_cons] at issued
    rw [next]
    rcases issued with rfl | before
    · exact le_rfl
    · exact (relaying.bound before).trans (Nat.le_succ _)
  · intro traceid
    simp only [held]
    by_cases same : traceid = relay.table.nextTraceid + 1
    · subst same
      rw [List.find?_cons_of_pos (by simp [about]), Function.update_self, registered]
      exact stored _
    · rw [List.find?_cons_of_neg (by simpa [about] using Ne.symm same), Function.update_of_ne same]
      exact relaying.table traceid

/-- A request that has been received. -/
theorem receive (relaying : Relaying relay) (few : relay.table.nextTraceid + 1 < wordSize) {packet : Packet Nat δ}
    (role : packet.isServer = false) (known : (stubs.find packet.type).isSome) (session : 1 ≤ packet.src ∧ 1 ≤ packet.traceid)
    (result : δ) (backend : Nat) :
    ∃ after, relay.step stubs (.receive packet result backend) =
        some (after, [⟨0, backend, packet.type, relay.table.nextTraceid + 1, false, packet.data⟩]) ∧
      Relaying after ∧ after.log = .relayed (relay.table.nextTraceid + 1) packet :: relay.log ∧
      after.table.nextTraceid = relay.table.nextTraceid + 1 := by
  obtain ⟨stub, found⟩ := Option.isSome_iff_exists.mp known
  have type := stubs.type found
  simp only [Relay.step, found, Rpc.unpack, role, Bool.not_false, if_true]
  rw [← type]
  apply relaying.request few
  · exact fun _ => rfl
  · exact fun _ => rfl
  · exact fun _ => ⟨rfl, rfl, type, session⟩
  · rfl

theorem answer (relaying : Relaying relay) {packet : Packet Nat δ} (role : packet.isServer = true)
    (known : (stubs.find packet.type).isSome) (result : δ) (backend : Nat) :
    ∃ after, relay.step stubs (.receive packet result backend) =
        some (after, ((relay.waiting packet.traceid).map fun request => request.reply packet).toList) ∧
      Relaying after ∧ after.table.nextTraceid = relay.table.nextTraceid := by
  obtain ⟨stub, found⟩ := Option.isSome_iff_exists.mp known
  have now := relaying.table packet.traceid
  have kept {table : RpcTable Nat δ} (next : table.nextTraceid = relay.table.nextTraceid)
      (gone : table.rpcs packet.traceid = none) (others : ∀ t, t ≠ packet.traceid → table.rpcs t = relay.table.rpcs t) :
      Relaying ⟨table, .answered packet.traceid :: relay.log⟩ := by
    refine ⟨?_, ?_, ?_⟩
    · rw [List.filterMap_cons_none rfl]
      exact relaying.distinct
    · intro traceid issued
      rw [List.filterMap_cons_none rfl] at issued
      rw [next]
      exact relaying.bound issued
    · intro traceid
      by_cases same : traceid = packet.traceid
      · subst same
        rw [List.find?_cons_of_pos (by simp [RelayEvent.traceid]), gone]
        trivial
      · rw [List.find?_cons_of_neg (by simp [RelayEvent.traceid, Ne.symm same]), others traceid same]
        exact relaying.table traceid
  simp only [Relay.step, found, Rpc.unpack, role, Bool.not_true, Bool.false_eq_true, if_false]
  cases held : relay.table.rpcs packet.traceid with
  | none =>
    rw [held] at now
    refine ⟨⟨relay.table, .answered packet.traceid :: relay.log⟩, ?_, kept rfl held (fun _ _ => rfl), rfl⟩
    have silent : relay.waiting packet.traceid = none := by
      rw [Relay.waiting]
      split
      next request last =>
        rw [last] at now
        cases now
      next => rfl
    simp [Relay.runClient, RpcTable.take, held, silent]
  | some prpc =>
    rw [held] at now
    refine ⟨⟨{ relay.table with rpcs := Function.update relay.table.rpcs packet.traceid none }, .answered packet.traceid :: relay.log⟩,
      ?_, kept rfl (Function.update_self ..) (fun _ different => Function.update_of_ne different _ _), rfl⟩
    cases last : relay.log.find? fun event => event.traceid = packet.traceid with
    | none =>
      rw [last] at now
      cases now
    | some event =>
      rw [last] at now
      cases event with
      | answered traceid => cases now
      | called traceid =>
        have own : prpc.proxyTraceid = 0 := now
        have silent : relay.waiting packet.traceid = none := by rw [Relay.waiting, last]
        simp [Relay.runClient, RpcTable.take, held, own, silent]
      | relayed traceid request =>
        obtain ⟨proxy, sid, type, session, given⟩ := now
        obtain ⟨number, src⟩ : ∃ number, request.src = number + 1 := ⟨request.src - 1, by omega⟩
        have positive : request.traceid ≠ 0 := by omega
        have waits : relay.waiting packet.traceid = some request := by rw [Relay.waiting, last]
        simp [Relay.runClient, RpcTable.take, held, positive, waits, Rpc.clrRequest, sid, src, Rpc.pack, Packet.reply, proxy, type]

theorem call (relaying : Relaying relay) (few : relay.table.nextTraceid + 1 < wordSize) {rpc : Rpc Nat δ} {backend : Nat}
    (stepped : relay.step stubs (.call rpc backend) = some (after, sent)) :
    Relaying after ∧ after.table.nextTraceid = relay.table.nextTraceid + 1 := by
  cases argument : rpc.argument with
  | none => simp [Relay.step, Relay.request, RpcTable.setRequest, Rpc.pack, argument] at stepped
  | some data =>
    obtain ⟨after', called, relaying', -, next⟩ := relaying.request few
      { rpc with proxyTraceid := 0, result := none, sid := none } false backend .called (fun _ => rfl) (fun _ => rfl)
      (fun _ => rfl) argument
    have same := called.symm.trans stepped
    simp only [Option.some.injEq, Prod.mk.injEq] at same
    rw [← same.1]
    exact ⟨relaying', next⟩

theorem step (relaying : Relaying relay) {action : RelayAction δ} (fromSession : action.FromSession)
    (few : relay.table.nextTraceid + action.isRequest.toNat < wordSize) (stepped : relay.step stubs action = some (after, sent)) :
    Relaying after ∧ after.table.nextTraceid ≤ relay.table.nextTraceid + action.isRequest.toNat := by
  cases action with
  | call rpc backend =>
    obtain ⟨relaying', next⟩ := relaying.call few stepped
    exact ⟨relaying', next.le⟩
  | receive packet result backend =>
    cases known : (stubs.find packet.type).isSome with
    | false =>
      rw [Option.isSome_eq_false_iff, Option.isNone_iff_eq_none] at known
      simp only [Relay.step, known, Option.some.injEq, Prod.mk.injEq] at stepped
      rw [← stepped.1]
      exact ⟨relaying, Nat.le_add_right _ _⟩
    | true =>
      cases role : packet.isServer with
      | false =>
        simp only [RelayAction.isRequest, role, Bool.not_false, Bool.toNat_true] at few ⊢
        obtain ⟨after', relayed, relaying', -, next⟩ := relaying.receive few role known (fromSession role) result backend
        have same := relayed.symm.trans stepped
        simp only [Option.some.injEq, Prod.mk.injEq] at same
        rw [← same.1]
        exact ⟨relaying', next.le⟩
      | true =>
        obtain ⟨after', answered, relaying', next⟩ := relaying.answer role known result backend
        have same := answered.symm.trans stepped
        simp only [Option.some.injEq, Prod.mk.injEq] at same
        rw [← same.1]
        exact ⟨relaying', next.le.trans (Nat.le_add_right _ _)⟩

theorem run {before : Relay δ} {actions : List (RelayAction δ)}
    (ran : Run (fun before action after => ∃ sent, Relay.step stubs before action = some (after, sent)) before actions after)
    (relaying : Relaying before) (fromSessions : ∀ action ∈ actions, action.FromSession)
    (few : before.table.nextTraceid + actions.countP RelayAction.isRequest < wordSize) :
    Relaying after ∧ after.table.nextTraceid ≤ before.table.nextTraceid + actions.countP RelayAction.isRequest := by
  induction ran with
  | done => exact ⟨relaying, le_rfl⟩
  | @cons before middle after action actions first rest ih =>
    obtain ⟨sent, stepped⟩ := first
    have counted : (action :: actions).countP RelayAction.isRequest =
        action.isRequest.toNat + actions.countP RelayAction.isRequest := by
      cases request : action.isRequest <;> simp [request, Nat.add_comm]
    rw [counted] at few ⊢
    obtain ⟨relaying', next⟩ := relaying.step (fromSessions action (.head _)) (by omega) stepped
    obtain ⟨final, next'⟩ := ih relaying' (fun other member => fromSessions other (.tail _ member)) (by omega)
    exact ⟨final, by omega⟩

end Relaying

/-- Whatever the sessions and the back ends do, in whatever order. -/
theorem relays_right (stubs : RpcStubs Nat δ) {relay : Relay δ} {actions : List (RelayAction δ)}
    (ran : Run (fun before action after => ∃ sent, Relay.step stubs before action = some (after, sent)) .initial actions relay)
    (fromSessions : ∀ action ∈ actions, action.FromSession) (few : actions.countP RelayAction.isRequest + 1 < 2 ^ 64) :
    RelaysRight stubs relay := by
  have small : (Relay.initial : Relay δ).table.nextTraceid + actions.countP RelayAction.isRequest + 1 < wordSize := by
    simpa [Relay.initial, RpcTable.new, wordSize] using few
  obtain ⟨relaying, next⟩ := relaying_initial.run ran fromSessions (by omega)
  refine ⟨relaying.distinct, fun {packet} role known result backend => ?_, fun {packet} role known session result backend => ?_⟩
  · obtain ⟨after, answered, -⟩ := relaying.answer role known result backend
    exact ⟨after, answered⟩
  · obtain ⟨after, relayed, -, log, -⟩ := relaying.receive (by omega) role known session result backend
    exact ⟨after, _, relayed, log⟩

/-- One class, number 1. -/
def relayStub : Rpc Nat Nat := ⟨1, 30, 0, 0, false, some 0, some 0, none⟩

def relayStubs : RpcStubs Nat Nat where
  find id := if id = 1 then some relayStub else none
  type {id stub} found := by
    split at found
    next same =>
      cases found
      exact same.symm
    next => cases found

/-- The trace ids are words, so a process gives out no more than there are. -/
theorem few_issued {relay : Relay δ} (words : ∀ traceid ∈ relay.log.filterMap RelayEvent.issued, traceid < wordSize)
    (distinct : (relay.log.filterMap RelayEvent.issued).Nodup) : (relay.log.filterMap RelayEvent.issued).length ≤ wordSize := by
  have within : relay.log.filterMap RelayEvent.issued ⊆ List.range wordSize :=
    fun traceid issued => List.mem_range.mpr (words traceid issued)
  simpa using (distinct.subperm within).length_le

def repeated : RelayAction Nat := .receive ⟨1, 0, 1, 7, false, 10⟩ 0 9

theorem run_repeated (count : Nat) (before : Relay Nat)
    (words : ∀ traceid ∈ before.log.filterMap RelayEvent.issued, traceid < wordSize) :
    ∃ after, Run (fun before action after => ∃ sent, Relay.step relayStubs before action = some (after, sent)) before
        (List.replicate count repeated) after ∧
      (after.log.filterMap RelayEvent.issued).length = (before.log.filterMap RelayEvent.issued).length + count ∧
      ∀ traceid ∈ after.log.filterMap RelayEvent.issued, traceid < wordSize := by
  induction count generalizing before with
  | zero => exact ⟨before, .done _, rfl, words⟩
  | succ count ih =>
    obtain ⟨next, sent, stepped, log⟩ : ∃ next sent, before.step relayStubs repeated = some (next, sent) ∧
        next.log = .relayed ((before.table.nextTraceid + 1) % wordSize) ⟨1, 0, 1, 7, false, 10⟩ :: before.log := ⟨_, _, rfl, rfl⟩
    have issued : next.log.filterMap RelayEvent.issued =
        (before.table.nextTraceid + 1) % wordSize :: before.log.filterMap RelayEvent.issued := by
      simp [log, RelayEvent.issued]
    obtain ⟨after, rest, length, bounded⟩ := ih next (by
      rw [issued]
      intro traceid member
      rcases List.mem_cons.mp member with rfl | old
      · exact Nat.mod_lt _ (by simp [wordSize])
      · exact words traceid old)
    refine ⟨after, .cons ⟨sent, stepped⟩ rest, ?_, bounded⟩
    rw [length, issued, List.length_cons]
    omega

/-- The counter starts again when it has given out every word. -/
theorem relays_wrong_after_all_traceids :
    ∃ relay, Run (fun before action after => ∃ sent, Relay.step relayStubs before action = some (after, sent)) .initial
        (List.replicate (2 ^ 64 + 1) repeated) relay ∧
      repeated.FromSession ∧ ¬ RelaysRight relayStubs relay := by
  obtain ⟨relay, ran, length, words⟩ := run_repeated (2 ^ 64 + 1) .initial (by simp [Relay.initial])
  refine ⟨relay, ran, by simp [RelayAction.FromSession, repeated], fun right => ?_⟩
  have most := few_issued words right.distinct
  simp only [length, Relay.initial, List.filterMap_nil, List.length_nil, wordSize] at most
  omega

/-- Two sessions send a request with the same trace id, and the second one is answered first, twice. -/
def relayActions : List (RelayAction Nat) :=
  [.receive ⟨1, 0, 1, 7, false, 10⟩ 0 9, .receive ⟨2, 0, 1, 7, false, 20⟩ 0 9, .receive ⟨9, 0, 1, 2, true, 21⟩ 0 9,
    .receive ⟨9, 0, 1, 2, true, 22⟩ 0 9]

theorem relays_right_of_two :
    ∃ relay, Run (fun before action after => ∃ sent, Relay.step relayStubs before action = some (after, sent)) .initial
        relayActions relay ∧
      RelaysRight relayStubs relay ∧ relay.waiting 2 = none ∧ relay.waiting 1 = some ⟨1, 0, 1, 7, false, 10⟩ := by
  obtain ⟨relay, computed, answered, waits⟩ : ∃ relay, relayActions.foldlM
      (fun before action => (Relay.step relayStubs before action).map Prod.fst) .initial = some relay ∧
      relay.waiting 2 = none ∧ relay.waiting 1 = some ⟨1, 0, 1, 7, false, 10⟩ := ⟨_, rfl, by decide, by decide⟩
  have ran : Run (fun before action after => ∃ sent, Relay.step relayStubs before action = some (after, sent)) .initial
      relayActions relay := (Run.of_foldlM computed).mono fun stepped => by
    obtain ⟨⟨after, sent⟩, done, rfl⟩ := Option.map_eq_some_iff.mp stepped
    exact ⟨sent, done⟩
  refine ⟨relay, ran, relays_right relayStubs ran ?_ (by decide), answered, waits⟩
  simp [relayActions, RelayAction.FromSession]

end Proofs
end Cassobee
