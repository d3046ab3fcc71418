import Cassobee.Rpc
import Cassobee.Support.Run

/-! Which response reaches which call. A trace id is given out once in a process, so whatever comes
back under it answers the request that went out under it; and whoever takes the call out of `_rpcs`
first, a response or a timer, is the only one to find it there. -/

namespace Cassobee
open Support

variable {π δ : Type}

namespace RpcEvent
variable [DecidableEq π]

def registers (process : π) (traceid : Nat) : RpcEvent π δ → Bool
  | .registered at_ rpc => at_ = process ∧ rpc.traceid = traceid
  | _ => false

/-- `do_client` or `do_timeout` of the call. -/
def ends (process : π) (traceid : Nat) : RpcEvent π δ → Bool
  | .client at_ rpc => at_ = process ∧ rpc.traceid = traceid
  | .timeout at_ rpc => at_ = process ∧ rpc.traceid = traceid
  | _ => false

end RpcEvent

/-- `server()` returns false. -/
def RpcAction.plain : RpcAction π δ → Bool
  | .deliver _ _ more => !more
  | _ => true

def RpcAction.isCall : RpcAction π δ → Bool
  | .call .. => true
  | _ => false

/-- A server has run on this call's argument, for this process, and has left this result. -/
def Answered (log : List (RpcEvent π δ)) (process : π) (call : Rpc π δ) (result : Option δ) : Prop :=
  ∃ server rpc, .served server rpc ∈ log ∧ rpc.sid = some process ∧ rpc.traceid = call.traceid ∧
    rpc.type = call.type ∧ rpc.argument = call.argument ∧ rpc.result = result

theorem Answered.cons {log : List (RpcEvent π δ)} {process : π} {call : Rpc π δ} {result : Option δ}
    (answered : Answered log process call result) (event : RpcEvent π δ) :
    Answered (event :: log) process call result := by
  obtain ⟨server, rpc, logged, rest⟩ := answered
  exact ⟨server, rpc, .tail _ logged, rest⟩

/-- Every call is registered once and has at most one of `do_client` and `do_timeout` run on it,
after which `_rpcs` holds it no more. -/
def CallsEndOnce [DecidableEq π] (system : RpcSystem π δ) : Prop :=
  ∀ process traceid, system.log.countP (RpcEvent.registers process traceid) ≤ 1 ∧
    system.log.countP (RpcEvent.ends process traceid) ≤ 1 ∧
    (0 < system.log.countP (RpcEvent.ends process traceid) → (system.tables process).rpcs traceid = none)

/-- `do_client` gets the argument of the call with a result that a server made from it. -/
def ClientsAnswered (system : RpcSystem π δ) : Prop :=
  ∀ process rpc, .client process rpc ∈ system.log → ∃ call, .registered process call ∈ system.log ∧
    rpc.traceid = call.traceid ∧ rpc.type = call.type ∧ rpc.argument = call.argument ∧
    Answered system.log process call rpc.result

namespace Proofs

variable [DecidableEq π]

structure Sound (system : RpcSystem π δ) : Prop where
  known {process call} (logged : .registered process call ∈ system.log) :
    call.traceid ≤ (system.tables process).nextTraceid ∧ call.proxyTraceid = 0 ∧ call.isServer = false
  once process traceid : system.log.countP (RpcEvent.registers process traceid) ≤ 1
  held {process traceid call} (stored : (system.tables process).rpcs traceid = some call) :
    call.traceid = traceid ∧ .registered process call ∈ system.log ∧
      system.log.countP (RpcEvent.ends process traceid) = 0
  ended process traceid : system.log.countP (RpcEvent.ends process traceid) ≤ 1
  fresh {process traceid} (later : (system.tables process).nextTraceid < traceid) :
    system.log.countP (RpcEvent.ends process traceid) = 0
  request {packet} (flying : packet ∈ system.network) (role : packet.isServer = false) :
    ∃ call, .registered packet.src call ∈ system.log ∧ call.traceid = packet.traceid ∧ call.type = packet.type ∧
      call.argument = some packet.data
  response {packet} (flying : packet ∈ system.network) (role : packet.isServer = true) :
    ∃ call, .registered packet.dst call ∈ system.log ∧ call.traceid = packet.traceid ∧
      Answered system.log packet.dst call (some packet.data)
  paired {process rpc} (logged : .client process rpc ∈ system.log) :
    ∃ call, .registered process call ∈ system.log ∧ rpc.traceid = call.traceid ∧ rpc.type = call.type ∧
      rpc.argument = call.argument ∧ Answered system.log process call rpc.result

private theorem eq_of_countP_le_one {α : Type} {p : α → Bool} {events : List α} (once : events.countP p ≤ 1)
    {a b : α} (one : a ∈ events) (two : b ∈ events) (first : p a) (second : p b) : a = b := by
  induction events with
  | nil => cases one
  | cons event events ih =>
    rw [List.countP_cons] at once
    have none_left (counted : p event) {c : α} (member : c ∈ events) : ¬ p c := by
      rw [if_pos counted] at once
      exact List.countP_eq_zero.mp (by omega) c member
    cases one with
    | head =>
      cases two with
      | head => rfl
      | tail _ later => exact absurd second (none_left first later)
    | tail _ earlier =>
      cases two with
      | head => exact absurd first (none_left second earlier)
      | tail _ later => exact ih (by omega) earlier later

theorem Sound.unique {system : RpcSystem π δ} (sound : Sound system) {process : π} {one two : Rpc π δ}
    (first : .registered process one ∈ system.log) (second : .registered process two ∈ system.log)
    (same : one.traceid = two.traceid) : one = two := by
  have equal := eq_of_countP_le_one (sound.once process two.traceid) first second
    (by simp [RpcEvent.registers, same]) (by simp [RpcEvent.registers])
  simpa using equal

/-- What is logged behind an event was there before it. -/
theorem Sound.requestBehind {system : RpcSystem π δ} (sound : Sound system) (event : RpcEvent π δ) {packet : Packet π δ}
    (flying : packet ∈ system.network) (role : packet.isServer = false) :
    ∃ call, .registered packet.src call ∈ event :: system.log ∧ call.traceid = packet.traceid ∧ call.type = packet.type ∧
      call.argument = some packet.data := by
  obtain ⟨call, logged, rest⟩ := sound.request flying role
  exact ⟨call, .tail _ logged, rest⟩

theorem Sound.responseBehind {system : RpcSystem π δ} (sound : Sound system) (event : RpcEvent π δ) {packet : Packet π δ}
    (flying : packet ∈ system.network) (role : packet.isServer = true) :
    ∃ call, .registered packet.dst call ∈ event :: system.log ∧ call.traceid = packet.traceid ∧
      Answered (event :: system.log) packet.dst call (some packet.data) := by
  obtain ⟨call, logged, same, answered⟩ := sound.response flying role
  exact ⟨call, .tail _ logged, same, answered.cons _⟩

theorem Sound.pairedBehind {system : RpcSystem π δ} (sound : Sound system) (event : RpcEvent π δ) {process : π} {rpc : Rpc π δ}
    (logged : .client process rpc ∈ system.log) :
    ∃ call, .registered process call ∈ event :: system.log ∧ rpc.traceid = call.traceid ∧ rpc.type = call.type ∧
      rpc.argument = call.argument ∧ Answered (event :: system.log) process call rpc.result := by
  obtain ⟨call, registered, same, type, argument, answered⟩ := sound.paired logged
  exact ⟨call, .tail _ registered, same, type, argument, answered.cons _⟩

theorem initial_sound : Sound (RpcSystem.initial : RpcSystem π δ) := by
  refine ⟨?_, ?_, ?_, ?_, ?_, ?_, ?_, ?_⟩ <;> simp [RpcSystem.initial, RpcTable.new]

/-! ## What a step does to the state -/

theorem Sound.serve {system : RpcSystem π δ} (sound : Sound system) (process : π) (rpc : Rpc π δ) :
    Sound { system with log := .served process rpc :: system.log } := by
  refine ⟨?_, ?_, ?_, ?_, ?_, ?_, ?_, ?_⟩
  · intro process' call logged
    exact sound.known (by simpa using logged)
  · intro process' traceid
    simpa [RpcEvent.registers] using sound.once process' traceid
  · intro process' traceid call stored
    obtain ⟨same, logged, open_⟩ := sound.held stored
    exact ⟨same, .tail _ logged, by simpa [RpcEvent.ends] using open_⟩
  · intro process' traceid
    simpa [RpcEvent.ends] using sound.ended process' traceid
  · intro process' traceid later
    simpa [RpcEvent.ends] using sound.fresh later
  · exact fun flying role => sound.requestBehind _ flying role
  · exact fun flying role => sound.responseBehind _ flying role
  · exact fun logged => sound.pairedBehind _ (by simpa using logged)

theorem Sound.put {system : RpcSystem π δ} (sound : Sound system) {packet : Packet π δ}
    (request : packet.isServer = false → ∃ call, .registered packet.src call ∈ system.log ∧
      call.traceid = packet.traceid ∧ call.type = packet.type ∧ call.argument = some packet.data)
    (response : packet.isServer = true → ∃ call, .registered packet.dst call ∈ system.log ∧
      call.traceid = packet.traceid ∧ Answered system.log packet.dst call (some packet.data)) :
    Sound { system with network := packet :: system.network } := by
  refine ⟨sound.known, sound.once, sound.held, sound.ended, sound.fresh, ?_, ?_, sound.paired⟩
  · intro other flying role
    cases flying with
    | head => exact request role
    | tail _ older => exact sound.request older role
  · intro other flying role
    cases flying with
    | head => exact response role
    | tail _ older => exact sound.response older role

theorem Sound.lose {system : RpcSystem π δ} [DecidableEq δ] (sound : Sound system) (packet : Packet π δ) :
    Sound { system with network := system.network.erase packet } :=
  ⟨sound.known, sound.once, sound.held, sound.ended, sound.fresh,
    fun flying => sound.request (List.mem_of_mem_erase flying),
    fun flying => sound.response (List.mem_of_mem_erase flying), sound.paired⟩

/-- Taking a call out of `_rpcs` is what allows it to end. -/
theorem Sound.conclude {system : RpcSystem π δ} (sound : Sound system) {process : π} {traceid : Nat}
    {call : Rpc π δ} (stored : (system.tables process).rpcs traceid = some call) {event : RpcEvent π δ}
    (silent : ∀ process traceid, event.registers process traceid = false)
    (ending : ∀ process' traceid', event.ends process' traceid' = true → process' = process ∧ traceid' = traceid)
    (paired : ∀ {process' rpc}, .client process' rpc = event → process' = process ∧ rpc.traceid = call.traceid ∧
      rpc.type = call.type ∧ rpc.argument = call.argument ∧ Answered system.log process call rpc.result)
    {table : RpcTable π δ} (took : table = { system.tables process with
      rpcs := Function.update (system.tables process).rpcs traceid none }) :
    Sound { system with tables := Function.update system.tables process table, log := event :: system.log } := by
  have counter process' : (Function.update system.tables process table process').nextTraceid =
      (system.tables process').nextTraceid := by
    by_cases here : process' = process
    · subst here
      simp [took]
    · simp [here]
  have older {process' other} (logged : .registered process' other ∈ event :: system.log) :
      .registered process' other ∈ system.log := by
    cases logged with
    | head => simp [RpcEvent.registers] at silent
    | tail _ older => exact older
  obtain ⟨trace, registered, open_⟩ := sound.held stored
  refine ⟨?_, ?_, ?_, ?_, ?_, ?_, ?_, ?_⟩
  · intro process' other logged
    rw [counter]
    exact sound.known (older logged)
  · intro process' traceid'
    simpa [silent] using sound.once process' traceid'
  · intro process' traceid' other kept
    have still : (system.tables process').rpcs traceid' = some other ∧ ¬ (process' = process ∧ traceid' = traceid) := by
      by_cases here : process' = process
      · subst here
        by_cases same : traceid' = traceid
        · simp [took, same] at kept
        · exact ⟨by simpa [took, same] using kept, fun both => same both.2⟩
      · exact ⟨by simpa [here] using kept, fun both => here both.1⟩
    obtain ⟨same, logged, count⟩ := sound.held still.1
    refine ⟨same, .tail _ logged, ?_⟩
    rw [List.countP_cons, count, if_neg fun now => still.2 (ending _ _ now)]
  · intro process' traceid'
    rw [List.countP_cons]
    split
    next now =>
      obtain ⟨rfl, rfl⟩ := ending _ _ now
      rw [open_]
    next => exact sound.ended process' traceid'
  · intro process' traceid' later
    rw [counter] at later
    rw [List.countP_cons, sound.fresh later, if_neg]
    intro now
    obtain ⟨rfl, rfl⟩ := ending _ _ now
    have bound := (sound.known registered).1
    rw [trace] at bound
    exact Nat.not_lt.mpr bound later
  · exact fun flying role => sound.requestBehind _ flying role
  · exact fun flying role => sound.responseBehind _ flying role
  · intro process' rpc logged
    cases logged with
    | head =>
      obtain ⟨rfl, same, type, argument, answered⟩ := paired rfl
      exact ⟨call, .tail _ registered, same, type, argument, answered.cons _⟩
    | tail _ old => exact sound.pairedBehind _ old

/-- The trace id that `set_request` gives out is one that has never been used. -/
theorem Sound.call {system : RpcSystem π δ} (sound : Sound system) (process : π) {rpc : Rpc π δ}
    (room : (system.tables process).nextTraceid + 1 < wordSize) (plain : rpc.proxyTraceid = 0) :
    Sound (system.request process rpc false) := by
  let traceid := (system.tables process).nextTraceid + 1
  let call : Rpc π δ := { rpc with traceid, isServer := false }
  have unused : (system.tables process).rpcs traceid = none := by
    cases found : (system.tables process).rpcs traceid with
    | none => rfl
    | some old =>
      obtain ⟨same, logged, -⟩ := sound.held found
      have bound := (sound.known logged).1
      rw [same] at bound
      exact absurd bound (Nat.not_succ_le_self _)
  obtain ⟨table, counter, rpcs, requested⟩ : ∃ table : RpcTable π δ, table.nextTraceid = traceid ∧
      table.rpcs = Function.update (system.tables process).rpcs traceid (some call) ∧
      system.request process rpc false = { system with
        tables := Function.update system.tables process table, log := .registered process call :: system.log } := by
    refine ⟨((system.tables process).setRequest rpc false).1, ?_, ?_, ?_⟩
    · exact Nat.mod_eq_of_lt room
    · simp only [RpcTable.setRequest, Nat.mod_eq_of_lt room, unused, traceid]
      rfl
    · simp only [RpcSystem.request, RpcTable.setRequest, Nat.mod_eq_of_lt room]
      rfl
  have grows process' : (system.tables process').nextTraceid ≤
      (Function.update system.tables process table process').nextTraceid := by
    by_cases here : process' = process
    · subst here
      simp only [Function.update_self, counter]
      exact Nat.le_succ _
    · simp [here]
  have unregistered : system.log.countP (RpcEvent.registers process traceid) = 0 := by
    rw [List.countP_eq_zero]
    intro event logged now
    cases event with
    | registered process' old =>
      simp only [RpcEvent.registers, decide_eq_true_eq] at now
      obtain ⟨rfl, same⟩ := now
      have bound := (sound.known logged).1
      rw [same] at bound
      exact Nat.not_succ_le_self _ bound
    | served | client | timeout => simp [RpcEvent.registers] at now
  rw [requested]
  refine ⟨?_, ?_, ?_, ?_, ?_, ?_, ?_, ?_⟩
  · intro process' other logged
    cases logged with
    | head => exact ⟨by simp [counter, call], plain, rfl⟩
    | tail _ old =>
      obtain ⟨bound, rest⟩ := sound.known old
      exact ⟨Nat.le_trans bound (grows process'), rest⟩
  · intro process' traceid'
    rw [List.countP_cons]
    split
    next now =>
      simp only [RpcEvent.registers, call, decide_eq_true_eq] at now
      obtain ⟨rfl, rfl⟩ := now
      rw [unregistered]
    next => exact sound.once process' traceid'
  · intro process' traceid' other stored
    have open_ : system.log.countP (RpcEvent.ends process traceid) = 0 := sound.fresh (Nat.lt_succ_self _)
    by_cases here : process' = process
    · subst here
      by_cases same : traceid' = traceid
      · subst same
        obtain rfl : call = other := by simpa [rpcs] using stored
        exact ⟨rfl, .head _, by simpa [RpcEvent.ends] using open_⟩
      · obtain ⟨equal, logged, count⟩ := sound.held (show _ = some other by simpa [rpcs, same] using stored)
        exact ⟨equal, .tail _ logged, by simpa [RpcEvent.ends] using count⟩
    · obtain ⟨equal, logged, count⟩ := sound.held (show _ = some other by simpa [here] using stored)
      exact ⟨equal, .tail _ logged, by simpa [RpcEvent.ends] using count⟩
  · intro process' traceid'
    simpa [RpcEvent.ends] using sound.ended process' traceid'
  · intro process' traceid' later
    simpa [RpcEvent.ends] using sound.fresh (Nat.lt_of_le_of_lt (grows process') later)
  · exact fun flying role => sound.requestBehind _ flying role
  · exact fun flying role => sound.responseBehind _ flying role
  · exact fun logged => sound.pairedBehind _ (by simpa using logged)

/-! ## Steps and runs -/

variable {stubs : RpcStubs π δ}

private theorem serve_sound {system after : RpcSystem π δ} (sound : Sound system) {packet : Packet π δ} (result : δ)
    (flying : packet ∈ system.network) (role : packet.isServer = false) {stub : Rpc π δ}
    (found : stubs.find packet.type = some stub)
    (ran : system.runServer packet.dst (stub.unpack packet) result false = some after) : Sound after := by
  obtain ⟨call, logged, trace, type, argument⟩ := sound.request flying role
  simp only [Rpc.unpack, role, RpcSystem.runServer, RpcSystem.transmit, Rpc.pack, Bool.not_false, if_true,
    Bool.false_eq_true, if_false, Option.map_some, Option.some.injEq] at ran
  subst ran
  refine (sound.serve packet.dst _).put (fun other => by cases other) (fun _ => ?_)
  exact ⟨call, .tail _ logged, trace,
    packet.dst, _, .head _, rfl, trace.symm, (stubs.type found).trans type.symm, argument.symm, rfl⟩

private theorem answer_sound {system after : RpcSystem π δ} (sound : Sound system) {packet : Packet π δ}
    (flying : packet ∈ system.network) (role : packet.isServer = true) {stub : Rpc π δ}
    (ran : system.runClient packet.dst (stub.unpack packet) = some after) : Sound after := by
  obtain ⟨call, logged, trace, answered⟩ := sound.response flying role
  simp only [Rpc.unpack, role, Bool.not_true, Bool.false_eq_true, if_false, RpcSystem.runClient, RpcTable.take] at ran
  cases stored : (system.tables packet.dst).rpcs packet.traceid with
  | none =>
    simp only [stored, Option.map_none, Option.some.injEq] at ran
    exact ran ▸ sound
  | some prpc =>
    obtain ⟨same, registered, -⟩ := sound.held stored
    obtain rfl := sound.unique registered logged (same.trans trace.symm)
    simp only [stored, Option.map_some, (sound.known registered).2.1, Nat.lt_irrefl, gt_iff_lt, if_false,
      Option.some.injEq] at ran
    subst ran
    refine sound.conclude stored (fun _ _ => rfl) ?_ ?_ rfl
    · intro process traceid now
      simp only [RpcEvent.ends, decide_eq_true_eq] at now
      exact ⟨now.1.symm, now.2.symm.trans trace⟩
    · rintro process rpc ⟨⟩
      exact ⟨rfl, rfl, rfl, rfl, answered⟩

private theorem fire_sound {system : RpcSystem π δ} (sound : Sound system) (process : π) (traceid : Nat) :
    Sound (system.fire process traceid) := by
  simp only [RpcSystem.fire, RpcTable.take]
  cases stored : (system.tables process).rpcs traceid with
  | none => exact sound
  | some prpc =>
    refine sound.conclude stored (fun _ _ => rfl) ?_ (by rintro _ _ ⟨⟩) rfl
    intro process' traceid' now
    simp only [RpcEvent.ends, decide_eq_true_eq] at now
    exact ⟨now.1.symm, now.2.symm.trans (sound.held stored).1⟩

private theorem runServer_tables {system after : RpcSystem π δ} {process : π} {rpc : Rpc π δ} {result : δ}
    (ran : system.runServer process rpc result false = some after) : after.tables = system.tables := by
  simp only [RpcSystem.runServer, RpcSystem.transmit, Bool.false_eq_true, if_false] at ran
  split at ran
  next =>
    obtain ⟨packet, -, rfl⟩ := Option.map_eq_some_iff.mp ran
    rfl
  next => rw [← Option.some.inj ran]

omit [DecidableEq π] in
private theorem take_counter {table taken : RpcTable π δ} {traceid : Nat} {rpc : Rpc π δ}
    (took : table.take traceid = some (rpc, taken)) : taken.nextTraceid = table.nextTraceid := by
  simp only [RpcTable.take, Option.map_eq_some_iff, Prod.mk.injEq] at took
  obtain ⟨-, -, -, rfl⟩ := took
  rfl

private theorem update_counter {system : RpcSystem π δ} {process : π} {table : RpcTable π δ}
    (same : table.nextTraceid = (system.tables process).nextTraceid) (other : π) :
    (Function.update system.tables process table other).nextTraceid = (system.tables other).nextTraceid := by
  by_cases here : other = process
  · subst here
    simpa using same
  · simp [here]

private theorem runClient_counter {system after : RpcSystem π δ} {process : π} {rpc : Rpc π δ}
    (ran : system.runClient process rpc = some after) (other : π) :
    (after.tables other).nextTraceid = (system.tables other).nextTraceid := by
  simp only [RpcSystem.runClient, RpcSystem.transmit] at ran
  split at ran
  next => rw [← Option.some.inj ran]
  next took =>
    have same := update_counter (take_counter took) other
    split at ran
    next =>
      split at ran
      next =>
        obtain ⟨packet, -, rfl⟩ := Option.map_eq_some_iff.mp ran
        exact same
      next => rw [← Option.some.inj ran]; exact same
    next => rw [← Option.some.inj ran]; exact same

variable [DecidableEq δ]

theorem step_sound {system after : RpcSystem π δ} {action : RpcAction π δ} (sound : Sound system)
    (room : action.isCall → ∀ process, (system.tables process).nextTraceid + 1 < wordSize) (plain : action.plain)
    (stepped : system.step stubs action = some after) : Sound after := by
  cases action with
  | call process rpc =>
    simp only [RpcSystem.step, Option.some.injEq] at stepped
    exact stepped ▸ sound.call process (room rfl process) rfl
  | send process traceid dst =>
    simp only [RpcSystem.step, Option.bind_eq_bind, Option.bind_eq_some_iff] at stepped
    obtain ⟨call, stored, sent⟩ := stepped
    obtain ⟨trace, registered, -⟩ := sound.held stored
    simp only [RpcSystem.transmit, Rpc.pack, (sound.known registered).2.2, Bool.false_eq_true, if_false,
      Option.map_map, Option.map_eq_some_iff] at sent
    obtain ⟨data, argument, rfl⟩ := sent
    exact sound.put (fun _ => ⟨call, registered, rfl, rfl, argument⟩) (fun other => by cases other)
  | deliver packet result more =>
    obtain rfl : more = false := by simpa [RpcAction.plain] using plain
    simp only [RpcSystem.step] at stepped
    split at stepped
    next flying =>
      split at stepped
      next stub found =>
        cases role : packet.isServer with
        | false =>
          apply serve_sound sound result flying role found
          simpa [RpcSystem.run, Rpc.unpack, role] using stepped
        | true =>
          refine answer_sound sound flying role (show system.runClient packet.dst (stub.unpack packet) = _ from ?_)
          simpa [RpcSystem.run, Rpc.unpack, role] using stepped
      next => simpa using (Option.some.inj stepped) ▸ sound
    next => cases stepped
  | lose packet =>
    simp only [RpcSystem.step, Option.some.injEq] at stepped
    exact stepped ▸ sound.lose packet
  | fire process traceid =>
    simp only [RpcSystem.step, Option.some.injEq] at stepped
    exact stepped ▸ fire_sound sound process traceid

/-- Only a call moves the counter of a process. -/
theorem step_counter {system after : RpcSystem π δ} {action : RpcAction π δ} (plain : action.plain)
    (stepped : system.step stubs action = some after) (process : π) :
    (after.tables process).nextTraceid ≤ (system.tables process).nextTraceid + (if action.isCall then 1 else 0) := by
  cases action with
  | call at_ rpc =>
    simp only [RpcSystem.step, Option.some.injEq] at stepped
    subst stepped
    simp only [RpcSystem.request, RpcAction.isCall, if_true]
    by_cases here : process = at_
    · subst here
      simp only [Function.update_self, RpcTable.setRequest]
      exact Nat.mod_le _ _
    · simp [here]
  | send at_ traceid dst =>
    simp only [RpcSystem.step, Option.bind_eq_bind, Option.bind_eq_some_iff, RpcSystem.transmit,
      Option.map_eq_some_iff] at stepped
    obtain ⟨call, stored, packet, packed, rfl⟩ := stepped
    simp
  | deliver packet result more =>
    obtain rfl : more = false := by simpa [RpcAction.plain] using plain
    simp only [RpcSystem.step] at stepped
    split at stepped
    next =>
      split at stepped
      next stub found =>
        simp only [RpcSystem.run] at stepped
        split at stepped
        next => rw [runServer_tables stepped]; simp
        next => rw [runClient_counter stepped]; simp
      next => rw [← Option.some.inj stepped]; simp
    next => cases stepped
  | lose packet =>
    simp only [RpcSystem.step, Option.some.injEq] at stepped
    subst stepped
    simp
  | fire at_ traceid =>
    simp only [RpcSystem.step, Option.some.injEq, RpcSystem.fire] at stepped
    subst stepped
    split
    next => simp
    next took => simp [update_counter (take_counter took) process]

/-- Fewer calls than there are trace ids keep every process sound. -/
theorem run_sound {system : RpcSystem π δ} {actions : List (RpcAction π δ)}
    (ran : Run (fun before action after => RpcSystem.step stubs before action = some after) .initial actions system)
    (plain : ∀ action ∈ actions, action.plain) (few : actions.countP RpcAction.isCall < wordSize) : Sound system := by
  have start : Sound (RpcSystem.initial : RpcSystem π δ) ∧ (∀ action ∈ actions, action.plain) ∧
      ∀ process, ((RpcSystem.initial : RpcSystem π δ).tables process).nextTraceid +
        actions.countP RpcAction.isCall < wordSize :=
    ⟨initial_sound, plain, fun _ => by simpa [RpcSystem.initial, RpcTable.new] using few⟩
  refine (Run.invariant_of_rest (fun state rest => Sound state ∧ (∀ action ∈ rest, action.plain) ∧
    ∀ process, (state.tables process).nextTraceid + rest.countP RpcAction.isCall < wordSize) ?_ ran start).1
  intro before action after rest now stepped
  obtain ⟨sound, plain, room⟩ := now
  have counts := List.countP_cons (p := RpcAction.isCall) (a := action) (l := rest)
  refine ⟨step_sound sound ?_ (plain action (.head _)) stepped, fun other later => plain other (.tail _ later), ?_⟩
  · intro called process
    have left := room process
    rw [counts, if_pos called] at left
    exact Nat.lt_of_le_of_lt (Nat.add_le_add_left (Nat.le_add_left 1 _) _) left
  · intro process
    have left := room process
    rw [counts] at left
    have moved := step_counter (plain action (.head _)) stepped process
    omega

theorem calls_end_once_and_answered {system : RpcSystem π δ} {actions : List (RpcAction π δ)}
    (ran : Run (fun before action after => RpcSystem.step stubs before action = some after) .initial actions system)
    (plain : ∀ action ∈ actions, action.plain) (few : actions.countP RpcAction.isCall < 2 ^ 64) :
    CallsEndOnce system ∧ ClientsAnswered system := by
  have sound := run_sound ran plain few
  refine ⟨fun process traceid => ⟨sound.once process traceid, sound.ended process traceid, ?_⟩, fun _ _ => sound.paired⟩
  intro finished
  cases stored : (system.tables process).rpcs traceid with
  | none => rfl
  | some call =>
    rw [(sound.held stored).2.2] at finished
    exact absurd finished (Nat.lt_irrefl 0)

/-- One class, number 1. -/
def exampleStub : Rpc Bool Nat := ⟨1, 30, 0, 0, false, some 0, some 0, none⟩

def exampleStubs : RpcStubs Bool Nat where
  find id := if id = 1 then some exampleStub else none
  type {id stub} found := by
    split at found
    next same =>
      cases found
      exact same.symm
    next => cases found

/-- Two calls of one process to the other: the first is answered and its answer comes twice, the
second runs into its timer before its answer comes. -/
def exampleActions : List (RpcAction Bool Nat) :=
  [.call false { exampleStub with argument := some 3 }, .send false 1 true,
    .call false { exampleStub with argument := some 4 }, .send false 2 true,
    .deliver ⟨false, true, 1, 2, false, 4⟩ 40 false, .deliver ⟨false, true, 1, 1, false, 3⟩ 30 false,
    .deliver ⟨true, false, 1, 1, true, 30⟩ 0 false, .fire false 2, .lose ⟨false, true, 1, 2, false, 4⟩,
    .deliver ⟨true, false, 1, 2, true, 40⟩ 0 false, .deliver ⟨true, false, 1, 1, true, 30⟩ 0 false]

theorem calls_end_once_and_answered_of_example :
    ∃ system, Run (fun before action after => RpcSystem.step exampleStubs before action = some after) .initial
        exampleActions system ∧
      system.log.countP (RpcEvent.ends false 1) = 1 ∧ system.log.countP (RpcEvent.ends false 2) = 1 ∧
      CallsEndOnce system ∧ ClientsAnswered system := by
  obtain ⟨system, computed, one, two⟩ : ∃ system, exampleActions.foldlM (RpcSystem.step exampleStubs) .initial = some system ∧
      system.log.countP (RpcEvent.ends false 1) = 1 ∧ system.log.countP (RpcEvent.ends false 2) = 1 :=
    ⟨_, rfl, by decide, by decide⟩
  have ran := Run.of_foldlM computed
  exact ⟨system, ran, one, two, calls_end_once_and_answered ran (by decide) (by decide)⟩

end Proofs
end Cassobee
