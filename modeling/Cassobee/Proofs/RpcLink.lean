import Cassobee.RpcLink
import Cassobee.Proofs.Link
import Cassobee.Proofs.Rpc

/-! Remote calls over one connection. The connection is a network of packets that loses, reorders and
repeats nothing, so that its runs are runs of the processes, and a server runs no call more often than the
client sends it. -/

namespace Cassobee
open Support Proofs
variable {δ : Type}

/-- The class reads back this value, and the table has the row for the message around it. -/
def RpcData.Fits (data : RpcData δ) (type : ProtocolId) (isServer : Bool) (value : δ) : Prop :=
  ∃ bytes, Appends (data.pack type isServer value) bytes ∧ Reads (data.unpack type isServer) bytes value ∧
    bytes.length + 43 ≤ 2 ^ 63 ∧ ∀ count, 2 ≤ count → count ≤ 11 → TableRowExact (count + bytes.length)

/-- `server()` of an object that came with this trace id. -/
def RpcEvent.serves (peer : Peer) (traceid : Nat) : RpcEvent Peer δ → Bool
  | .served at_ rpc => at_ = peer ∧ rpc.traceid = traceid
  | _ => false

/-- The requests of which `server()` has run. -/
def servedRequests (peer : Peer) (log : List (RpcEvent Peer δ)) : List (RpcMessage δ) :=
  log.filterMap fun
    | .served at_ rpc => if at_ = peer then some ⟨rpc.type, rpc.traceid, false, rpc.argument⟩ else none
    | _ => none

def requests (messages : List (RpcMessage δ)) : List (RpcMessage δ) := messages.filter (!·.isServer)

namespace RpcLinkAction

def isCall : RpcLinkAction δ → Bool
  | .call .. => true
  | _ => false

def sends (peer : Peer) (traceid : Nat) : RpcLinkAction δ → Bool
  | .send at_ sent _ => at_ = peer ∧ sent = traceid
  | _ => false

/-- Only registered classes are called, and what is passed to `call` or written by `server()` fits. -/
def Fits (data : RpcData δ) (stubs : RpcStubs Peer δ) : RpcLinkAction δ → Prop
  | .call _ rpc => (stubs.find rpc.type).isSome ∧ ∀ value ∈ rpc.argument, data.Fits rpc.type false value
  | .run _ _ result _ => ∀ type, (stubs.find type).isSome → data.Fits type true result
  | _ => True

end RpcLinkAction

namespace Proofs
variable {data : RpcData δ} {stubs : RpcStubs Peer δ}

/-! ## Messages -/

theorem message_of_packet {π : Type} {message : RpcMessage δ} {src dst : π} {packet : Packet π δ}
    (made : message.packet src dst = some packet) : packet.message = message ∧ packet.src = src ∧ packet.dst = dst := by
  obtain ⟨value, content, rfl⟩ := Option.map_eq_some_iff.1 made
  refine ⟨?_, rfl, rfl⟩
  rw [Packet.message, ← content]

theorem fits_sendable {type : ProtocolId} {isServer : Bool} {value : δ} (fits : data.Fits type isServer value)
    (known : (stubs.find type).isSome) {traceid : Nat} (word : traceid < wordSize) :
    Sendable data.methods stubs.messages ⟨type, traceid, isServer, some value⟩ := by
  obtain ⟨bytes, appends, reads, small, exact⟩ := fits
  obtain ⟨stub, found⟩ := Option.isSome_iff_exists.1 known
  have number : (BitVec.ofNat 64 traceid).toNat = traceid := by
    rw [BitVec.toNat_ofNat]
    exact Nat.mod_eq_of_lt word
  have short : (writeVarint traceid).length ≤ 10 := length_writeVarint_le word
  have long : 1 ≤ (writeVarint traceid).length := by
    rw [length_writeVarint]
    exact Nat.le_max_left ..
  let number64 : Ty true (BitVec 64) := .scalar (.int false .w64)
  have head : number64.encode (BitVec.ofNat 64 traceid) = writeVarint traceid := congrArg writeVarint number
  have flag : (Ty.bool.encode isServer).length = 1 := rfl
  have packed : Appends (number64.push (BitVec.ofNat 64 traceid)) (number64.encode (BitVec.ofNat 64 traceid)) :=
    push_appends number64 trivial
  have unpacked (old : BitVec 64) :
      Reads (number64.pop old) (number64.encode (BitVec.ofNat 64 traceid)) (BitVec.ofNat 64 traceid) :=
    pop_reads number64 trivial old
  have flagged : Appends (Ty.bool.push isServer) (Ty.bool.encode isServer) := push_appends Ty.bool trivial
  have unflagged (old : Bool) : Reads (Ty.bool.pop old) (Ty.bool.encode isServer) isServer := pop_reads Ty.bool trivial old
  have length : (writeVarint traceid ++ (Ty.bool.encode isServer ++ bytes)).length =
      (writeVarint traceid).length + 1 + bytes.length := by
    rw [List.length_append, List.length_append, flag, Nat.add_assoc]
  refine ⟨writeVarint traceid ++ (Ty.bool.encode isServer ++ bytes), ⟨?_, ?_⟩, ?_, ?_⟩
  · rw [← head]
    exact packed.bind (flagged.bind appends)
  · refine ⟨⟨stub.type, stub.traceid, stub.isServer, stub.argument⟩, ?_, ?_⟩
    · simp [RpcStubs.messages, RpcData.methods, found]
    · have same : stub.type = type := stubs.type found
      subst same
      have whole : (⟨stub.type, (BitVec.ofNat 64 traceid).toNat, isServer, some value⟩ : RpcMessage δ) =
          ⟨stub.type, traceid, isServer, some value⟩ := by rw [number]
      rw [← head, ← whole]
      apply (unpacked _).bind
      apply (unflagged _).bind
      exact reads.map fun value => (⟨stub.type, (BitVec.ofNat 64 traceid).toNat, isServer, some value⟩ : RpcMessage δ)
  · rw [length]
    exact exact _ (by omega) (by omega)
  · rw [length]
    omega

/-! ## Processes among more packets -/

end Proofs

def RpcSystem.over {π : Type} (system : RpcSystem π δ) (packets : List (Packet π δ)) : RpcSystem π δ :=
  { system with network := system.network ++ packets }

namespace Proofs
section
variable {π : Type}

theorem transmit_over (system : RpcSystem π δ) (packets : List (Packet π δ)) (src dst : π) (rpc : Rpc π δ) :
    (system.over packets).transmit src dst rpc = (system.transmit src dst rpc).map (·.over packets) := by
  simp [RpcSystem.transmit, RpcSystem.over, Option.map_map, Function.comp_def]

variable [DecidableEq π] {system : RpcSystem π δ} (packets : List (Packet π δ))

theorem runServer_over (process : π) (rpc : Rpc π δ) (result : δ) :
    (system.over packets).runServer process rpc result false =
      (system.runServer process rpc result false).map (·.over packets) := by
  simp only [RpcSystem.runServer, Bool.false_eq_true, if_false]
  split
  next => exact transmit_over ⟨system.tables, system.network, .served process { rpc with result } :: system.log⟩ packets ..
  next => rfl

theorem runClient_over (process : π) (rpc : Rpc π δ) :
    (system.over packets).runClient process rpc = (system.runClient process rpc).map (·.over packets) := by
  have same : (system.over packets).tables = system.tables := rfl
  simp only [RpcSystem.runClient, same]
  cases (system.tables process).take rpc.traceid with
  | none => rfl
  | some took =>
    obtain ⟨prpc, table⟩ := took
    dsimp only
    split
    next =>
      split
      next => exact transmit_over ⟨_, system.network, system.log⟩ packets ..
      next => rfl
    next => rfl

theorem run_over (process : π) (rpc : Rpc π δ) (result : δ) :
    (system.over packets).run process rpc result false = (system.run process rpc result false).map (·.over packets) := by
  unfold RpcSystem.run
  split
  · exact runServer_over packets ..
  · exact runClient_over packets ..

theorem fire_over (process : π) (traceid : Nat) :
    (system.over packets).fire process traceid = (system.fire process traceid).over packets := by
  have same : (system.over packets).tables = system.tables := rfl
  simp only [RpcSystem.fire, same]
  split <;> rfl

end

/-! ## What has been sent -/

/-- A packet that the connection carries as it is. -/
structure SendablePacket (data : RpcData δ) (stubs : RpcStubs Peer δ) (packet : Packet Peer δ) : Prop where
  dst : packet.dst = packet.src.other
  word : packet.traceid < wordSize
  known : (stubs.find packet.type).isSome
  fits : data.Fits packet.type packet.isServer packet.data

theorem SendablePacket.sendable {packet : Packet Peer δ} (good : SendablePacket data stubs packet) :
    Sendable data.methods stubs.messages packet.message :=
  fits_sendable good.fits good.known good.word

/-- A call in `_rpcs`. -/
structure StoredCall (data : RpcData δ) (stubs : RpcStubs Peer δ) (traceid : Nat) (rpc : Rpc Peer δ) : Prop where
  number : rpc.traceid = traceid
  word : traceid < wordSize
  client : rpc.isServer = false
  plain : rpc.proxyTraceid = 0
  known : (stubs.find rpc.type).isSome
  fits : ∀ value ∈ rpc.argument, data.Fits rpc.type false value

def asks (peer : Peer) (traceid : Nat) (packet : Packet Peer δ) : Bool :=
  packet.src = peer ∧ packet.isServer = false ∧ packet.traceid = traceid

theorem sends_append {μ : Type} (peer : Peer) (actions later : List (LinkAction μ)) :
    sends peer (actions ++ later) = sends peer actions ++ sends peer later := by
  induction actions with
  | nil => rfl
  | cons action actions ih =>
    cases action with
    | act => exact ih
    | sendProtocol sender stale message =>
      simp only [List.cons_append, sends, ih]
      split <;> rfl

theorem mem_sends {μ : Type} {peer : Peer} {stale : Nat → UInt8} {message : μ} {actions : List (LinkAction μ)}
    (member : .sendProtocol peer stale message ∈ actions) : message ∈ sends peer actions := by
  obtain ⟨before, after, rfl⟩ := List.append_of_mem member
  rw [sends_append, sends, if_pos rfl]
  exact List.mem_append_right _ (List.mem_cons_self ..)

/-- `send_protocol` encodes and queues; nothing is dispatched. -/
theorem sendProtocol_dispatched {μ : Type} {methods : ProtocolMethods μ} {stubs : Stubs μ} {link next : Link μ} {peer : Peer}
    {stale : Nat → UInt8} {message : μ} (stepped : link.step methods stubs (.sendProtocol peer stale message) = some next)
    (here : Peer) : next.dispatched here = link.dispatched here := by
  simp only [Link.step] at stepped
  split at stepped
  next =>
    obtain ⟨io, -, -, -, -, -, -, same, other⟩ := act_eq_some stepped
    rcases peer_cases peer here with rfl | rfl
    · rw [same]
      exact List.append_nil _
    · exact other
  next => cases stepped

theorem setRequest_stored {table : RpcTable Peer δ} (rpc : Rpc Peer δ) (plain : rpc.proxyTraceid = 0)
    (known : (stubs.find rpc.type).isSome) (fits : ∀ value ∈ rpc.argument, data.Fits rpc.type false value)
    (stored : ∀ traceid call, table.rpcs traceid = some call → StoredCall data stubs traceid call) (traceid : Nat)
    (call : Rpc Peer δ) (found : (table.setRequest rpc false).1.rpcs traceid = some call) : StoredCall data stubs traceid call := by
  simp only [RpcTable.setRequest, Bool.false_eq_true, if_false] at found
  split at found
  next => exact stored traceid call found
  next =>
    by_cases new : traceid = (table.nextTraceid + 1) % wordSize
    · subst new
      rw [Function.update_self, Option.some.injEq] at found
      subst found
      exact ⟨rfl, Nat.mod_lt _ (by decide), rfl, plain, known, fits⟩
    · rw [Function.update_of_ne new] at found
      exact stored traceid call found

theorem act_dispatched {μ : Type} {methods : ProtocolMethods μ} {stubs : Stubs μ} {link next : Link μ} {peer : Peer}
    {action : IoAction} (stepped : link.step methods stubs (.act peer action) = some next) :
    ∃ more, next.dispatched peer = link.dispatched peer ++ more ∧ next.dispatched peer.other = link.dispatched peer.other := by
  have acted : link.act methods stubs peer action = some next := by
    cases action with
    | enter => cases stepped
    | _ => exact stepped
  obtain ⟨io, -, -, -, -, -, -, here, there⟩ := act_eq_some acted
  exact ⟨_, here, there⟩

/-- A call that is taken out of `_rpcs` leaves the others. -/
theorem take_rpcs {π : Type} {table after : RpcTable π δ} {traceid number : Nat} {rpc call : Rpc π δ}
    (took : table.take traceid = some (rpc, after)) (found : after.rpcs number = some call) :
    table.rpcs number = some call := by
  simp only [RpcTable.take, Option.map_eq_some_iff, Prod.mk.injEq] at took
  obtain ⟨_, -, -, rfl⟩ := took
  by_cases same : number = traceid
  · subst same
    simp only [Function.update_self, reduceCtorEq] at found
  · simpa only [Function.update_of_ne same] using found

theorem fire_rpcs {system : RpcSystem Peer δ} {peer here : Peer} {traceid number : Nat} {call : Rpc Peer δ}
    (found : (((system.fire peer traceid).tables here).rpcs number) = some call) :
    (system.tables here).rpcs number = some call := by
  unfold RpcSystem.fire at found
  split at found
  next => exact found
  next took =>
    by_cases same : here = peer
    · subst same
      simp only [Function.update_self] at found
      exact take_rpcs took found
    · simpa only [Function.update_of_ne same] using found

theorem fire_served {system : RpcSystem Peer δ} {peer here : Peer} {traceid : Nat} :
    servedRequests here (system.fire peer traceid).log = servedRequests here system.log := by
  unfold RpcSystem.fire
  split <;> rfl

/-- `rpc::run` of a request sends the response; of a response it takes the call, if it is there. -/
theorem run_cases {system next : RpcSystem Peer δ} {peer : Peer} {stub : Rpc Peer δ} {packet : Packet Peer δ} {result : δ}
    (plain : ∀ traceid call, (system.tables peer).rpcs traceid = some call → call.proxyTraceid = 0)
    (ran : system.run peer (stub.unpack packet) result false = some next) :
    (packet.isServer = false ∧ next = { system with
        network := ⟨peer, packet.src, stub.type, packet.traceid, true, result⟩ :: system.network
        log := .served peer { stub.unpack packet with result := some result } :: system.log }) ∨
      (packet.isServer = true ∧ next.network = system.network ∧
        (∀ here, servedRequests here next.log = servedRequests here system.log) ∧
        ∀ here traceid call, (next.tables here).rpcs traceid = some call → (system.tables here).rpcs traceid = some call) := by
  cases role : packet.isServer with
  | false =>
    refine .inl ⟨rfl, ?_⟩
    simpa [RpcSystem.run, RpcSystem.runServer, Rpc.unpack, role, RpcSystem.transmit, Rpc.pack] using ran.symm
  | true =>
    refine .inr ⟨rfl, ?_⟩
    simp only [RpcSystem.run, Rpc.unpack, role, Bool.not_true, Bool.false_eq_true, if_false, RpcSystem.runClient] at ran
    split at ran
    next =>
      cases ran
      exact ⟨rfl, fun _ => rfl, fun _ _ _ => id⟩
    next prpc table took =>
      have stored : (system.tables peer).rpcs packet.traceid = some prpc := by
        obtain ⟨call, stored, same⟩ := Option.map_eq_some_iff.1 took
        rw [stored, (Prod.mk.inj same).1]
      simp only [plain _ _ stored, gt_iff_lt, Nat.lt_irrefl, if_false, Option.some.injEq] at ran
      subst ran
      refine ⟨rfl, fun _ => rfl, fun here traceid call found => ?_⟩
      by_cases same : here = peer
      · subst same
        simp only [Function.update_self] at found
        exact take_rpcs took found
      · simpa only [Function.update_of_ne same] using found

theorem Sound.callsEndOnce {system : RpcSystem Peer δ} (sound : Sound system) : CallsEndOnce system := by
  refine fun process traceid => ⟨sound.once process traceid, sound.ended process traceid, fun finished => ?_⟩
  cases stored : (system.tables process).rpcs traceid with
  | none => rfl
  | some call =>
    obtain ⟨-, -, unfinished⟩ := sound.held stored
    omega

theorem countP_serves (peer : Peer) (traceid : Nat) (log : List (RpcEvent Peer δ)) :
    log.countP (RpcEvent.serves peer traceid) = (servedRequests peer log).countP (·.traceid = traceid) := by
  induction log with
  | nil => rfl
  | cons event log ih =>
    rw [List.countP_cons, ih]
    cases event with
    | served at_ rpc =>
      by_cases here : at_ = peer
      · by_cases same : rpc.traceid = traceid <;> simp [servedRequests, RpcEvent.serves, here, same]
      · simp [servedRequests, RpcEvent.serves, here]
    | _ => simp [servedRequests, RpcEvent.serves]

variable [DecidableEq δ]

/-- Along a run, with what is left of it: the steps of the connection so far, and the packets that it was
given. Those are the packets in the network of a run of the two processes. -/
structure Joined (data : RpcData δ) (stubs : RpcStubs Peer δ) (start : Link (RpcMessage δ)) (total : List (RpcLinkAction δ))
    (linked : List (LinkAction (RpcMessage δ))) (packets : List (Packet Peer δ)) (rpcs : RpcLink δ)
    (rest : List (RpcLinkAction δ)) : Prop where
  travelled : linked.foldlM (Link.step data.methods stubs.messages) start = some rpcs.link
  sent (peer : Peer) (message : RpcMessage δ) (given : message ∈ sends peer linked) :
    ∃ packet ∈ packets, packet.src = peer ∧ packet.message = message
  good : ∀ packet ∈ (rpcs.system.over packets).network, SendablePacket data stubs packet
  simulated : ∃ actions : List (RpcAction Peer δ),
    Run (fun before action after => RpcSystem.step stubs before action = some after) .initial actions
        (rpcs.system.over packets) ∧
      (∀ action ∈ actions, action.plain) ∧
      actions.countP RpcAction.isCall + rest.countP RpcLinkAction.isCall ≤ total.countP RpcLinkAction.isCall
  stored (peer : Peer) (traceid : Nat) (rpc : Rpc Peer δ) (found : (rpcs.system.tables peer).rpcs traceid = some rpc) :
    StoredCall data stubs traceid rpc
  tasks (peer : Peer) : ∃ done : List (RpcMessage δ), (done ++ rpcs.tasks peer).Perm (rpcs.link.dispatched peer) ∧
    (servedRequests peer rpcs.system.log).Perm (requests done)
  asked (peer : Peer) (traceid : Nat) :
    (requests (sends peer linked)).countP (·.traceid = traceid) + rpcs.system.network.countP (asks peer traceid) +
      rest.countP (RpcLinkAction.sends peer traceid) ≤ total.countP (RpcLinkAction.sends peer traceid)
  fits : ∀ action ∈ rest, action.Fits data stubs

namespace Joined
variable {start : Link (RpcMessage δ)} {total rest : List (RpcLinkAction δ)} {linked : List (LinkAction (RpcMessage δ))}
  {packets : List (Packet Peer δ)} {rpcs after : RpcLink δ}

theorem sendable (joined : Joined data stubs start total linked packets rpcs rest) (peer : Peer) (stale : Nat → UInt8)
    (message : RpcMessage δ) (given : .sendProtocol peer stale message ∈ linked) :
    Sendable data.methods stubs.messages message := by
  obtain ⟨packet, member, -, rfl⟩ := joined.sent peer message (mem_sends given)
  exact (joined.good packet (List.mem_append_right _ member)).sendable

theorem dispatched_sent {sizes : Peer → Nat × Nat} (joined : Joined data stubs start total linked packets rpcs rest)
    (created : Link.create sizes = .ok start) (peer : Peer) :
    (rpcs.link.dispatched peer).Subperm (sends peer.other linked) := by
  have conveyed := run_conveyed created joined.sendable joined.travelled
  obtain ⟨accepted, waiting, direction⟩ := conveyed.direction peer.other
  have inOrder := direction.inOrder
  rw [other_other_peer] at inOrder
  exact inOrder.sublist.subperm.trans direction.subperm

theorem sendProtocol (rpcs : RpcLink δ) {system : RpcSystem Peer δ} {peer : Peer} {stale : Nat → UInt8}
    (joined : Joined data stubs start total linked packets { rpcs with system } rest)
    (own : ∀ packet ∈ system.network, packet.src = peer)
    (sent : rpcs.sendProtocol data stubs peer stale system = some after) :
    after.system.network = [] ∧
      ∃ linked packets, Joined data stubs start total linked packets after rest := by
  unfold RpcLink.sendProtocol at sent
  split at sent
  next empty =>
    cases sent
    exact ⟨empty, linked, packets, joined⟩
  next packet tail content =>
    obtain ⟨link, stepped, rfl⟩ := Option.map_eq_some_iff.1 sent
    have here : packet.src = peer := own packet (content ▸ List.mem_cons_self ..)
    have same : ({ system with network := [] } : RpcSystem Peer δ).over (system.network ++ packets) = system.over packets := rfl
    have grown (at_ : Peer) : sends at_ (linked ++ [.sendProtocol peer stale packet.message]) =
        sends at_ linked ++ if peer = at_ then [packet.message] else [] := by
      rw [sends_append]
      simp only [sends]
    refine ⟨rfl, linked ++ [.sendProtocol peer stale packet.message], system.network ++ packets, ?_, ?_, ?_, ?_, joined.stored,
      fun here => ?_, fun here traceid => ?_, joined.fits⟩
    · rw [List.foldlM_append, joined.travelled]
      simpa using stepped
    · intro at_ message given
      rw [grown, List.mem_append] at given
      rcases given with old | new
      · obtain ⟨other, member, rest⟩ := joined.sent at_ message old
        exact ⟨other, List.mem_append_right _ member, rest⟩
      · split at new
        next is =>
          rw [List.mem_singleton] at new
          refine ⟨packet, List.mem_append_left _ (content ▸ List.mem_cons_self ..), here.trans is, new.symm⟩
        next => cases new
    · rw [same]
      exact joined.good
    · rw [same]
      exact joined.simulated
    · obtain ⟨done, perm, ran⟩ := joined.tasks here
      exact ⟨done, (sendProtocol_dispatched stepped here) ▸ perm, ran⟩
    · have before := joined.asked here traceid
      simp only [content, List.countP_cons] at before
      have more : (requests (sends here (linked ++ [.sendProtocol peer stale packet.message]))).countP (·.traceid = traceid) ≤
          (requests (sends here linked)).countP (·.traceid = traceid) + if asks here traceid packet then 1 else 0 := by
        rw [grown, requests, List.filter_append, List.countP_append]
        apply Nat.add_le_add_left
        split
        next is =>
          cases role : packet.isServer with
          | true => simp [Packet.message, role]
          | false => by_cases number : packet.traceid = traceid <;> simp [Packet.message, asks, role, number, ← is, ‹packet.src = peer›]
        next => exact Nat.zero_le _
      simp only [List.countP_nil, Nat.add_zero]
      omega

/-- A step of the processes, before its packets are given to the connection. -/
theorem processes {system : RpcSystem Peer δ} {action : RpcLinkAction δ} {tasks : Peer → List (RpcMessage δ)}
    (abstract : RpcAction Peer δ) (joined : Joined data stubs start total linked packets rpcs (action :: rest))
    (stepped : (rpcs.system.over packets).step stubs abstract = some (system.over packets)) (plain : abstract.plain)
    (calls : abstract.isCall = action.isCall) (good : ∀ packet ∈ system.network, SendablePacket data stubs packet)
    (stored : ∀ peer traceid rpc, (system.tables peer).rpcs traceid = some rpc → StoredCall data stubs traceid rpc)
    (ran : ∀ peer, ∃ done : List (RpcMessage δ), (done ++ tasks peer).Perm (rpcs.link.dispatched peer) ∧
      (servedRequests peer system.log).Perm (requests done))
    (asked : ∀ peer traceid, system.network.countP (asks peer traceid) ≤ if action.sends peer traceid then 1 else 0) :
    Joined data stubs start total linked packets { rpcs with system, tasks } rest := by
  obtain ⟨actions, run, plains, few⟩ := joined.simulated
  refine ⟨joined.travelled, joined.sent, ?_, ⟨actions ++ [abstract], run.append (.cons stepped (.done _)), ?_, ?_⟩, stored,
    ran, fun peer traceid => ?_, fun other later => joined.fits other (List.mem_cons_of_mem _ later)⟩
  · intro packet member
    rcases List.mem_append.1 member with new | old
    · exact good packet new
    · exact joined.good packet (List.mem_append_right _ old)
  · intro other member
    rcases List.mem_append.1 member with old | new
    · exact plains other old
    · exact List.mem_singleton.1 new ▸ plain
  · rw [List.countP_cons] at few
    rw [List.countP_append, List.countP_singleton, calls]
    omega
  · have before := joined.asked peer traceid
    have now := asked peer traceid
    rw [List.countP_cons] at before
    dsimp only
    omega

theorem call {peer : Peer} {rpc : Rpc Peer δ} (joined : Joined data stubs start total linked packets rpcs (.call peer rpc :: rest))
    (empty : rpcs.system.network = []) (stepped : rpcs.step data stubs (.call peer rpc) = some after) :
    after.system.network = [] ∧ Joined data stubs start total linked packets after rest := by
  obtain ⟨known, fits⟩ : (stubs.find rpc.type).isSome ∧ ∀ value ∈ rpc.argument, data.Fits rpc.type false value :=
    joined.fits _ (List.mem_cons_self ..)
  simp only [RpcLink.step, RpcSystem.step, Option.map_some, Option.some.injEq] at stepped
  subst stepped
  let call : Rpc Peer δ := { rpc with proxyTraceid := 0, result := none, sid := none }
  have tables : (rpcs.system.request peer call false).tables =
      Function.update rpcs.system.tables peer ((rpcs.system.tables peer).setRequest call false).1 := rfl
  refine ⟨empty, processes (.call peer rpc) joined rfl rfl rfl ?_ ?_ ?_ ?_⟩
  · intro packet member
    exact absurd (empty ▸ member : packet ∈ []) List.not_mem_nil
  · intro here traceid other found
    rw [tables] at found
    by_cases same : here = peer
    · subst same
      rw [Function.update_self] at found
      exact setRequest_stored call rfl known fits (joined.stored here) traceid other found
    · rw [Function.update_of_ne same] at found
      exact joined.stored here traceid other found
  · exact fun here => joined.tasks here
  · intro here traceid
    rw [show (rpcs.system.request peer _ false).network = [] from empty]
    exact Nat.zero_le _

theorem send {peer : Peer} {traceid : Nat} {stale : Nat → UInt8}
    (joined : Joined data stubs start total linked packets rpcs (.send peer traceid stale :: rest))
    (empty : rpcs.system.network = []) (stepped : rpcs.step data stubs (.send peer traceid stale) = some after) :
    after.system.network = [] ∧ ∃ linked packets, Joined data stubs start total linked packets after rest := by
  simp only [RpcLink.step, RpcSystem.step, Option.bind_eq_bind, Option.bind_eq_some_iff] at stepped
  obtain ⟨system, ⟨call, found, transmitted⟩, sent⟩ := stepped
  obtain ⟨number, word, client, plain, known, fits⟩ := joined.stored peer traceid call found
  have abstract : (rpcs.system.over packets).step stubs (.send peer traceid peer.other) = some (system.over packets) := by
    have stored : ((rpcs.system.over packets).tables peer).rpcs traceid = some call := found
    simp only [RpcSystem.step, stored, Option.bind_eq_bind, Option.bind_some, transmit_over, transmitted, Option.map_some]
  simp only [RpcSystem.transmit, Rpc.pack, client, Bool.false_eq_true, if_false, Option.map_map, Option.map_eq_some_iff,
    Function.comp_apply] at transmitted
  obtain ⟨value, argument, rfl⟩ := transmitted
  apply sendProtocol rpcs (processes _ joined abstract rfl rfl ?_ joined.stored joined.tasks ?_) ?_ sent
  · intro packet member
    simp only [empty, List.mem_singleton] at member
    subst member
    exact ⟨rfl, number ▸ word, known, fits value argument⟩
  · intro here other
    simp only [empty, List.countP_singleton, asks, RpcLinkAction.sends, number, true_and]
    exact Nat.le_refl _
  · intro packet member
    simp only [empty, List.mem_singleton] at member
    rw [member]

theorem io {peer : Peer} {action : IoAction}
    (joined : Joined data stubs start total linked packets rpcs (.io peer action :: rest))
    (empty : rpcs.system.network = []) (stepped : rpcs.step data stubs (.io peer action) = some after) :
    after.system.network = [] ∧ ∃ linked packets, Joined data stubs start total linked packets after rest := by
  simp only [RpcLink.step, Option.map_eq_some_iff] at stepped
  obtain ⟨link, moved, rfl⟩ := stepped
  obtain ⟨actions, run, plains, few⟩ := joined.simulated
  have nothing (here : Peer) : sends here (linked ++ [.act peer action]) = sends here linked := by
    rw [sends_append]
    exact List.append_nil _
  obtain ⟨more, here, there⟩ := act_dispatched moved
  refine ⟨empty, linked ++ [.act peer action], packets, ?_, fun here message given => ?_, joined.good,
    ⟨actions, run, plains, ?_⟩, joined.stored, fun at_ => ?_, fun at_ traceid => ?_,
    fun other later => joined.fits other (List.mem_cons_of_mem _ later)⟩
  · rw [List.foldlM_append, joined.travelled]
    simpa using moved
  · rw [nothing] at given
    exact joined.sent here message given
  · exact few
  · obtain ⟨done, perm, ran⟩ := joined.tasks at_
    refine ⟨done, ?_, ran⟩
    rcases peer_cases peer at_ with rfl | rfl
    · simp only [here, List.drop_left, Function.update_self, ← List.append_assoc]
      exact perm.append_right more
    · simp only [there, Function.update_of_ne (other_ne_peer peer)]
      exact perm
  · rw [nothing]
    exact joined.asked at_ traceid

theorem fire {peer : Peer} {traceid : Nat}
    (joined : Joined data stubs start total linked packets rpcs (.fire peer traceid :: rest))
    (empty : rpcs.system.network = []) (stepped : rpcs.step data stubs (.fire peer traceid) = some after) :
    after.system.network = [] ∧ Joined data stubs start total linked packets after rest := by
  simp only [RpcLink.step, Option.some.injEq] at stepped
  subst stepped
  have network : (rpcs.system.fire peer traceid).network = rpcs.system.network := by
    unfold RpcSystem.fire
    split <;> rfl
  have abstract : (rpcs.system.over packets).step stubs (.fire peer traceid) =
      some ((rpcs.system.fire peer traceid).over packets) := congrArg some (fire_over packets peer traceid)
  refine ⟨network.trans empty, processes _ joined abstract rfl rfl ?_ ?_ ?_ ?_⟩
  · rw [network, empty]
    exact fun _ => List.not_mem_nil.elim
  · intro here number call found
    exact joined.stored here number call (fire_rpcs found)
  · intro here
    rw [fire_served]
    exact joined.tasks here
  · intro here number
    rw [network, empty]
    exact Nat.zero_le _

/-- A task came as a packet that the other end had sent. -/
theorem packet_of_task {sizes : Peer → Nat × Nat} {peer : Peer} {packet : Packet Peer δ}
    (joined : Joined data stubs start total linked packets rpcs rest) (created : Link.create sizes = .ok start)
    (task : packet.message ∈ rpcs.tasks peer) (src : packet.src = peer.other) (dst : packet.dst = peer) : packet ∈ packets := by
  obtain ⟨done, perm, -⟩ := joined.tasks peer
  have dispatched : packet.message ∈ rpcs.link.dispatched peer := perm.subset (List.mem_append_right _ task)
  obtain ⟨given, member, src', same⟩ :=
    joined.sent peer.other packet.message ((joined.dispatched_sent created peer).subset dispatched)
  have dst' := (joined.good given (List.mem_append_right _ member)).dst
  rw [src', other_other_peer] at dst'
  obtain rfl : given = packet := by
    cases given
    cases packet
    simp_all [Packet.message]
  exact member

theorem run {sizes : Peer → Nat × Nat} {peer : Peer} {index : Nat} {result : δ} {stale : Nat → UInt8}
    (joined : Joined data stubs start total linked packets rpcs (.run peer index result stale :: rest))
    (created : Link.create sizes = .ok start) (empty : rpcs.system.network = [])
    (stepped : rpcs.step data stubs (.run peer index result stale) = some after) :
    after.system.network = [] ∧ ∃ linked packets, Joined data stubs start total linked packets after rest := by
  simp only [RpcLink.step, Option.bind_eq_bind, Option.bind_eq_some_iff] at stepped
  obtain ⟨message, waiting, stub, found, packet, made, system, ran, sent⟩ := stepped
  obtain ⟨rfl, src, dst⟩ := message_of_packet made
  have shorter : (packet.message :: (rpcs.tasks peer).eraseIdx index).Perm (rpcs.tasks peer) := by
    obtain ⟨inside, same⟩ := List.getElem?_eq_some_iff.1 waiting
    exact same ▸ List.getElem_cons_eraseIdx_perm inside
  have member := joined.packet_of_task created (shorter.subset (List.mem_cons_self ..)) src dst
  obtain ⟨-, word, known, -⟩ := joined.good packet (List.mem_append_right _ member)
  have fits : ∀ type, (stubs.find type).isSome → data.Fits type true result := joined.fits _ (List.mem_cons_self ..)
  have type : stub.type = packet.type := stubs.type found
  have abstract : (rpcs.system.over packets).step stubs (.deliver packet result false) = some (system.over packets) := by
    have flying : packet ∈ (rpcs.system.over packets).network := List.mem_append_right _ member
    have found : stubs.find packet.type = some stub := found
    simp only [RpcSystem.step, if_pos flying, found, dst, run_over, ran, Option.map_some]
  -- the task goes from those that wait to those that have run
  let waiting_on := Function.update rpcs.tasks peer ((rpcs.tasks peer).eraseIdx index)
  have taken (here : Peer) : ∃ done : List (RpcMessage δ), (done ++ waiting_on here).Perm (rpcs.link.dispatched here) ∧
      ((if peer = here then requests [packet.message] else []) ++ servedRequests here rpcs.system.log).Perm (requests done) := by
    obtain ⟨done, perm, counted⟩ := joined.tasks here
    by_cases same : peer = here
    · subst same
      refine ⟨packet.message :: done, ?_, ?_⟩
      · rw [show waiting_on peer = (rpcs.tasks peer).eraseIdx index from Function.update_self ..]
        exact (List.perm_middle.symm.trans (shorter.append_left done)).trans perm
      · have split : requests (packet.message :: done) = requests [packet.message] ++ requests done :=
          List.filter_append [packet.message] done
        rw [if_pos rfl, split]
        exact counted.append_left _
    · rw [if_neg same, show waiting_on here = rpcs.tasks here from Function.update_of_ne (Ne.symm same) ..]
      exact ⟨done, perm, counted⟩
  obtain ⟨kept, own⟩ : Joined data stubs start total linked packets { rpcs with system, tasks := waiting_on } rest ∧
      ∀ packet ∈ system.network, packet.src = peer := by
    rcases run_cases (fun _ _ stored => (joined.stored peer _ _ stored).plain) ran with
      ⟨role, rfl⟩ | ⟨role, network, same, kept⟩
    · refine ⟨processes _ joined abstract rfl rfl ?_ joined.stored (fun here => ?_) ?_, ?_⟩
      · intro other also
        simp only [empty, List.mem_singleton] at also
        subst also
        exact ⟨src, word, type ▸ known, fits stub.type (type ▸ known)⟩
      · obtain ⟨done, perm, counted⟩ := taken here
        refine ⟨done, perm, ?_⟩
        have logged : servedRequests here (.served peer { stub.unpack packet with result := some result } :: rpcs.system.log) =
            (if peer = here then requests [packet.message] else []) ++ servedRequests here rpcs.system.log := by
          by_cases same : peer = here <;> simp [servedRequests, requests, Rpc.unpack, Packet.message, role, type, same]
        rw [logged]
        exact counted
      · intro here traceid
        simp [empty, asks]
      · intro other also
        simp only [empty, List.mem_singleton] at also
        rw [also]
    · refine ⟨processes _ joined abstract rfl rfl ?_ (fun here traceid call stored => ?_) (fun here => ?_) ?_, ?_⟩
      · rw [network, empty]
        exact fun _ => List.not_mem_nil.elim
      · exact joined.stored here traceid call (kept here traceid call stored)
      · obtain ⟨done, perm, counted⟩ := taken here
        refine ⟨done, perm, ?_⟩
        have nothing : (if peer = here then requests [packet.message] else []) = [] := by simp [requests, Packet.message, role]
        rw [nothing] at counted
        rw [same]
        exact counted
      · intro here traceid
        rw [network, empty]
        exact Nat.zero_le _
      · rw [network, empty]
        exact fun _ => List.not_mem_nil.elim
  exact sendProtocol { rpcs with tasks := waiting_on } kept own sent

theorem step {sizes : Peer → Nat × Nat} {action : RpcLinkAction δ}
    (joined : Joined data stubs start total linked packets rpcs (action :: rest)) (created : Link.create sizes = .ok start)
    (empty : rpcs.system.network = []) (stepped : rpcs.step data stubs action = some after) :
    after.system.network = [] ∧ ∃ linked packets, Joined data stubs start total linked packets after rest := by
  cases action with
  | call peer rpc =>
    obtain ⟨still, kept⟩ := joined.call empty stepped
    exact ⟨still, linked, packets, kept⟩
  | send peer traceid stale => exact joined.send empty stepped
  | io peer action => exact joined.io empty stepped
  | run peer index result stale => exact joined.run created empty stepped
  | fire peer traceid =>
    obtain ⟨still, kept⟩ := joined.fire empty stepped
    exact ⟨still, linked, packets, kept⟩

theorem opened {sizes : Peer → Nat × Nat} (created : Link.create sizes = .ok start)
    (fits : ∀ action ∈ total, action.Fits data stubs) :
    Joined data stubs start total [] [] (.opened start) total := by
  have nothing (peer : Peer) : start.dispatched peer = [] := by
    unfold Link.create at created
    cases server : SessionIo.create (sizes .server).1 (sizes .server).2 with
    | error thrown => simp [server, bind, Except.bind] at created
    | ok io =>
      cases client : SessionIo.create (sizes .client).1 (sizes .client).2 with
      | error thrown => simp [server, client, bind, Except.bind] at created
      | ok other =>
        simp only [server, client, bind, Except.bind, pure, Except.pure, Except.ok.injEq] at created
        rw [← created]
  refine ⟨rfl, fun _ _ => List.not_mem_nil.elim, fun _ => List.not_mem_nil.elim, ⟨[], .done _, fun _ => List.not_mem_nil.elim, ?_⟩,
    fun _ _ _ found => ?_, fun peer => ⟨[], ?_, List.Perm.refl _⟩, fun _ _ => ?_, fits⟩
  · exact Nat.le_of_eq (Nat.zero_add _)
  · cases found
  · rw [RpcLink.opened, nothing]
    exact List.Perm.refl _
  · exact Nat.le_of_eq (Nat.zero_add _)

end Joined

/-- Octets both ways. -/
def octetsData : RpcData (List UInt8) where
  pack _ _ value := Ty.octets.push value
  unpack _ _ := Ty.octets.pop []

def octetsStubs : RpcStubs Peer (List UInt8) where
  find id := if id = 1 then some ⟨1, 30, 0, 0, false, some [], some [], none⟩ else none
  type {id stub} found := by
    split at found
    next same =>
      cases found
      exact same.symm
    next => cases found

theorem octetsData_fits (type : ProtocolId) (isServer : Bool) {value : List UInt8} (short : value.length ≤ 100) :
    octetsData.Fits type isServer value := by
  have fits : Ty.octets.Fits value := Nat.lt_of_le_of_lt short (by decide)
  have length : (Ty.octets.encode value).length ≤ 110 := by
    have head : (writeVarint value.length).length ≤ 10 :=
      length_writeVarint_le (Nat.lt_of_le_of_lt short (by decide))
    rw [Ty.encode, List.length_append]
    omega
  refine ⟨Ty.octets.encode value, push_appends Ty.octets fits, ?_, by omega, fun count _ few => ?_⟩
  · have read := pop_reads Ty.octets fits []
    rwa [merge_fresh Ty.octets trivial rfl] at read
  · exact .inl (by omega)

/-- The client calls with 3; the server runs and answers with 4. -/
def callAndAnswer : List (RpcLinkAction (List UInt8)) :=
  [.call .client ⟨1, 30, 0, 0, false, some [3], none, none⟩, .send .client 1 (fun _ => 0), .io .client (.deliver 0),
    .io .client (.handleEvent false true), .io .client .beginWrite, .io .client (.send (.sent 6)), .io .client .refetch,
    .io .client .onSend, .io .client .handleClose, .io .server (.handleEvent true true), .io .server .beginRead,
    .io .server (.recv (.received [1, 4, 1, 0, 1, 3])), .io .server (.recv .again), .io .server .onRecv,
    .run .server 0 [4] (fun _ => 0), .io .server (.deliver 0), .io .server .beginWrite, .io .server (.send (.sent 6)),
    .io .client (.handleEvent true false), .io .client .beginRead, .io .client (.recv (.received [1, 4, 1, 1, 1, 4])),
    .io .client (.recv .again), .io .client .onRecv, .run .client 0 [] (fun _ => 0)]

def openedRpcs : Link (RpcMessage (List UInt8)) :=
  ⟨fun | .server => openedIo | .client => openedIo, fun _ => [], fun _ => []⟩

end Proofs
end Cassobee
