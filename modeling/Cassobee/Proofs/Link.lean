import Cassobee.Link
import Cassobee.Proofs.Stalling
import Cassobee.Proofs.Writing
import Mathlib.Data.List.InsertIdx
import Mathlib.Data.List.Perm.Subperm

/-! Messages between two sessions. What an end has dispatched is, message by message, the beginning of
what the other end has accepted, however the senders, the two reactors and the network take turns;
once no byte is under way, it is all of it. -/

namespace Cassobee
open Support Proofs
variable {μ : Type} (methods : ProtocolMethods μ) (stubs : Stubs μ)

/-- The class reads back what it writes, and the table has the row for the size. -/
def Sendable (message : μ) : Prop :=
  ∃ payload, Carries methods stubs message payload ∧ TableRowExact payload.length ∧ payload.length + 32 ≤ 2 ^ 63

/-- The messages that an end is given to send. -/
def sends (peer : Peer) : List (LinkAction μ) → List μ
  | [] => []
  | .sendProtocol sender _ message :: actions => if sender = peer then message :: sends peer actions else sends peer actions
  | .act _ _ :: actions => sends peer actions

/-- Nothing that an end has accepted is under way, and nothing waits in `_readbuf` at the other. -/
def Link.Drained (link : Link μ) (peer : Peer) : Prop :=
  (link.ends peer).unsent = [] ∧ (link.ends peer).writeos.bytes = [] ∧ link.wire peer.other = [] ∧
    (link.ends peer.other).session.readbuf.len = 0

namespace Proofs
variable {methods : ProtocolMethods μ} {stubs : Stubs μ}

/-! ## The reading side of one end -/

/-- Everything that a step can do to the reading side. -/
inductive Reading (methods : ProtocolMethods μ) (stubs : Stubs μ) (io next : SessionIo) : IoAction → Prop where
  | still {action : IoAction} (reados : next.session.reados = io.session.reados)
      (readbuf : next.session.readbuf = io.session.readbuf) (nothing : io.arrived action = [])
      (none : io.dispatches methods stubs action = []) : Reading methods stubs io next action
  | arrives {chunk : List UInt8} (fits : chunk.length ≤ io.session.readbuf.freeSpace)
      (all : io.arrived (.recv (.received chunk)) = chunk) (session : next.session = io.session.arrive chunk) :
      Reading methods stubs io next (.recv (.received chunk))
  | receives {action : IoAction} {messages : List μ} {after : Session}
      (called : io.session.onRecv methods stubs (io.session.reados.size + io.session.readbuf.len + 1) =
        .ok (some (messages, after)))
      (nothing : io.arrived action = []) (dispatched : io.dispatches methods stubs action = messages)
      (session : next.session = after) : Reading methods stubs io next action

private theorem onRecv_called {io after : SessionIo} (received : io.onRecv methods stubs = some after) :
    ∃ messages, io.session.onRecv methods stubs (io.session.reados.size + io.session.readbuf.len + 1) =
        .ok (some (messages, after.session)) ∧ io.messages methods stubs = messages := by
  cases called : io.session.onRecv methods stubs (io.session.reados.size + io.session.readbuf.len + 1) with
  | error thrown => simp [SessionIo.onRecv, called] at received
  | ok outcome =>
    cases outcome with
    | none => simp [SessionIo.onRecv, called] at received
    | some pair =>
      simp only [SessionIo.onRecv, called, Option.some.injEq] at received
      subst received
      exact ⟨pair.1, rfl, by simp only [SessionIo.messages, called]⟩

private theorem deliver_reading {io next : SessionIo} {index : Nat} (stepped : io.step methods stubs (.deliver index) = some next) :
    Reading methods stubs io next (.deliver index) := by
  obtain ⟨message, -, delivered⟩ := deliver_stepped stepped
  rcases deliver_cases delivered with ⟨-, rfl⟩ | ⟨data, -, rfl⟩
  · exact .still rfl rfl rfl rfl
  · exact .still rfl rfl rfl rfl

private theorem beginRead_reading {io next : SessionIo} (stepped : io.step methods stubs .beginRead = some next) :
    Reading methods stubs io next .beginRead := by
  simp only [SessionIo.step] at stepped
  split at stepped
  next send here =>
    split at stepped
    next full =>
      obtain ⟨after, received, rfl⟩ := Option.map_eq_some_iff.1 stepped
      obtain ⟨messages, called, handed⟩ := onRecv_called received
      exact .receives called rfl ((if_pos full).trans handed) rfl
    next room =>
      cases stepped
      exact .still rfl rfl rfl (if_neg room)
  next => cases stepped

private theorem recv_reading {io next : SessionIo} {result : RecvResult}
    (stepped : io.step methods stubs (.recv result) = some next) : Reading methods stubs io next (.recv result) := by
  simp only [SessionIo.step] at stepped
  split at stepped
  next send here =>
    split at stepped
    next full =>
      cases stepped
      refine .still rfl rfl ?_ rfl
      cases result with
      | received chunk => exact if_pos full
      | closed | interrupted | again | error => rfl
    next room =>
      cases result with
      | received chunk =>
        simp only [SessionIo.afterRecv, Option.ite_none_right_eq_some, Option.some.injEq] at stepped
        obtain ⟨⟨-, fits⟩, rfl⟩ := stepped
        exact .arrives fits (if_neg room) rfl
      | closed | interrupted | again | error =>
        cases stepped
        exact .still rfl rfl rfl rfl
  next => cases stepped

private theorem onRecv_reading {io next : SessionIo} (stepped : io.step methods stubs .onRecv = some next) :
    Reading methods stubs io next .onRecv := by
  simp only [SessionIo.step] at stepped
  split at stepped
  next send here =>
    obtain ⟨after, received, rfl⟩ := Option.map_eq_some_iff.1 stepped
    obtain ⟨messages, called, handed⟩ := onRecv_called received
    exact .receives called rfl handed rfl
  next => cases stepped

private theorem send_reading {io next : SessionIo} {result : SendResult}
    (stepped : io.step methods stubs (.send result) = some next) : Reading methods stubs io next (.send result) := by
  simp only [SessionIo.step, Option.ite_none_right_eq_some] at stepped
  obtain ⟨-, stepped⟩ := stepped
  cases result with
  | sent count =>
    simp only [SessionIo.afterSend, Option.ite_none_right_eq_some, Option.some.injEq] at stepped
    obtain ⟨-, rfl⟩ := stepped
    split <;> exact .still rfl rfl rfl rfl
  | zero | interrupted | again | error =>
    cases stepped
    exact .still rfl rfl rfl rfl

theorem step_reading {io next : SessionIo} {action : IoAction} (stepped : io.step methods stubs action = some next) :
    Reading methods stubs io next action := by
  cases action with
  | setClose reason =>
    cases stepped
    exact .still rfl rfl rfl rfl
  | enter message =>
    simp only [SessionIo.step] at stepped
    split at stepped <;> cases stepped <;> exact .still rfl rfl rfl rfl
  | deliver index => exact deliver_reading stepped
  | handleEvent recv send =>
    simp only [SessionIo.step, Option.ite_none_right_eq_some, Option.some.injEq] at stepped
    obtain ⟨-, rfl⟩ := stepped
    exact .still rfl rfl rfl rfl
  | beginRead => exact beginRead_reading stepped
  | recv result => exact recv_reading stepped
  | onRecv => exact onRecv_reading stepped
  | beginWrite | refetch =>
    simp only [SessionIo.step, Option.ite_none_right_eq_some, Option.some.injEq] at stepped
    obtain ⟨-, rfl⟩ := stepped
    have kept : io.wbuffer.session = io.session := by
      unfold SessionIo.wbuffer
      split <;> rfl
    split <;> exact .still (congrArg Session.reados kept) (congrArg Session.readbuf kept) rfl rfl
  | send result => exact send_reading stepped
  | onSend =>
    simp only [SessionIo.step, Option.ite_none_right_eq_some, Option.some.injEq] at stepped
    obtain ⟨-, rfl⟩ := stepped
    exact .still rfl rfl rfl rfl
  | handleClose =>
    simp only [SessionIo.step, Option.ite_none_right_eq_some, Option.some.injEq] at stepped
    obtain ⟨-, rfl⟩ := stepped
    unfold SessionIo.handleClose
    split
    · split <;> exact .still rfl rfl rfl rfl
    · exact .still rfl rfl rfl rfl

/-! ## The writing side of one end -/

theorem kernel_grows {io next : SessionIo} {action : IoAction} (stepped : io.step methods stubs action = some next) :
    io.kernel <+: next.kernel := by
  have same (kept : next.kernel = io.kernel) : io.kernel <+: next.kernel := kept ▸ List.prefix_rfl
  cases step_changes stepped with
  | stands as => exact same as.kernel
  | closes as => exact same as.kernel
  | receives _ received as =>
    unfold SessionIo.onRecv at received
    split at received <;> cases received
    exact same as.kernel
  | swaps as =>
    apply same
    rw [as.kernel]
    unfold SessionIo.wbuffer
    split <;> rfl
  | sends sent =>
    simp only [SessionIo.afterSend, Option.ite_none_right_eq_some, Option.some.injEq] at sent
    obtain ⟨-, rfl⟩ := sent
    split <;> exact List.prefix_append ..
  | @delivers index message found delivered =>
    apply same
    rcases deliver_cases delivered with ⟨-, rfl⟩ | ⟨data, -, rfl⟩ <;> rfl
  | marks _ as => exact same as.kernel

private theorem onRecv_waiting {io next : SessionIo} (received : io.onRecv methods stubs = some next) :
    next.waiting = io.waiting := by
  unfold SessionIo.onRecv at received
  split at received <;> cases received
  rfl

private theorem afterRecv_waiting {io next : SessionIo} {send : Bool} {result : RecvResult}
    (stepped : io.afterRecv send result = some next) : next.waiting = io.waiting := by
  cases result with
  | received chunk =>
    simp only [SessionIo.afterRecv, Option.ite_none_right_eq_some, Option.some.injEq] at stepped
    obtain ⟨-, rfl⟩ := stepped
    rfl
  | closed | interrupted | again | error =>
    cases stepped
    rfl

private theorem afterSend_waiting {io next : SessionIo} {result : SendResult} (stepped : io.afterSend result = some next) :
    next.waiting = io.waiting := by
  cases result with
  | sent count =>
    simp only [SessionIo.afterSend, Option.ite_none_right_eq_some, Option.some.injEq] at stepped
    obtain ⟨-, rfl⟩ := stepped
    split <;> rfl
  | zero | interrupted | again | error =>
    cases stepped
    rfl

private theorem wbuffer_waiting (io : SessionIo) : io.wbuffer.waiting = io.waiting := by
  unfold SessionIo.wbuffer
  split <;> rfl

private theorem handleClose_waiting (io : SessionIo) : io.handleClose.waiting = io.waiting := by
  unfold SessionIo.handleClose
  split
  · split <;> rfl
  · rfl

/-- Only senders change what waits for the lock. -/
theorem step_waiting {io next : SessionIo} {action : IoAction} (stepped : io.step methods stubs action = some next)
    (enters : ∀ message, action ≠ .enter message) (delivers : ∀ index, action ≠ .deliver index) :
    next.waiting = io.waiting := by
  cases action with
  | enter message => exact absurd rfl (enters message)
  | deliver index => exact absurd rfl (delivers index)
  | setClose reason =>
    cases stepped
    rfl
  | beginRead =>
    simp only [SessionIo.step] at stepped
    split at stepped
    · split at stepped
      · obtain ⟨after, called, rfl⟩ := Option.map_eq_some_iff.1 stepped
        exact (onRecv_waiting called : after.waiting = io.waiting)
      · cases stepped
        rfl
    · cases stepped
  | recv result =>
    simp only [SessionIo.step] at stepped
    split at stepped
    · split at stepped
      · cases stepped
        rfl
      · exact afterRecv_waiting stepped
    · cases stepped
  | onRecv =>
    simp only [SessionIo.step] at stepped
    split at stepped
    · obtain ⟨after, called, rfl⟩ := Option.map_eq_some_iff.1 stepped
      exact (onRecv_waiting called : after.waiting = io.waiting)
    · cases stepped
  | beginWrite | refetch =>
    simp only [SessionIo.step, Option.ite_none_right_eq_some, Option.some.injEq] at stepped
    obtain ⟨-, rfl⟩ := stepped
    split <;> exact wbuffer_waiting io
  | send result =>
    simp only [SessionIo.step, Option.ite_none_right_eq_some] at stepped
    exact afterSend_waiting stepped.2
  | handleEvent | onSend =>
    simp only [SessionIo.step, Option.ite_none_right_eq_some, Option.some.injEq] at stepped
    obtain ⟨-, rfl⟩ := stepped
    rfl
  | handleClose =>
    simp only [SessionIo.step, Option.ite_none_right_eq_some, Option.some.injEq] at stepped
    obtain ⟨-, rfl⟩ := stepped
    exact handleClose_waiting io

/-- A sender that gets the lock leaves the queue, and its message is appended or dropped. -/
theorem deliver_changes {io next : SessionIo} {index : Nat} (stepped : io.step methods stubs (.deliver index) = some next) :
    ∃ message, io.waiting[index]? = some message ∧ next.waiting = io.waiting.eraseIdx index ∧ next.kernel = io.kernel ∧
      (next.accepted = io.accepted ∨ next.accepted = io.accepted ++ [message]) := by
  obtain ⟨message, found, delivered⟩ := deliver_stepped stepped
  rcases deliver_cases delivered with ⟨-, rfl⟩ | ⟨data, -, rfl⟩
  · exact ⟨message, found, rfl, rfl, .inl rfl⟩
  · exact ⟨message, found, rfl, rfl, .inr rfl⟩

/-! ## Frames in pieces -/

/-- Only so many frames reach into some bytes as there are bytes. -/
theorem near_frames (todo : List (Registered methods stubs)) {bytes : List UInt8} (cut : bytes <+: todo.flatMap (·.frame)) :
    ∃ near far, todo = near ++ far ∧ bytes <+: near.flatMap (·.frame) ∧ near.length ≤ bytes.length := by
  induction todo generalizing bytes with
  | nil => exact ⟨[], [], rfl, cut, Nat.zero_le _⟩
  | cons one others ih =>
    by_cases nothing : bytes = []
    · exact ⟨[], one :: others, rfl, by simp [nothing], Nat.zero_le _⟩
    rw [List.flatMap_cons] at cut
    rcases Nat.le_total bytes.length one.frame.length with short | long
    · refine ⟨[one], others, rfl, ?_, List.length_pos_of_ne_nil nothing⟩
      rw [List.flatMap_singleton]
      exact List.prefix_of_prefix_length_le cut (List.prefix_append ..) short
    · obtain ⟨later, rfl⟩ := List.prefix_of_prefix_length_le (List.prefix_append ..) cut long
      obtain ⟨near, far, rfl, within, few⟩ := ih ((List.prefix_append_right_inj _).mp cut)
      refine ⟨one :: near, far, rfl, ?_, ?_⟩
      · rw [List.flatMap_cons]
        exact (List.prefix_append_right_inj _).mpr within
      · have positive := frame_pos one
        rw [List.length_cons, List.length_append]
        omega

theorem Beginning.append {part : List UInt8} {todo : List (Registered methods stubs)} (begun : Beginning part todo)
    (more : List (Registered methods stubs)) : Beginning part (todo ++ more) := by
  cases todo with
  | cons one others => exact begun
  | nil =>
    obtain rfl : part = [] := begun
    cases more with
    | nil => rfl
    | cons one others => exact ⟨List.nil_prefix, frame_pos one⟩

theorem Buffered.append {session : Session} {todo : List (Registered methods stubs)} (buffered : Buffered session todo)
    (more : List (Registered methods stubs)) : Buffered session (todo ++ more) :=
  ⟨buffered.reados, buffered.readbuf, buffered.small, buffered.inside, buffered.begun.append more⟩

/-- `on_recv` with as many rounds as the model gives it, however many frames are still to come. -/
theorem Buffered.called {session : Session} {todo : List (Registered methods stubs)} (buffered : Buffered session todo)
    (cut : session.reados.unread ++ session.readbuf.bytes <+: todo.flatMap (·.frame))
    (word : ∀ one ∈ todo, one.payload.length < wordSize) :
    ∃ done rest after, todo = done ++ rest ∧
      session.onRecv methods stubs (session.reados.size + session.readbuf.len + 1) =
        .ok (some (done.map (·.message), after)) ∧
      Buffered after rest ∧
      session.reados.unread ++ session.readbuf.bytes =
        done.flatMap (·.frame) ++ (after.reados.unread ++ after.readbuf.bytes) := by
  obtain ⟨near, far, rfl, within, few⟩ := near_frames todo cut
  have close : Buffered session near := by
    refine ⟨buffered.reados, buffered.readbuf, buffered.small, buffered.inside, ?_⟩
    have begun := buffered.begun
    cases near with
    | cons one others => exact begun
    | nil =>
      rw [List.flatMap_nil, List.prefix_nil, List.append_eq_nil_iff] at within
      exact within.1
  have enough : near.length < session.reados.size + session.readbuf.len + 1 := by
    have unread : session.reados.unread.length ≤ session.reados.size := by
      rw [Octetsstream.unread, List.length_drop, length_bytes buffered.reados]
      exact Nat.sub_le ..
    have waiting := length_bytes buffered.readbuf
    rw [List.length_append] at few
    omega
  obtain ⟨done, rest, after, rfl, called, kept, moved, left, -⟩ := onRecv_buffered close within
    (fun one member => word one (List.mem_append_left _ member)) enough
  refine ⟨done, rest ++ far, after, List.append_assoc .., called, kept.append far, ?_⟩
  rw [left, ← List.append_assoc (done.flatMap _), ← moved, List.append_assoc, List.take_append_drop]

/-! ## One direction -/

/-- What `sender` has accepted and `receiver` has made of it. The bytes of the kernel are the frames
that have been dispatched, what is left of them at the receiver, and what is on the wire. -/
structure Conveying (sender receiver : SessionIo) (wire : List UInt8) (dispatched : List μ)
    (accepted : List (Registered methods stubs)) : Prop where
  frames : sender.accepted = accepted.map (·.frame)
  word : ∀ one ∈ accepted, one.payload.length < wordSize
  received : ∃ done todo, accepted = done ++ todo ∧ dispatched = done.map (·.message) ∧ Buffered receiver.session todo ∧
    sender.kernel = done.flatMap (·.frame) ++ (receiver.session.reados.unread ++ receiver.session.readbuf.bytes ++ wire)

namespace Conveying
variable {sender receiver next : SessionIo} {wire : List UInt8} {dispatched : List μ}
  {accepted : List (Registered methods stubs)}

/-- What is under way, up to the frames that have been dispatched. -/
theorem under_way (writing : Writing sender) (frames : sender.accepted = accepted.map (·.frame))
    {done todo : List (Registered methods stubs)} {here : List UInt8} (all : accepted = done ++ todo)
    (kernel : sender.kernel = done.flatMap (·.frame) ++ here) :
    here ++ sender.unsent ++ sender.writeos.bytes = todo.flatMap (·.frame) := by
  have order := writing.inOrder
  rw [SessionIo.InOrder, frames, ← List.flatMap_def, all, kernel, List.flatMap_append] at order
  simp only [List.append_assoc, List.append_cancel_left_eq] at order ⊢
  exact order

theorem sends {action : IoAction} (conveying : Conveying sender receiver wire dispatched accepted)
    (stepped : sender.step methods stubs action = some next) (same : next.accepted = sender.accepted) :
    Conveying next receiver (wire ++ next.kernel.drop sender.kernel.length) dispatched accepted := by
  obtain ⟨frames, word, done, todo, all, dispatched, buffered, kernel⟩ := conveying
  obtain ⟨more, grown⟩ := kernel_grows stepped
  refine ⟨same.trans frames, word, done, todo, all, dispatched, buffered, ?_⟩
  rw [← grown, List.drop_left, kernel]
  simp only [List.append_assoc]

theorem accepts (conveying : Conveying sender receiver wire dispatched accepted) {one : Registered methods stubs}
    (kernel : next.kernel = sender.kernel) (more : next.accepted = sender.accepted ++ [one.frame])
    (small : one.payload.length < wordSize) :
    Conveying next receiver wire dispatched (accepted ++ [one]) := by
  obtain ⟨frames, word, done, todo, all, dispatched, buffered, before⟩ := conveying
  refine ⟨?_, ?_, done, todo ++ [one], ?_, dispatched, buffered.append [one], kernel.trans before⟩
  · rw [more, frames, List.map_append, List.map_singleton]
  · intro other member
    rcases List.mem_append.1 member with old | new
    · exact word other old
    · rw [List.mem_singleton.1 new]
      exact small
  · rw [all, List.append_assoc]

theorem receives {action : IoAction} (conveying : Conveying sender receiver wire dispatched accepted)
    (writing : Writing sender) (stepped : receiver.step methods stubs action = some next)
    (on_wire : receiver.arrived action <+: wire) :
    Conveying sender next (wire.drop (receiver.arrived action).length)
      (dispatched ++ receiver.dispatches methods stubs action) accepted := by
  obtain ⟨frames, word, done, todo, all, handed, buffered, kernel⟩ := conveying
  obtain ⟨later, rfl⟩ := on_wire
  rw [List.drop_left]
  cases step_reading stepped with
  | still reados readbuf nothing none =>
    rw [nothing, List.nil_append] at kernel
    rw [none, List.append_nil]
    refine ⟨frames, word, done, todo, all, handed, ?_, ?_⟩
    · obtain ⟨valid, valid', small, inside, begun⟩ := buffered
      exact ⟨reados ▸ valid, readbuf ▸ valid', by rw [reados, readbuf]; exact small, reados ▸ inside, reados ▸ begun⟩
    · rw [reados, readbuf]
      exact kernel
  | @arrives chunk fits whole session =>
    obtain ⟨kept, bytes⟩ := arrive_buffered buffered fits
    rw [whole] at kernel
    rw [show receiver.dispatches methods stubs (.recv (.received chunk)) = [] from rfl, List.append_nil]
    refine ⟨frames, word, done, todo, all, handed, session ▸ kept, ?_⟩
    rw [kernel, session, bytes]
    simp only [Session.arrive, List.append_assoc]
  | receives called nothing dispatches session =>
    rw [nothing, List.nil_append] at kernel
    have cut : receiver.session.reados.unread ++ receiver.session.readbuf.bytes <+: todo.flatMap (·.frame) := by
      have way := under_way writing frames all kernel
      rw [← way]
      simp only [List.append_assoc]
      exact (List.prefix_append_right_inj _).mpr (List.prefix_append ..)
    obtain ⟨more, rest, after, rfl, called', kept, moved⟩ := buffered.called cut
      (fun one member => word one (all ▸ List.mem_append_right _ member))
    rw [called] at called'
    cases called'
    refine ⟨frames, word, done ++ more, rest, ?_, ?_, session ▸ kept, ?_⟩
    · rw [all, List.append_assoc]
    · rw [handed, dispatches, List.map_append]
    · rw [kernel, session, moved, List.flatMap_append]
      simp only [List.append_assoc]

end Conveying

/-! ## Both ends -/

/-- A message that can be sent is encoded as its frame. -/
theorem encode_sendable {message : μ} (sendable : Sendable methods stubs message) (stale : Nat → UInt8) :
    ∃ (one : Registered methods stubs) (os : Octetsstream), one.message = message ∧ one.payload.length < wordSize ∧
      encode methods stale message Octetsstream.new = .ok () os ∧ os.bytes = one.frame := by
  obtain ⟨payload, carried, exact, small⟩ := sendable
  have word : payload.length < wordSize := by
    simp only [wordSize]
    omega
  have empty : Octetsstream.new.size = 0 := rfl
  have guessed : 2048 < wordSize := by decide
  obtain ⟨data, encoded, -, content⟩ :=
    encodeGuess_layout carried.packs new_valid (by rw [empty, Nat.zero_add]; exact small) guessed stale
  rw [(tableRowExact_iff word).mp exact, List.take_length] at content
  exact ⟨⟨message, payload, carried⟩, _, rfl, word, encoded, content⟩

/-- One direction of a connection: what has been accepted and what waits for the lock was all given to
the sender, no message more often than it was. -/
structure Direction (total : List μ) (link : Link μ) (peer : Peer) (coming : List μ)
    (accepted waiting : List (Registered methods stubs)) : Prop where
  conveying : Conveying (link.ends peer) (link.ends peer.other) (link.wire peer.other) (link.dispatched peer.other) accepted
  waits : (link.ends peer).waiting = waiting.map (·.frame)
  word : ∀ one ∈ waiting, one.payload.length < wordSize
  given : ((accepted ++ waiting).map (·.message) ++ coming).Subperm total

theorem other_ne_peer (peer : Peer) : peer.other ≠ peer := by
  cases peer <;> decide

theorem other_other_peer (peer : Peer) : peer.other.other = peer := by
  cases peer <;> rfl

theorem act_eq_some {link after : Link μ} {peer : Peer} {action : IoAction}
    (acted : link.act methods stubs peer action = some after) :
    ∃ next, (link.ends peer).step methods stubs action = some next ∧ (link.ends peer).arrived action <+: link.wire peer ∧
      after.ends peer = next ∧ after.ends peer.other = link.ends peer.other ∧
      after.wire peer = (link.wire peer).drop ((link.ends peer).arrived action).length ∧
      after.wire peer.other = link.wire peer.other ++ next.kernel.drop (link.ends peer).kernel.length ∧
      after.dispatched peer = link.dispatched peer ++ (link.ends peer).dispatches methods stubs action ∧
      after.dispatched peer.other = link.dispatched peer.other := by
  have different := other_ne_peer peer
  simp only [Link.act] at acted
  split at acted
  next on_wire =>
    split at acted
    next => cases acted
    next next stepped =>
      cases acted
      refine ⟨next, stepped, on_wire, ?_, ?_, ?_, ?_, ?_, ?_⟩
      · exact Function.update_self ..
      · exact Function.update_of_ne different ..
      · simp [Function.update_of_ne different.symm]
      · exact Function.update_self ..
      · exact Function.update_self ..
      · exact Function.update_of_ne different ..
  next => cases acted

/-- A step of one end, seen from the direction in which that end receives. -/
theorem Direction.receives {total coming : List μ} {link after : Link μ} {peer : Peer} {action : IoAction}
    {accepted waiting : List (Registered methods stubs)}
    (direction : Direction total link peer.other coming accepted waiting) (writing : Writing (link.ends peer.other))
    (acted : link.act methods stubs peer action = some after) :
    Direction total after peer.other coming accepted waiting := by
  obtain ⟨next, stepped, on_wire, here, there, wire, -, dispatched, -⟩ := act_eq_some acted
  obtain ⟨conveying, waits, word, given⟩ := direction
  rw [other_other_peer] at conveying
  refine ⟨?_, by rw [there, waits], word, given⟩
  rw [other_other_peer, there, here, wire, dispatched]
  exact conveying.receives writing stepped on_wire

/-- A step of one end, seen from the direction in which that end sends. -/
theorem Direction.sends {total coming : List μ} {link after : Link μ} {peer : Peer} {action : IoAction}
    {accepted waiting : List (Registered methods stubs)} (direction : Direction total link peer coming accepted waiting)
    (writing : Writing (link.ends peer)) (acted : link.act methods stubs peer action = some after)
    (enters : ∀ message, action ≠ .enter message) :
    ∃ accepted waiting : List (Registered methods stubs), Direction total after peer coming accepted waiting := by
  obtain ⟨next, stepped, -, here, there, -, wire, -, dispatched⟩ := act_eq_some acted
  obtain ⟨conveying, waits, word, given⟩ := direction
  have sending (accepted : List (Registered methods stubs))
      (conveying : Conveying next (link.ends peer.other) (link.wire peer.other ++ next.kernel.drop (link.ends peer).kernel.length)
        (link.dispatched peer.other) accepted) :
      Conveying (after.ends peer) (after.ends peer.other) (after.wire peer.other) (after.dispatched peer.other) accepted := by
    rw [here, there, wire, dispatched]
    exact conveying
  by_cases other : ∀ index, action ≠ .deliver index
  · have same : next.accepted = (link.ends peer).accepted := by
      have whole : (link.ends peer).AppendsWhole methods stubs action := writing.appendsWhole action
      cases action with
      | deliver index => exact absurd rfl (other index)
      | _ => exact whole next stepped
    refine ⟨accepted, waiting, sending _ (conveying.sends stepped same), ?_, word, given⟩
    rw [here, step_waiting stepped enters other, waits]
  · obtain ⟨index, rfl⟩ : ∃ index, action = .deliver index := by
      by_contra none
      exact other fun index same => none ⟨index, same⟩
    obtain ⟨message, found, shorter, kernel, kept⟩ := deliver_changes stepped
    rw [waits, List.getElem?_map, Option.map_eq_some_iff] at found
    obtain ⟨one, found, rfl⟩ := found
    obtain ⟨inside, rfl⟩ := List.getElem?_eq_some_iff.1 found
    have waits' : (after.ends peer).waiting = (waiting.eraseIdx index).map (·.frame) := by
      rw [here, shorter, waits, List.eraseIdx_map]
    have word' (other : Registered methods stubs) (member : other ∈ waiting.eraseIdx index) : other.payload.length < wordSize :=
      word other ((List.eraseIdx_sublist ..).subset member)
    rcases kept with dropped | appended
    · refine ⟨accepted, waiting.eraseIdx index, sending _ (conveying.sends stepped dropped), waits', word', ?_⟩
      apply List.Subperm.trans _ given
      apply List.Sublist.subperm
      apply List.Sublist.append_right
      exact ((List.Sublist.refl accepted).append (List.eraseIdx_sublist ..)).map _
    · refine ⟨accepted ++ [waiting[index]], waiting.eraseIdx index, sending _ ?_, waits', word', ?_⟩
      · rw [kernel, List.drop_length, List.append_nil]
        exact conveying.accepts kernel appended (word _ (List.getElem_mem inside))
      · apply List.Subperm.trans _ given
        apply List.Perm.subperm
        apply List.Perm.append_right
        apply List.Perm.map
        rw [List.append_assoc]
        exact (List.getElem_cons_eraseIdx_perm inside).append_left accepted

/-- A message is encoded and queued, or the session is closing and it is not. -/
theorem Direction.enters {total coming : List μ} {link after : Link μ} {peer : Peer} {one : Registered methods stubs}
    {accepted waiting : List (Registered methods stubs)}
    (direction : Direction total link peer (one.message :: coming) accepted waiting) (writing : Writing (link.ends peer))
    (small : one.payload.length < wordSize) (acted : link.act methods stubs peer (.enter one.frame) = some after) :
    ∃ waiting : List (Registered methods stubs), Direction total after peer coming accepted waiting := by
  obtain ⟨next, stepped, -, here, there, -, wire, -, dispatched⟩ := act_eq_some acted
  obtain ⟨conveying, waits, word, given⟩ := direction
  have whole : (link.ends peer).AppendsWhole methods stubs (.enter one.frame) := writing.appendsWhole _
  have same : next.accepted = (link.ends peer).accepted := whole next stepped
  have conveying' : Conveying (after.ends peer) (after.ends peer.other) (after.wire peer.other)
      (after.dispatched peer.other) accepted := by
    rw [here, there, wire, dispatched]
    exact conveying.sends stepped same
  simp only [SessionIo.step] at stepped
  split at stepped
  next closing =>
    cases stepped
    refine ⟨waiting, conveying', by rw [here, waits], word, ?_⟩
    apply List.Subperm.trans _ given
    apply List.Sublist.subperm
    exact (List.Sublist.refl _).append (List.sublist_cons_self ..)
  next =>
    cases stepped
    refine ⟨waiting ++ [one], conveying', ?_, ?_, ?_⟩
    · rw [here, waits, List.map_append, List.map_singleton]
    · intro other member
      rcases List.mem_append.1 member with old | new
      · exact word other old
      · rw [List.mem_singleton.1 new]
        exact small
    · rwa [← List.append_assoc, List.map_append, List.map_singleton, List.append_assoc, List.singleton_append]

/-- Both directions, along a run with what is still to come. -/
structure Conveyed (methods : ProtocolMethods μ) (stubs : Stubs μ) (total : Peer → List μ) (link : Link μ)
    (actions : List (LinkAction μ)) : Prop where
  writing (peer : Peer) : Writing (link.ends peer)
  sendable (peer : Peer) (stale : Nat → UInt8) (message : μ) (given : .sendProtocol peer stale message ∈ actions) :
    Sendable methods stubs message
  direction (peer : Peer) : ∃ accepted waiting : List (Registered methods stubs),
    Direction (total peer) link peer (sends peer actions) accepted waiting

theorem peer_cases (peer here : Peer) : here = peer ∨ here = peer.other := by
  cases peer <;> cases here <;> simp [Peer.other]

theorem act_writing {link after : Link μ} {peer : Peer} {action : IoAction} (writing : ∀ peer, Writing (link.ends peer))
    (acted : link.act methods stubs peer action = some after) (here : Peer) : Writing (after.ends here) := by
  obtain ⟨next, stepped, -, same, there, -⟩ := act_eq_some acted
  rcases peer_cases peer here with rfl | rfl
  · rw [same]
    exact (writing here).step stepped
  · rw [there]
    exact writing peer.other

theorem Conveyed.step {total : Peer → List μ} {link after : Link μ} {action : LinkAction μ} {actions : List (LinkAction μ)}
    (conveyed : Conveyed methods stubs total link (action :: actions)) (stepped : link.step methods stubs action = some after) :
    Conveyed methods stubs total after actions := by
  obtain ⟨writing, sendable, direction⟩ := conveyed
  have later (peer : Peer) (stale : Nat → UInt8) (message : μ) (given : .sendProtocol peer stale message ∈ actions) :=
    sendable peer stale message (List.mem_cons_of_mem _ given)
  have receiving {peer : Peer} {act : IoAction} (acted : link.act methods stubs peer act = some after)
      (coming : sends peer.other (action :: actions) = sends peer.other actions) :
      ∃ accepted waiting : List (Registered methods stubs),
        Direction (total peer.other) after peer.other (sends peer.other actions) accepted waiting := by
    obtain ⟨accepted, waiting, held⟩ := direction peer.other
    rw [coming] at held
    exact ⟨accepted, waiting, held.receives (writing peer.other) acted⟩
  cases action with
  | sendProtocol peer stale message =>
    obtain ⟨one, os, rfl, small, encoded, content⟩ := encode_sendable (sendable peer stale message (List.mem_cons_self ..)) stale
    have acted : link.act methods stubs peer (.enter one.frame) = some after := by
      simp only [Link.step, encoded] at stepped
      rwa [content] at stepped
    refine ⟨act_writing writing acted, later, fun here => ?_⟩
    rcases peer_cases peer here with rfl | rfl
    · obtain ⟨accepted, waiting, held⟩ := direction here
      rw [sends, if_pos rfl] at held
      exact ⟨accepted, held.enters (writing here) small acted⟩
    · exact receiving acted (if_neg (other_ne_peer peer).symm)
  | act peer act =>
    have enters (message : List UInt8) : act ≠ .enter message := by
      rintro rfl
      cases stepped
    have acted : link.act methods stubs peer act = some after := by
      cases act with
      | enter message => exact absurd rfl (enters message)
      | _ => exact stepped
    refine ⟨act_writing writing acted, later, fun here => ?_⟩
    rcases peer_cases peer here with rfl | rfl
    · obtain ⟨accepted, waiting, held⟩ := direction here
      exact held.sends (writing here) acted enters
    · exact receiving acted rfl

theorem create_conveying {server client : Nat × Nat} {io other : SessionIo}
    (created : SessionIo.create server.1 server.2 = .ok io) (created' : SessionIo.create client.1 client.2 = .ok other) :
    Conveying io other [] [] ([] : List (Registered methods stubs)) ∧ io.waiting = [] := by
  have empty (sizes : Nat × Nat) (io : SessionIo) (created : SessionIo.create sizes.1 sizes.2 = .ok io) :
      Buffered io.session ([] : List (Registered methods stubs)) ∧ io.session.reados.unread = [] ∧
        io.session.readbuf.bytes = [] ∧ io.kernel = [] ∧ io.accepted = [] ∧ io.waiting = [] := by
    unfold SessionIo.create Session.create at created
    cases reading : Octets.new.reserve sizes.1 with
    | error thrown => simp [reading, bind, Except.bind] at created
    | ok block =>
      cases writing : Octets.new.reserve sizes.2 with
      | error thrown => simp [reading, writing, bind, Except.bind, pure, Except.pure] at created
      | ok block' =>
        simp only [reading, writing, bind, Except.bind, pure, Except.pure, Except.ok.injEq] at created
        subst created
        obtain ⟨valid, nothing, small, -⟩ := reserve_new reading
        have bytes : block.bytes = [] := by simp [Octets.bytes, nothing]
        have unread : Octetsstream.unread ⟨block, 0, 0⟩ = [] := by simp [Octetsstream.unread, bytes]
        exact ⟨⟨valid, valid, ⟨small, small⟩, Nat.zero_le _, unread⟩, unread, bytes, rfl, rfl, rfl⟩
  obtain ⟨-, -, -, kernel, accepted, waiting⟩ := empty server io created
  obtain ⟨buffered, unread, bytes, -⟩ := empty client other created'
  refine ⟨⟨accepted, fun _ => List.not_mem_nil.elim, [], [], rfl, rfl, buffered, ?_⟩, waiting⟩
  rw [kernel, unread, bytes]
  rfl

theorem create_conveyed {sizes : Peer → Nat × Nat} {link : Link μ} {actions : List (LinkAction μ)}
    (created : Link.create sizes = .ok link)
    (sendable : ∀ peer stale message, .sendProtocol peer stale message ∈ actions → Sendable methods stubs message) :
    Conveyed methods stubs (fun peer => sends peer actions) link actions := by
  unfold Link.create at created
  cases server : SessionIo.create (sizes .server).1 (sizes .server).2 with
  | error thrown => simp [server, bind, Except.bind] at created
  | ok io =>
    cases client : SessionIo.create (sizes .client).1 (sizes .client).2 with
    | error thrown => simp [server, client, bind, Except.bind] at created
    | ok other =>
      simp only [server, client, bind, Except.bind, pure, Except.pure, Except.ok.injEq] at created
      subst created
      refine ⟨fun peer => ?_, sendable, fun peer => ⟨[], [], ?_⟩⟩
      · cases peer with
        | server => exact (create_writing server).1
        | client => exact (create_writing client).1
      · cases peer with
        | server =>
          obtain ⟨conveying, waiting⟩ := create_conveying server client
          exact ⟨conveying, waiting, by simp, List.Subperm.refl _⟩
        | client =>
          obtain ⟨conveying, waiting⟩ := create_conveying client server
          exact ⟨conveying, waiting, by simp, List.Subperm.refl _⟩

theorem Direction.inOrder {total coming : List μ} {link : Link μ} {peer : Peer}
    {accepted waiting : List (Registered methods stubs)} (direction : Direction total link peer coming accepted waiting) :
    link.dispatched peer.other <+: accepted.map (·.message) := by
  obtain ⟨done, todo, rfl, dispatched, -⟩ := direction.conveying.received
  rw [dispatched, List.map_append]
  exact List.prefix_append ..

/-- With no byte under way there is no frame that the receiver still waits for. -/
theorem Direction.complete {total coming : List μ} {link : Link μ} {peer : Peer}
    {accepted waiting : List (Registered methods stubs)} (direction : Direction total link peer coming accepted waiting)
    (writing : Writing (link.ends peer)) (drained : link.Drained peer) :
    link.dispatched peer.other = accepted.map (·.message) := by
  obtain ⟨unsent, waits, wire, moved⟩ := drained
  obtain ⟨frames, -, done, todo, all, dispatched, buffered, kernel⟩ := direction.conveying
  have way := Conveying.under_way writing frames all kernel
  have bytes : (link.ends peer.other).session.readbuf.bytes = [] := by simp [Octets.bytes, moved]
  rw [bytes, wire, unsent, waits] at way
  simp only [List.append_nil] at way
  have none_left : todo = [] := by
    cases todo with
    | nil => rfl
    | cons one others =>
      have short := buffered.begun.2
      rw [way, List.flatMap_cons, List.length_append] at short
      omega
  rw [dispatched, all, none_left, List.append_nil]

theorem run_conveyed {sizes : Peer → Nat × Nat} {start link : Link μ} {actions : List (LinkAction μ)}
    (created : Link.create sizes = .ok start)
    (sendable : ∀ peer stale message, .sendProtocol peer stale message ∈ actions → Sendable methods stubs message)
    (ran : actions.foldlM (Link.step methods stubs) start = some link) :
    Conveyed methods stubs (fun peer => sends peer actions) link [] :=
  (Run.of_foldlM ran).invariant_of_rest (Conveyed methods stubs fun peer => sends peer actions)
    (fun before stepped => before.step stepped) (create_conveyed created sendable)

theorem Direction.subperm {total coming : List μ} {link : Link μ} {peer : Peer} {accepted waiting : List (Registered methods stubs)}
    (direction : Direction total link peer coming accepted waiting) : (accepted.map (·.message)).Subperm total := by
  apply List.Subperm.trans _ direction.given
  apply List.Sublist.subperm
  rw [List.map_append, List.append_assoc]
  exact List.sublist_append_left ..

/-- In every run of both ends and the network, what one end has dispatched is the beginning of the
messages that the other end has accepted, in their order; it is all of them once nothing is under
way; and no message is accepted more often than it was given to `send_protocol`. -/
theorem messages_conveyed (methods : ProtocolMethods μ) (stubs : Stubs μ) (sizes : Peer → Nat × Nat) (start : Link μ)
    (created : Link.create sizes = .ok start) (actions : List (LinkAction μ))
    (sendable : ∀ peer stale message, .sendProtocol peer stale message ∈ actions → Sendable methods stubs message)
    (link : Link μ) (ran : actions.foldlM (Link.step methods stubs) start = some link) (peer : Peer) :
    ∃ accepted : List (Registered methods stubs),
      (link.ends peer).accepted = accepted.map (·.frame) ∧ (accepted.map (·.message)).Subperm (sends peer actions) ∧
        link.dispatched peer.other <+: accepted.map (·.message) ∧
        (link.Drained peer → link.dispatched peer.other = accepted.map (·.message)) := by
  have conveyed := run_conveyed created sendable ran
  obtain ⟨accepted, waiting, direction⟩ := conveyed.direction peer
  exact ⟨accepted, direction.conveying.frames, direction.subperm, direction.inOrder,
    direction.complete (conveyed.writing peer)⟩

/-- Two ends with the smallest buffers. -/
def openedLink : Link octetsRegistry.Message :=
  ⟨fun | .server => openedIo | .client => openedIo, fun _ => [], fun _ => []⟩

/-- The client sends a message, and the server gets it in two pieces. -/
def oneMessage : List (LinkAction octetsRegistry.Message) :=
  [.sendProtocol .client (fun _ => 0) ⟨1, [7]⟩, .act .client (.deliver 0), .act .client (.handleEvent false true),
    .act .client .beginWrite, .act .client (.send (.sent 4)), .act .server (.handleEvent true false), .act .server .beginRead,
    .act .server (.recv (.received [1, 2, 1])), .act .server (.recv (.received [7])), .act .server (.recv .again),
    .act .server .onRecv]

instance (link : Link μ) (peer : Peer) : Decidable (link.Drained peer) :=
  inferInstanceAs (Decidable (_ ∧ _ ∧ _ ∧ _))

theorem oneMessage_conveyed :
    ∃ link, oneMessage.foldlM (Link.step octetsRegistry.methods octetsRegistry.stubs) openedLink = some link ∧
      (link.dispatched .server).map (fun message => message.2) = [[7]] ∧
      ∃ accepted : List (Registered octetsRegistry.methods octetsRegistry.stubs),
        (link.ends .client).accepted = accepted.map (·.frame) ∧
          link.dispatched .server = accepted.map (·.message) := by
  have computed : (oneMessage.foldlM (Link.step octetsRegistry.methods octetsRegistry.stubs) openedLink).map (fun link =>
      ((link.dispatched .server).map (fun message => message.2), decide (link.Drained .client))) = some ([[7]], true) := by
    decide +kernel
  obtain ⟨link, ran, same⟩ := Option.map_eq_some_iff.1 computed
  simp only [Prod.mk.injEq, decide_eq_true_eq] at same
  have sendable (peer : Peer) (stale : Nat → UInt8) (message : octetsRegistry.Message)
      (given : .sendProtocol peer stale message ∈ oneMessage) : Sendable octetsRegistry.methods octetsRegistry.stubs message := by
    simp only [oneMessage, List.mem_cons, LinkAction.sendProtocol.injEq, reduceCtorEq, List.not_mem_nil, or_false] at given
    obtain ⟨-, -, rfl⟩ := given
    exact ⟨_, (octetsOutgoing [7] (by decide)).carried, by decide +kernel, by decide +kernel⟩
  obtain ⟨accepted, frames, -, -, all⟩ := messages_conveyed octetsRegistry.methods octetsRegistry.stubs (fun _ => (16, 16))
    openedLink rfl oneMessage sendable link ran .client
  exact ⟨link, ran, same.1, accepted, frames, all same.2⟩

end Proofs
end Cassobee
