import Cassobee.Proofs.Frames
import Cassobee.SessionIo
import Cassobee.Support.Run

/-! What becomes of the bytes that senders hand to a session. They pass through `_writeos` and
`_writebuf` in order, whatever the kernel takes at a time; only `is_writeos_empty` does not see all
of them. -/

namespace Cassobee
open Support

namespace SessionIo
variable {μ : Type} (methods : ProtocolMethods μ) (stubs : Stubs μ)

/-- The bytes of `_writebuf` that no call of `send` has passed on. -/
def unsent (io : SessionIo) : List UInt8 := io.writebuf.bytes.drop io.writeOffset

/-- What the kernel has, what is on its way and what waits make up the accepted messages. -/
def InOrder (io : SessionIo) : Prop := io.kernel ++ io.unsent ++ io.writeos.bytes = io.accepted.flatten

/-- A message whose sender has the lock is appended whole or not at all, and nothing else is
appended. -/
def AppendsWhole (io : SessionIo) : IoAction → Prop
  | .deliver index => ∀ message, io.waiting[index]? = some message →
    ∃ next, io.step methods stubs (.deliver index) = some next ∧
      if message.length ≤ io.writeos.data.freeSpace then
        next.accepted = io.accepted ++ [message] ∧ next.writeos.bytes = io.writeos.bytes ++ message
      else
        next = { io with waiting := io.waiting.eraseIdx index }
  | action => ∀ next, io.step methods stubs action = some next → next.accepted = io.accepted

/-- `handle_close` deletes the event only when the kernel has everything. -/
def DeletesFlushed (io : SessionIo) : Prop :=
  ({ io with deleted := false } : SessionIo).handleClose.deleted = true → io.kernel = io.accepted.flatten

/-- `is_writeos_empty` tells whether nothing is left to send. -/
def EmptinessTold (io : SessionIo) : Prop := io.isWriteosEmpty = true ↔ io.unsent = [] ∧ io.writeos.bytes = []

end SessionIo

namespace Proofs
open SessionIo
variable {μ : Type} {methods : ProtocolMethods μ} {stubs : Stubs μ}

/-- The writing side is as it was. -/
structure WritesAs (io next : SessionIo) : Prop where
  writebuf : next.writebuf = io.writebuf
  writeos : next.writeos = io.writeos
  offset : next.writeOffset = io.writeOffset
  kernel : next.kernel = io.kernel
  accepted : next.accepted = io.accepted

/-- The mark of the session is also as it was. -/
structure StandsAs (io next : SessionIo) : Prop extends WritesAs io next where
  status : next.session.status = io.session.status
  closeCalled : next.closeCalled = io.closeCalled

/-- Everything that a step can do to the writing side and to the mark of the session. -/
inductive Changes (methods : ProtocolMethods μ) (stubs : Stubs μ) (io next : SessionIo) : IoAction → Prop where
  | stands {action : IoAction} (same : StandsAs io next) : Changes methods stubs io next action
  | closes {action : IoAction} (same : WritesAs io next) (closed : next.isClose = true) : Changes methods stubs io next action
  | receives {action : IoAction} {send : Bool} {after : SessionIo}
      (reads : action = .beginRead ∧ io.pc = .read send ∧ io.session.readbuf.freeSpace = 0 ∨
        action = .onRecv ∧ io.pc = .received send)
      (received : io.onRecv methods stubs = some after) (same : StandsAs after next) : Changes methods stubs io next action
  | swaps {action : IoAction} (same : StandsAs io.wbuffer next) : Changes methods stubs io next action
  | sends {count : Nat} (sent : io.afterSend (.sent count) = some next) : Changes methods stubs io next (.send (.sent count))
  | delivers {index : Nat} {message : List UInt8} (found : io.waiting[index]? = some message)
      (delivered : ({ io with waiting := io.waiting.eraseIdx index } : SessionIo).deliver message = .ok next) :
      Changes methods stubs io next (.deliver index)
  | marks (here : io.pc = .written) (same : StandsAs io.onSend next) : Changes methods stubs io next .onSend

private theorem afterRecv_changes {io next : SessionIo} {action : IoAction} {send : Bool} {result : RecvResult}
    (stepped : io.afterRecv send result = some next) : Changes methods stubs io next action := by
  cases result with
  | received chunk =>
    simp only [afterRecv, Option.ite_none_right_eq_some, Option.some.injEq] at stepped
    obtain ⟨-, rfl⟩ := stepped
    exact .stands ⟨⟨rfl, rfl, rfl, rfl, rfl⟩, rfl, rfl⟩
  | interrupted | again =>
    cases stepped
    exact .stands ⟨⟨rfl, rfl, rfl, rfl, rfl⟩, rfl, rfl⟩
  | closed | error =>
    cases stepped
    exact .closes ⟨rfl, rfl, rfl, rfl, rfl⟩ rfl

private theorem afterSend_changes {io next : SessionIo} {result : SendResult} (stepped : io.afterSend result = some next) :
    Changes methods stubs io next (.send result) := by
  cases result with
  | sent count => exact .sends stepped
  | interrupted | again =>
    cases stepped
    exact .stands ⟨⟨rfl, rfl, rfl, rfl, rfl⟩, rfl, rfl⟩
  | zero | error =>
    cases stepped
    exact .closes ⟨rfl, rfl, rfl, rfl, rfl⟩ rfl

/-- A message is appended whole or, for want of room, dropped. -/
theorem deliver_cases {io next : SessionIo} {message : List UInt8} (delivered : io.deliver message = .ok next) :
    io.writeos.data.freeSpace < message.length ∧ next = io ∨
      ∃ data, io.writeos.data.append message = .ok data ∧
        next = { io with writeos := { io.writeos with data }, sendPermitted := true, accepted := io.accepted ++ [message] } := by
  unfold SessionIo.deliver at delivered
  split at delivered
  next full =>
    cases delivered
    exact .inl ⟨full, rfl⟩
  next =>
    cases appended : io.writeos.data.append message with
    | error thrown => simp [appended, bind, Except.bind] at delivered
    | ok data =>
      simp only [appended, bind, Except.bind, Except.ok.injEq] at delivered
      exact .inr ⟨data, rfl, delivered.symm⟩

theorem deliver_stepped {io next : SessionIo} {index : Nat} (stepped : io.step methods stubs (.deliver index) = some next) :
    ∃ message, io.waiting[index]? = some message ∧
      ({ io with waiting := io.waiting.eraseIdx index } : SessionIo).deliver message = .ok next := by
  simp only [SessionIo.step] at stepped
  split at stepped
  next => cases stepped
  next message found =>
    split at stepped
    next after delivered =>
      cases stepped
      exact ⟨message, found, delivered⟩
    next => cases stepped

theorem step_changes {io next : SessionIo} {action : IoAction} (stepped : io.step methods stubs action = some next) :
    Changes methods stubs io next action := by
  cases action with
  | setClose reason =>
    cases stepped
    exact .closes ⟨rfl, rfl, rfl, rfl, rfl⟩ rfl
  | enter message =>
    simp only [SessionIo.step] at stepped
    split at stepped <;> cases stepped <;> exact .stands ⟨⟨rfl, rfl, rfl, rfl, rfl⟩, rfl, rfl⟩
  | deliver index =>
    obtain ⟨message, found, delivered⟩ := deliver_stepped stepped
    exact .delivers found delivered
  | handleEvent recv send =>
    simp only [SessionIo.step, Option.ite_none_right_eq_some, Option.some.injEq] at stepped
    obtain ⟨-, rfl⟩ := stepped
    exact .stands ⟨⟨rfl, rfl, rfl, rfl, rfl⟩, rfl, rfl⟩
  | beginRead =>
    simp only [SessionIo.step] at stepped
    split at stepped
    next send here =>
      split at stepped
      next full =>
        obtain ⟨after, received, rfl⟩ := Option.map_eq_some_iff.1 stepped
        exact .receives (.inl ⟨rfl, here, full⟩) received ⟨⟨rfl, rfl, rfl, rfl, rfl⟩, rfl, rfl⟩
      next =>
        cases stepped
        exact .stands ⟨⟨rfl, rfl, rfl, rfl, rfl⟩, rfl, rfl⟩
    next => cases stepped
  | recv result =>
    simp only [SessionIo.step] at stepped
    split at stepped
    · split at stepped
      · cases stepped
        exact .stands ⟨⟨rfl, rfl, rfl, rfl, rfl⟩, rfl, rfl⟩
      · exact afterRecv_changes stepped
    · cases stepped
  | onRecv =>
    simp only [SessionIo.step] at stepped
    split at stepped
    next send here =>
      obtain ⟨after, received, rfl⟩ := Option.map_eq_some_iff.1 stepped
      exact .receives (.inr ⟨rfl, here⟩) received ⟨⟨rfl, rfl, rfl, rfl, rfl⟩, rfl, rfl⟩
    next => cases stepped
  | beginWrite | refetch =>
    simp only [SessionIo.step, Option.ite_none_right_eq_some, Option.some.injEq] at stepped
    obtain ⟨-, rfl⟩ := stepped
    split <;> exact .swaps ⟨⟨rfl, rfl, rfl, rfl, rfl⟩, rfl, rfl⟩
  | send result =>
    simp only [SessionIo.step, Option.ite_none_right_eq_some] at stepped
    exact afterSend_changes stepped.2
  | onSend =>
    simp only [SessionIo.step, Option.ite_none_right_eq_some, Option.some.injEq] at stepped
    obtain ⟨here, rfl⟩ := stepped
    exact .marks here ⟨⟨rfl, rfl, rfl, rfl, rfl⟩, rfl, rfl⟩
  | handleClose =>
    simp only [SessionIo.step, Option.ite_none_right_eq_some, Option.some.injEq] at stepped
    obtain ⟨-, rfl⟩ := stepped
    unfold SessionIo.handleClose
    split
    · split <;> exact .stands ⟨⟨rfl, rfl, rfl, rfl, rfl⟩, rfl, rfl⟩
    · exact .stands ⟨⟨rfl, rfl, rfl, rfl, rfl⟩, rfl, rfl⟩

structure Writing (io : SessionIo) : Prop where
  writebuf : io.writebuf.Valid
  writeos : io.writeos.data.Valid
  small : io.writebuf.cap ≤ 2 ^ 63 ∧ io.writeos.data.cap ≤ 2 ^ 63
  offset : io.writebuf.len = 0 ∧ io.writeOffset = 0 ∨ io.writeOffset < io.writebuf.len
  inOrder : io.InOrder

/-- Everything but the writing side may change. -/
theorem Writing.congr {io next : SessionIo} (writing : Writing io) (same : WritesAs io next) : Writing next := by
  obtain ⟨valid, valid', small, place, order⟩ := writing
  obtain ⟨writebuf, writeos, offset, kernel, accepted⟩ := same
  refine ⟨writebuf ▸ valid, writeos ▸ valid', ?_, ?_, ?_⟩
  · rw [writebuf, writeos]
    exact small
  · rw [writebuf, offset]
    exact place
  · unfold InOrder unsent at order ⊢
    rw [writebuf, writeos, offset, kernel, accepted]
    exact order

theorem Writing.wbuffer {io : SessionIo} (writing : Writing io) : Writing io.wbuffer := by
  obtain ⟨valid, valid', small, place, order⟩ := writing
  unfold SessionIo.wbuffer
  split
  next empty =>
    have start : io.writeOffset = 0 := by omega
    have nothing : io.unsent = [] := by simp [unsent, Octets.bytes, empty]
    refine ⟨valid', Nat.zero_le _, small.symm, ?_, ?_⟩
    · rcases Nat.eq_zero_or_pos io.writeos.data.len with zero | positive
      · exact .inl ⟨zero, start⟩
      · exact .inr (start ▸ positive)
    · unfold InOrder at order ⊢
      rw [nothing, List.append_nil] at order
      simp only [unsent, start, List.drop_zero, Octetsstream.bytes, clear_bytes, List.append_nil]
      exact order
  next => exact ⟨valid, valid', small, place, order⟩

theorem Writing.sent {io next : SessionIo} {count : Nat} (writing : Writing io)
    (stepped : io.afterSend (.sent count) = some next) : Writing next := by
  obtain ⟨valid, valid', small, place, order⟩ := writing
  simp only [afterSend, Option.ite_none_right_eq_some, Option.some.injEq] at stepped
  obtain ⟨⟨positive, few⟩, rfl⟩ := stepped
  have parts : (io.writebuf.bytes.drop io.writeOffset).take count ++ io.writebuf.bytes.drop (io.writeOffset + count) =
      io.unsent := by
    rw [unsent, ← List.drop_drop, List.take_append_drop]
  have moved : io.kernel ++ (io.writebuf.bytes.drop io.writeOffset).take count ++
      io.writebuf.bytes.drop (io.writeOffset + count) ++ io.writeos.bytes = io.accepted.flatten := by
    rw [List.append_assoc io.kernel, parts]
    exact order
  split
  next all =>
    have rest : io.writebuf.bytes.drop (io.writeOffset + count) = [] := by
      rw [List.drop_eq_nil_iff, length_bytes valid]
      exact Nat.le_of_eq all.symm
    refine ⟨Nat.zero_le _, valid', small, .inl ⟨rfl, rfl⟩, ?_⟩
    rw [rest, List.append_nil] at moved
    simp only [InOrder, unsent, clearWbuffer, clear_bytes, List.drop_nil, List.append_nil]
    exact moved
  next some_left =>
    refine ⟨valid, valid', small, .inr ?_, moved⟩
    simp only at some_left ⊢
    omega

theorem Writing.deliver {io : SessionIo} (writing : Writing io) (message : List UInt8) :
    ∃ next, io.deliver message = .ok next ∧ Writing next ∧
      if message.length ≤ io.writeos.data.freeSpace then
        next.accepted = io.accepted ++ [message] ∧ next.writeos.bytes = io.writeos.bytes ++ message
      else
        next = io := by
  obtain ⟨valid, valid', small, place, order⟩ := writing
  unfold SessionIo.deliver
  by_cases fits : message.length ≤ io.writeos.data.freeSpace
  · have room : io.writeos.data.len + message.length ≤ io.writeos.data.cap := by
      simp only [Octets.freeSpace, Octets.Valid] at fits valid'
      omega
    obtain ⟨data, appended, kept, bytes, -, cap⟩ := append_of_fits valid' room
      (Nat.lt_of_le_of_lt room (Nat.lt_of_le_of_lt small.2 (by decide)))
    refine ⟨{ io with writeos := { io.writeos with data }, sendPermitted := true, accepted := io.accepted ++ [message] },
      ?_, ⟨valid, kept, ⟨small.1, cap ▸ small.2⟩, place, ?_⟩, ?_⟩
    · rw [if_neg (Nat.not_lt.2 fits), appended]
      rfl
    · simp only [InOrder, unsent, Octetsstream.bytes, bytes, List.flatten_append, List.flatten_cons, List.flatten_nil,
        List.append_nil] at order ⊢
      rw [← order]
      simp only [List.append_assoc]
    · rw [if_pos fits]
      exact ⟨rfl, bytes⟩
  · refine ⟨io, if_pos (Nat.lt_of_not_le fits), ⟨valid, valid', small, place, order⟩, ?_⟩
    rw [if_neg fits]

private theorem onRecv_keeps {io next : SessionIo} (received : io.onRecv methods stubs = some next) : WritesAs io next := by
  unfold SessionIo.onRecv at received
  split at received
  · cases received
    exact ⟨rfl, rfl, rfl, rfl, rfl⟩
  · cases received

theorem Writing.step {io next : SessionIo} {action : IoAction} (writing : Writing io)
    (stepped : io.step methods stubs action = some next) : Writing next := by
  cases step_changes stepped with
  | stands same => exact writing.congr same.toWritesAs
  | closes same => exact writing.congr same
  | receives _ received same => exact (writing.congr (onRecv_keeps received)).congr same.toWritesAs
  | swaps same => exact writing.wbuffer.congr same.toWritesAs
  | sends sent => exact writing.sent sent
  | @delivers index message found delivered =>
    have before : Writing { io with waiting := io.waiting.eraseIdx index } := writing.congr ⟨rfl, rfl, rfl, rfl, rfl⟩
    obtain ⟨after, delivered', kept, -⟩ := before.deliver message
    rw [delivered] at delivered'
    cases delivered'
    exact kept
  | marks _ same =>
    have before : Writing io.onSend := writing.congr ⟨rfl, rfl, rfl, rfl, rfl⟩
    exact before.congr same.toWritesAs

/-- Only a sender that has the lock appends. -/
private theorem accepted_same {io next : SessionIo} {action : IoAction} (changes : Changes methods stubs io next action)
    (other : ∀ index, action ≠ .deliver index) : next.accepted = io.accepted := by
  cases changes with
  | stands same => exact same.accepted
  | closes same => exact same.accepted
  | receives _ received same => exact same.accepted.trans (onRecv_keeps received).accepted
  | swaps same =>
    apply same.accepted.trans
    unfold SessionIo.wbuffer
    split <;> rfl
  | sends sent =>
    simp only [afterSend, Option.ite_none_right_eq_some, Option.some.injEq] at sent
    obtain ⟨-, rfl⟩ := sent
    split <;> rfl
  | @delivers index => exact absurd rfl (other index)
  | marks _ same => exact same.accepted

theorem Writing.appendsWhole {io : SessionIo} (writing : Writing io) (action : IoAction) :
    io.AppendsWhole methods stubs action := by
  cases action with
  | deliver index =>
    intro message found
    have before : Writing { io with waiting := io.waiting.eraseIdx index } := writing.congr ⟨rfl, rfl, rfl, rfl, rfl⟩
    obtain ⟨next, delivered, -, whole⟩ := before.deliver message
    exact ⟨next, by simp only [SessionIo.step, found, delivered], whole⟩
  | setClose | enter | handleEvent | beginRead | recv | onRecv | beginWrite | send | refetch | onSend | handleClose =>
    intro next stepped
    exact accepted_same (step_changes stepped) (by simp)

theorem create_writing {readBufferSize writeBufferSize : Nat} {io : SessionIo}
    (created : SessionIo.create readBufferSize writeBufferSize = .ok io) :
    Writing io ∧ io.closeCalled = false := by
  unfold SessionIo.create at created
  cases session : Session.create readBufferSize with
  | error thrown => simp [session, bind, Except.bind] at created
  | ok session' =>
    cases reserved : Octets.new.reserve writeBufferSize with
    | error thrown => simp [session, reserved, bind, Except.bind] at created
    | ok block =>
      simp only [session, reserved, bind, Except.bind, pure, Except.pure, Except.ok.injEq] at created
      subst created
      obtain ⟨valid, empty, small, -⟩ := reserve_new reserved
      refine ⟨⟨valid, valid, ⟨small, small⟩, .inl ⟨empty, rfl⟩, ?_⟩, rfl⟩
      simp [InOrder, unsent, Octetsstream.bytes, Octets.bytes, empty]

/-- Through every run the kernel's bytes, the unsent ones and the waiting ones are the accepted
messages one after another, and a message is accepted whole or not at all. -/
theorem wire_is_accepted_messages (methods : ProtocolMethods μ) (stubs : Stubs μ) (readBufferSize writeBufferSize : Nat)
    (io : SessionIo) (created : SessionIo.create readBufferSize writeBufferSize = .ok io) (actions : List IoAction) :
    Throughout (SessionIo.step methods stubs) InOrder io actions ∧
      EachStep (SessionIo.step methods stubs) (AppendsWhole methods stubs) io actions := by
  have start := (create_writing created).1
  have each : EachStep (SessionIo.step methods stubs) (AppendsWhole methods stubs) io actions :=
    eachStep_of_kept (fun _ => Writing) (fun action _ _ writing => writing.appendsWhole action)
      (fun _ _ _ _ writing _ stepped => writing.step stepped) start
  exact ⟨throughout_of_eachStep Writing.inOrder (fun writing _ stepped => writing.step stepped) start each, each⟩

/-- A session with the smallest buffers, just opened. -/
def openedIo : SessionIo :=
  ⟨⟨⟨.active, .none⟩, ⟨Octets.new, 0, 0⟩, Octets.new⟩, 0, ⟨Octets.new, 0, 0⟩, Octets.new, true, false, .idle, [], [], [], false⟩

/-- Two messages, a partial send between them and a full kernel buffer. -/
def partialSends : List IoAction :=
  [.enter [1, 2], .deliver 0, .handleEvent false true, .beginWrite, .send (.sent 1), .enter [3], .deliver 0, .send .again,
    .onSend]

theorem wire_of_partialSends :
    SessionIo.create 16 16 = .ok openedIo ∧
      Throughout (SessionIo.step octetsSchema.methods octetsSchema.stubs) InOrder openedIo partialSends ∧
      EachStep (SessionIo.step octetsSchema.methods octetsSchema.stubs)
        (AppendsWhole octetsSchema.methods octetsSchema.stubs) openedIo partialSends :=
  ⟨rfl, wire_is_accepted_messages octetsSchema.methods octetsSchema.stubs 16 16 openedIo rfl partialSends⟩

/-! ## What `is_writeos_empty` sees -/

theorem Writing.unsent_nil_iff {io : SessionIo} (writing : Writing io) : io.unsent = [] ↔ io.writebuf.len = 0 := by
  rw [unsent, List.drop_eq_nil_iff, length_bytes writing.writebuf]
  have place := writing.offset
  omega

theorem Writing.waiting_nil_iff {io : SessionIo} (writing : Writing io) : io.writeos.bytes = [] ↔ io.writeos.size = 0 := by
  rw [← List.length_eq_zero_iff, Octetsstream.bytes, length_bytes writing.writeos, Octetsstream.size]

/-- The comparison goes wrong where the offset into one buffer happens to be the length of the other. -/
theorem Writing.emptinessTold_iff {io : SessionIo} (writing : Writing io) :
    io.EmptinessTold ↔ io.writebuf.len = 0 ∨ io.writeOffset ≠ io.writeos.size := by
  have place := writing.offset
  unfold EmptinessTold isWriteosEmpty
  rw [writing.unsent_nil_iff, writing.waiting_nil_iff, beq_iff_eq]
  omega

theorem Writing.deletesFlushed_iff {io : SessionIo} (writing : Writing io) (closing : io.isClose = true) :
    io.DeletesFlushed ↔ io.writebuf.len = 0 ∨ io.writeOffset ≠ io.writeos.size := by
  have deletes : ({ io with deleted := false } : SessionIo).handleClose.deleted = io.isWriteosEmpty := by
    have closing' : ({ io with deleted := false } : SessionIo).isClose = true := closing
    unfold SessionIo.handleClose
    rw [if_pos closing']
    cases empty : io.isWriteosEmpty <;> simp [isWriteosEmpty] at empty <;> simp [isWriteosEmpty, empty]
  have order := writing.inOrder
  unfold DeletesFlushed
  rw [deletes]
  constructor
  · intro flushed
    by_contra wrong
    rw [not_or, not_not] at wrong
    have all := flushed (by simpa [isWriteosEmpty] using wrong.2)
    rw [InOrder, all, List.append_assoc, List.append_right_eq_self, List.append_eq_nil_iff] at order
    exact wrong.1 (writing.unsent_nil_iff.1 order.1)
  · intro told empty
    have nothing := ((writing.emptinessTold_iff).2 told).1 empty
    rw [InOrder, nothing.1, nothing.2, List.append_nil, List.append_nil] at order
    exact order

/-- At a closing session, `handle_close` waits for the last byte, and `is_writeos_empty` tells the
truth, exactly when `_writebuf` is empty or its offset differs from the length of `_writeos`. -/
theorem flushes_before_close_iff (methods : ProtocolMethods μ) (stubs : Stubs μ) (readBufferSize writeBufferSize : Nat)
    (start : SessionIo) (created : SessionIo.create readBufferSize writeBufferSize = .ok start) (actions : List IoAction)
    (io : SessionIo) (ran : actions.foldlM (SessionIo.step methods stubs) start = some io) (closing : io.isClose = true) :
    (io.DeletesFlushed ↔ io.writebuf.len = 0 ∨ io.writeOffset ≠ io.writeos.size) ∧
      (io.EmptinessTold ↔ io.writebuf.len = 0 ∨ io.writeOffset ≠ io.writeos.size) := by
  have writing : Writing io := (Run.of_foldlM ran).invariant Writing Writing.step (create_writing created).1
  exact ⟨writing.deletesFlushed_iff closing, writing.emptinessTold_iff⟩

/-- A message that the kernel takes, and then `set_close`. -/
def flushedClose : List IoAction :=
  [.enter [7], .deliver 0, .handleEvent false true, .beginWrite, .send (.sent 1), .refetch, .onSend, .setClose .local]

theorem flushes_of_flushedClose :
    ∃ io, flushedClose.foldlM (SessionIo.step octetsSchema.methods octetsSchema.stubs) openedIo = some io ∧
      io.DeletesFlushed ∧ io.EmptinessTold := by
  obtain ⟨io, ran, closing, drained⟩ : ∃ io,
      flushedClose.foldlM (SessionIo.step octetsSchema.methods octetsSchema.stubs) openedIo = some io ∧
      io.isClose = true ∧ io.writebuf.len = 0 := ⟨_, rfl, rfl, rfl⟩
  have both := flushes_before_close_iff octetsSchema.methods octetsSchema.stubs 16 16 openedIo rfl flushedClose io ran closing
  exact ⟨io, ran, both.1.2 (.inl drained), both.2.2 (.inl drained)⟩

/-- The same with a kernel buffer that is full: the message is in `_writebuf`, nothing of it is
sent, and `handle_close` deletes the event. -/
def blockedClose : List IoAction :=
  [.enter [7], .deliver 0, .handleEvent false true, .beginWrite, .send .again, .onSend, .setClose .local]

theorem blockedClose_loses :
    ∃ io, blockedClose.foldlM (SessionIo.step octetsSchema.methods octetsSchema.stubs) openedIo = some io ∧
      io.isClose = true ∧ io.handleClose.deleted = true ∧ io.kernel = [] ∧ io.accepted = [[7]] ∧ ¬ io.DeletesFlushed ∧
      ¬ io.EmptinessTold := by
  obtain ⟨io, ran, closing, fresh, deletes, kernel, accepted, empty, unsent⟩ : ∃ io,
      blockedClose.foldlM (SessionIo.step octetsSchema.methods octetsSchema.stubs) openedIo = some io ∧
      io.isClose = true ∧ io.deleted = false ∧ io.handleClose.deleted = true ∧ io.kernel = [] ∧ io.accepted = [[7]] ∧
      io.isWriteosEmpty = true ∧ io.unsent = [7] :=
    ⟨_, rfl, rfl, rfl, rfl, rfl, rfl, rfl, rfl⟩
  refine ⟨io, ran, closing, deletes, kernel, accepted, fun flushed => ?_, fun told => ?_⟩
  · rw [DeletesFlushed, show ({ io with deleted := false } : SessionIo) = io by rw [← fresh], kernel, accepted] at flushed
    cases flushed deletes
  · have nothing := (told.1 empty).1
    rw [unsent] at nothing
    cases nothing

end Proofs
end Cassobee
