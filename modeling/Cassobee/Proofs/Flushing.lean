import Cassobee.Proofs.Writing

/-! Send interest. It is withdrawn only when the kernel has every accepted byte, whoever appends in
between; and one call of `handle_event` at a willing kernel gets there. -/

namespace Cassobee
open Support

/-- The reactor asks the kernel no more. -/
def SessionIo.InterestKept (io : SessionIo) : Prop := io.sendPermitted = false → io.kernel = io.accepted.flatten

/-- What the reactor does in `handle_write` and behind it when every call of `send` takes something. -/
def IoAction.Sends : IoAction → Prop
  | .beginWrite | .send (.sent _) | .refetch | .onSend | .handleClose => True
  | _ => False

/-- A call of `handle_event` for `EVENT_SEND`, up to where the run ends. -/
def SendPass : List IoAction → Prop
  | .handleEvent recv send :: actions => recv = false ∧ send = true ∧ ∀ action ∈ actions, action.Sends
  | _ => False

namespace Proofs
open SessionIo
variable {μ : Type} {methods : ProtocolMethods μ} {stubs : Stubs μ}

/-- Nothing is left in either buffer. -/
structure Flushed (io : SessionIo) : Prop where
  writebuf : io.writebuf.len = 0
  writeos : io.writeos.size = 0

theorem Writing.flushed {io : SessionIo} (writing : Writing io) (flushed : Flushed io) : io.kernel = io.accepted.flatten := by
  have order := writing.inOrder
  rw [InOrder, writing.unsent_nil_iff.2 flushed.writebuf, writing.waiting_nil_iff.2 flushed.writeos] at order
  simpa using order

/-- Send interest is off only with empty buffers, and between `clear_wbuffer` and the next look at the
buffers `_writebuf` is empty. -/
structure Interested (io : SessionIo) : Prop extends Writing io where
  drained : io.pc = .drained → io.writebuf.len = 0
  wanted : io.sendPermitted = false → Flushed io

/-- A step that leaves the buffers and the interest, and does not come to `clear_wbuffer`. -/
private theorem Interested.still {io next : SessionIo} (interested : Interested io) (same : WritesAs io next)
    (permitted : next.sendPermitted = io.sendPermitted) (elsewhere : next.pc = .drained → io.pc = .drained) : Interested next := by
  obtain ⟨writing, drained, wanted⟩ := interested
  refine ⟨writing.congr same, fun here => ?_, fun off => ?_⟩
  · rw [same.writebuf]
    exact drained (elsewhere here)
  · obtain ⟨writebuf, writeos⟩ := wanted (permitted ▸ off)
    exact ⟨same.writebuf ▸ writebuf, same.writeos ▸ writeos⟩

private theorem received_keeps {io after : SessionIo} (received : io.onRecv methods stubs = some after) :
    WritesAs io after ∧ after.sendPermitted = io.sendPermitted := by
  unfold SessionIo.onRecv at received
  split at received <;> cases received
  exact ⟨⟨rfl, rfl, rfl, rfl, rfl⟩, rfl⟩

/-- Where `_writebuf` is empty after `wbuffer`, so is `_writeos`. -/
theorem wbuffer_flushed {io : SessionIo} (empty : io.wbuffer.writebuf.len = 0) : Flushed io.wbuffer := by
  unfold SessionIo.wbuffer at empty ⊢
  split at empty
  next none =>
    rw [if_pos none]
    exact ⟨empty, rfl⟩
  next some_left => exact absurd empty some_left

theorem Flushed.wbuffer {io : SessionIo} (flushed : Flushed io) : Flushed io.wbuffer := by
  unfold SessionIo.wbuffer
  rw [if_pos flushed.writebuf]
  exact ⟨flushed.writeos, rfl⟩

theorem wbuffer_fields (io : SessionIo) :
    io.wbuffer.sendPermitted = io.sendPermitted ∧ io.wbuffer.writeOffset = io.writeOffset ∧ io.wbuffer.accepted = io.accepted := by
  unfold SessionIo.wbuffer
  split <;> exact ⟨rfl, rfl, rfl⟩

/-- An empty `_writebuf` has nothing behind its offset, also after `wbuffer`. -/
private theorem Writing.start_of_empty {io : SessionIo} (writing : Writing io) (empty : io.writebuf.len = 0) :
    io.wbuffer.writeOffset = 0 := by
  have place := writing.offset
  rw [(wbuffer_fields io).2.1]
  omega

private theorem Interested.deliver {io next : SessionIo} {index : Nat} (interested : Interested io)
    (stepped : io.step methods stubs (.deliver index) = some next) : Interested next := by
  obtain ⟨writing, drained, wanted⟩ := interested
  have kept := writing.step stepped
  obtain ⟨message, -, delivered⟩ := deliver_stepped stepped
  rcases deliver_cases delivered with ⟨-, rfl⟩ | ⟨data, -, rfl⟩
  · exact ⟨kept, drained, fun off => ⟨(wanted off).writebuf, (wanted off).writeos⟩⟩
  · refine ⟨kept, drained, fun off => ?_⟩
    cases off

private theorem Interested.beginRead {io next : SessionIo} (interested : Interested io)
    (stepped : io.step methods stubs .beginRead = some next) : Interested next := by
  simp only [SessionIo.step] at stepped
  split at stepped
  · split at stepped
    · obtain ⟨after, received, rfl⟩ := Option.map_eq_some_iff.1 stepped
      obtain ⟨same, permitted⟩ := received_keeps received
      refine interested.still ⟨same.writebuf, same.writeos, same.offset, same.kernel, same.accepted⟩ permitted fun here => ?_
      cases here
    · cases stepped
      refine interested.still ⟨rfl, rfl, rfl, rfl, rfl⟩ rfl fun here => ?_
      cases here
  · cases stepped

private theorem Interested.recv {io next : SessionIo} {result : RecvResult} (interested : Interested io)
    (stepped : io.step methods stubs (.recv result) = some next) : Interested next := by
  simp only [SessionIo.step] at stepped
  split at stepped
  next send here =>
    split at stepped
    · cases stepped
      refine interested.still ⟨rfl, rfl, rfl, rfl, rfl⟩ rfl fun here => ?_
      cases here
    · cases result with
      | received chunk =>
        simp only [SessionIo.afterRecv, Option.ite_none_right_eq_some, Option.some.injEq] at stepped
        obtain ⟨-, rfl⟩ := stepped
        exact interested.still ⟨rfl, rfl, rfl, rfl, rfl⟩ rfl id
      | interrupted =>
        cases stepped
        exact interested.still ⟨rfl, rfl, rfl, rfl, rfl⟩ rfl id
      | closed | again | error =>
        cases stepped
        refine interested.still ⟨rfl, rfl, rfl, rfl, rfl⟩ rfl fun here => ?_
        cases here
  next => cases stepped

private theorem Interested.onRecv {io next : SessionIo} (interested : Interested io)
    (stepped : io.step methods stubs .onRecv = some next) : Interested next := by
  simp only [SessionIo.step] at stepped
  split at stepped
  next send here =>
    obtain ⟨after, received, rfl⟩ := Option.map_eq_some_iff.1 stepped
    obtain ⟨same, permitted⟩ := received_keeps received
    refine interested.still ⟨same.writebuf, same.writeos, same.offset, same.kernel, same.accepted⟩ permitted fun here => ?_
    cases send <;> cases here
  next => cases stepped

private theorem Interested.beginWrite {io next : SessionIo} (interested : Interested io)
    (stepped : io.step methods stubs .beginWrite = some next) : Interested next := by
  obtain ⟨writing, -, wanted⟩ := interested
  have kept := writing.step stepped
  simp only [SessionIo.step, Option.ite_none_right_eq_some, Option.some.injEq] at stepped
  obtain ⟨-, rfl⟩ := stepped
  split at kept
  next empty =>
    rw [if_pos empty]
    refine ⟨kept, fun here => ?_, fun _ => ⟨(wbuffer_flushed empty).writebuf, (wbuffer_flushed empty).writeos⟩⟩
    cases here
  next some_left =>
    rw [if_neg some_left]
    refine ⟨kept, fun here => ?_, fun off => absurd (wanted ?_).wbuffer.writebuf some_left⟩
    · cases here
    · exact (wbuffer_fields io).1.symm.trans off

private theorem Interested.send {io next : SessionIo} {result : SendResult} (interested : Interested io)
    (stepped : io.step methods stubs (.send result) = some next) : Interested next := by
  simp only [SessionIo.step, Option.ite_none_right_eq_some] at stepped
  obtain ⟨sending, stepped⟩ := stepped
  cases result with
  | sent count =>
    have kept := interested.toWriting.sent stepped
    simp only [SessionIo.afterSend, Option.ite_none_right_eq_some, Option.some.injEq] at stepped
    obtain ⟨⟨positive, few⟩, rfl⟩ := stepped
    have some_left : io.writebuf.len ≠ 0 := by omega
    split at kept
    next all =>
      rw [if_pos all]
      exact ⟨kept, fun _ => rfl, fun off => absurd (interested.wanted off).writebuf some_left⟩
    next rest =>
      rw [if_neg rest]
      refine ⟨kept, fun here => ?_, fun off => absurd (interested.wanted off).writebuf some_left⟩
      cases sending.symm.trans here
  | interrupted =>
    cases stepped
    exact interested.still ⟨rfl, rfl, rfl, rfl, rfl⟩ rfl id
  | zero | again | error =>
    cases stepped
    refine interested.still ⟨rfl, rfl, rfl, rfl, rfl⟩ rfl fun here => ?_
    cases here

private theorem Interested.refetch {io next : SessionIo} (interested : Interested io)
    (stepped : io.step methods stubs .refetch = some next) : Interested next := by
  obtain ⟨writing, drained, wanted⟩ := interested
  have kept := writing.step stepped
  simp only [SessionIo.step, Option.ite_none_right_eq_some, Option.some.injEq] at stepped
  obtain ⟨here, rfl⟩ := stepped
  have start := writing.start_of_empty (drained here)
  split at kept
  next empty =>
    rw [if_pos empty]
    have flushed := wbuffer_flushed (empty.trans start)
    refine ⟨kept, fun here => ?_, fun _ => ⟨flushed.writebuf, flushed.writeos⟩⟩
    cases here
  next some_left =>
    rw [if_neg some_left]
    rw [start] at some_left
    refine ⟨kept, fun here => ?_, fun off => absurd (wanted ?_).wbuffer.writebuf some_left⟩
    · cases here
    · exact (wbuffer_fields io).1.symm.trans off

private theorem Interested.handleClose {io next : SessionIo} (interested : Interested io)
    (stepped : io.step methods stubs .handleClose = some next) : Interested next := by
  simp only [SessionIo.step, Option.ite_none_right_eq_some, Option.some.injEq] at stepped
  obtain ⟨here, rfl⟩ := stepped
  unfold SessionIo.handleClose
  split
  · split
    · obtain ⟨writing, -, -⟩ := interested
      refine ⟨writing.congr ⟨rfl, rfl, rfl, rfl, rfl⟩, fun here => ?_, fun off => ?_⟩
      · cases here
      · cases off
    · refine interested.still ⟨rfl, rfl, rfl, rfl, rfl⟩ rfl fun here => ?_
      cases here
  · refine interested.still ⟨rfl, rfl, rfl, rfl, rfl⟩ rfl fun here => ?_
    cases here

theorem Interested.step {io next : SessionIo} {action : IoAction} (interested : Interested io)
    (stepped : io.step methods stubs action = some next) : Interested next := by
  cases action with
  | setClose reason =>
    cases stepped
    exact interested.still ⟨rfl, rfl, rfl, rfl, rfl⟩ rfl id
  | enter message =>
    simp only [SessionIo.step] at stepped
    split at stepped <;> cases stepped <;> exact interested.still ⟨rfl, rfl, rfl, rfl, rfl⟩ rfl id
  | deliver index => exact interested.deliver stepped
  | handleEvent recv send =>
    simp only [SessionIo.step, Option.ite_none_right_eq_some, Option.some.injEq] at stepped
    obtain ⟨-, rfl⟩ := stepped
    refine interested.still ⟨rfl, rfl, rfl, rfl, rfl⟩ rfl fun here => ?_
    cases recv <;> cases send <;> cases here
  | beginRead => exact interested.beginRead stepped
  | recv result => exact interested.recv stepped
  | onRecv => exact interested.onRecv stepped
  | beginWrite => exact interested.beginWrite stepped
  | send result => exact interested.send stepped
  | refetch => exact interested.refetch stepped
  | onSend =>
    simp only [SessionIo.step, Option.ite_none_right_eq_some, Option.some.injEq] at stepped
    obtain ⟨-, rfl⟩ := stepped
    refine interested.still ⟨rfl, rfl, rfl, rfl, rfl⟩ rfl fun here => ?_
    cases here
  | handleClose => exact interested.handleClose stepped

/-! ## A pass at a willing kernel -/

/-- What holds at the places of a pass. Behind `handle_write` everything is sent. -/
def PassPlace (io : SessionIo) : EventPc → Prop
  | .write | .sending => True
  | .drained => io.writebuf.len = 0
  | .written | .close | .idle => Flushed io ∧ io.sendPermitted = false
  | _ => False

structure Passing (accepted : List (List UInt8)) (io : SessionIo) : Prop extends Writing io where
  same : io.accepted = accepted
  place : PassPlace io io.pc

private theorem Passing.beginWrite {accepted : List (List UInt8)} {io next : SessionIo} (passing : Passing accepted io)
    (stepped : io.step methods stubs .beginWrite = some next) : Passing accepted next := by
  obtain ⟨writing, same, place⟩ := passing
  have kept := writing.step stepped
  simp only [SessionIo.step, Option.ite_none_right_eq_some, Option.some.injEq] at stepped
  obtain ⟨here, rfl⟩ := stepped
  have same' := (wbuffer_fields io).2.2.trans same
  split at kept
  next empty =>
    rw [if_pos empty]
    have flushed := wbuffer_flushed empty
    exact ⟨kept, same', ⟨flushed.writebuf, flushed.writeos⟩, rfl⟩
  next some_left =>
    rw [if_neg some_left]
    exact ⟨kept, same', trivial⟩

private theorem Passing.sent {accepted : List (List UInt8)} {io next : SessionIo} {count : Nat} (passing : Passing accepted io)
    (stepped : io.step methods stubs (.send (.sent count)) = some next) : Passing accepted next := by
  obtain ⟨writing, same, place⟩ := passing
  have kept := writing.step stepped
  simp only [SessionIo.step, SessionIo.afterSend, Option.ite_none_right_eq_some, Option.some.injEq] at stepped
  obtain ⟨here, -, rfl⟩ := stepped
  split at kept
  next all =>
    rw [if_pos all]
    exact ⟨kept, same, rfl⟩
  next rest =>
    rw [if_neg rest]
    refine ⟨kept, same, ?_⟩
    simp only [here, PassPlace]

private theorem Passing.refetch {accepted : List (List UInt8)} {io next : SessionIo} (passing : Passing accepted io)
    (stepped : io.step methods stubs .refetch = some next) : Passing accepted next := by
  obtain ⟨writing, same, place⟩ := passing
  have kept := writing.step stepped
  simp only [SessionIo.step, Option.ite_none_right_eq_some, Option.some.injEq] at stepped
  obtain ⟨here, rfl⟩ := stepped
  rw [here] at place
  have start := writing.start_of_empty place
  have same' := (wbuffer_fields io).2.2.trans same
  split at kept
  next empty =>
    rw [if_pos empty]
    have flushed := wbuffer_flushed (empty.trans start)
    exact ⟨kept, same', ⟨flushed.writebuf, flushed.writeos⟩, rfl⟩
  next some_left =>
    rw [if_neg some_left]
    exact ⟨kept, same', trivial⟩

private theorem Passing.handleClose {accepted : List (List UInt8)} {io next : SessionIo} (passing : Passing accepted io)
    (stepped : io.step methods stubs .handleClose = some next) : Passing accepted next := by
  obtain ⟨writing, same, place⟩ := passing
  have kept := writing.step stepped
  simp only [SessionIo.step, Option.ite_none_right_eq_some, Option.some.injEq] at stepped
  obtain ⟨here, rfl⟩ := stepped
  rw [here] at place
  obtain ⟨⟨writebuf, writeos⟩, off⟩ := place
  have empty : io.isWriteosEmpty = true := by
    have position := writing.offset
    rw [SessionIo.isWriteosEmpty, beq_iff_eq, writeos]
    omega
  unfold SessionIo.handleClose at kept ⊢
  rw [empty] at kept ⊢
  split at kept
  next closing =>
    rw [if_pos closing]
    exact ⟨kept, same, ⟨writebuf, writeos⟩, off⟩
  next opened =>
    rw [if_neg opened]
    exact ⟨kept, same, ⟨writebuf, writeos⟩, off⟩

theorem Passing.step {accepted : List (List UInt8)} {io next : SessionIo} {action : IoAction} (passing : Passing accepted io)
    (sends : action.Sends) (stepped : io.step methods stubs action = some next) : Passing accepted next := by
  cases action with
  | beginWrite => exact passing.beginWrite stepped
  | send result =>
    cases result with
    | sent count => exact passing.sent stepped
    | zero | interrupted | again | error => cases sends
  | refetch => exact passing.refetch stepped
  | onSend =>
    obtain ⟨writing, same, place⟩ := passing
    have kept := writing.step stepped
    simp only [SessionIo.step, Option.ite_none_right_eq_some, Option.some.injEq] at stepped
    obtain ⟨here, rfl⟩ := stepped
    rw [here] at place
    obtain ⟨⟨writebuf, writeos⟩, off⟩ := place
    exact ⟨kept, same, ⟨writebuf, writeos⟩, off⟩
  | handleClose => exact passing.handleClose stepped
  | setClose | enter | deliver | handleEvent | beginRead | recv | onRecv => cases sends

/-- A willing kernel brings the pass to its end. -/
def PassEnds (methods : ProtocolMethods μ) (stubs : Stubs μ) (io : SessionIo) : Prop :=
  ∃ (actions : List IoAction) (final : SessionIo), (∀ action ∈ actions, action.Sends) ∧
    actions.foldlM (SessionIo.step methods stubs) io = some final ∧ final.pc = .idle

theorem PassEnds.before {io next : SessionIo} {action : IoAction} (ends : PassEnds methods stubs next) (sends : action.Sends)
    (stepped : io.step methods stubs action = some next) : PassEnds methods stubs io := by
  obtain ⟨actions, final, all, ran, idle⟩ := ends
  refine ⟨action :: actions, final, ?_, ?_, idle⟩
  · intro other member
    rcases List.mem_cons.1 member with rfl | later
    · exact sends
    · exact all other later
  · rw [List.foldlM_cons, stepped]
    exact ran

theorem ends_of_close {io : SessionIo} (here : io.pc = .close) : PassEnds methods stubs io := by
  refine ⟨[.handleClose], { io.handleClose with pc := .idle }, ?_, ?_, rfl⟩
  · simp [IoAction.Sends]
  · simp [SessionIo.step, here]

theorem ends_of_written {io : SessionIo} (here : io.pc = .written) : PassEnds methods stubs io := by
  have closing : PassEnds methods stubs { io.onSend with pc := .close } := ends_of_close rfl
  exact closing.before (show IoAction.onSend.Sends from trivial) (by simp [SessionIo.step, here])

/-- What the pass has still to hand over. -/
def toHandOver (io : SessionIo) : Nat := io.writebuf.len - io.writeOffset + io.writeos.size

/-- After `clear_wbuffer` nothing is left, or as much as before. -/
theorem refetches {io : SessionIo} (here : io.pc = .drained) (empty : io.writebuf.len = 0) (start : io.writeOffset = 0) :
    ∃ next, io.step methods stubs .refetch = some next ∧
      (next.pc = .written ∨ next.pc = .sending ∧ next.writeOffset < next.writebuf.len ∧ toHandOver next = toHandOver io) := by
  obtain ⟨-, offset, -⟩ := wbuffer_fields io
  by_cases nothing : io.wbuffer.writebuf.len = io.wbuffer.writeOffset
  · refine ⟨{ io.wbuffer with sendPermitted := false, pc := .written }, ?_, .inl rfl⟩
    simp only [SessionIo.step, if_pos here, if_pos nothing]
  · refine ⟨{ io.wbuffer with pc := .sending }, ?_, .inr ⟨rfl, ?_, ?_⟩⟩
    · simp only [SessionIo.step, if_pos here, if_neg nothing]
    · simp only
      omega
    · simp only [toHandOver, SessionIo.wbuffer, if_pos empty, Octetsstream.size, Octets.clear]
      omega

theorem ends_of_sending {io : SessionIo} (here : io.pc = .sending) (some_left : io.writeOffset < io.writebuf.len) :
    PassEnds methods stubs io := by
  obtain ⟨bound, enough⟩ : ∃ bound, toHandOver io ≤ bound := ⟨_, Nat.le_refl _⟩
  -- every call of `send` takes a byte at least
  induction bound generalizing io with
  | zero =>
    simp only [toHandOver] at enough
    omega
  | succ bound ih =>
    obtain ⟨count, chosen⟩ : ∃ count, count = min (io.writebuf.len - io.writeOffset) maxTransfer := ⟨_, rfl⟩
    have positive : 0 < count := by
      simp only [chosen, maxTransfer]
      omega
    have few : io.writeOffset + count ≤ io.writebuf.len := by omega
    have called (next : SessionIo) (sent : io.afterSend (.sent count) = some next) :
        io.step methods stubs (.send (.sent count)) = some next := by
      simp only [SessionIo.step, if_pos here, sent]
    simp only [toHandOver] at enough
    by_cases all : io.writeOffset + count = io.writebuf.len
    · let drained : SessionIo := { io with
        writebuf := io.writebuf.clear, writeOffset := 0, pc := .drained,
        kernel := io.kernel ++ (io.writebuf.bytes.drop io.writeOffset).take count }
      have stepped : io.step methods stubs (.send (.sent count)) = some drained := by
        apply called
        simp only [SessionIo.afterSend, if_pos all, Option.ite_none_right_eq_some]
        exact ⟨⟨positive, Nat.le_of_eq chosen⟩, rfl⟩
      apply PassEnds.before _ (show (IoAction.send (.sent count)).Sends from trivial) stepped
      have place : drained.pc = .drained := rfl
      obtain ⟨next, fetched, outcome⟩ := refetches place rfl rfl
      apply PassEnds.before _ (show IoAction.refetch.Sends from trivial) fetched
      rcases outcome with written | ⟨sending, more, same⟩
      · exact ends_of_written written
      · apply ih sending more
        have size : toHandOver drained = io.writeos.size := Nat.zero_add _
        omega
    · let moved : SessionIo := { io with
        writeOffset := io.writeOffset + count
        kernel := io.kernel ++ (io.writebuf.bytes.drop io.writeOffset).take count }
      have stepped : io.step methods stubs (.send (.sent count)) = some moved := by
        apply called
        simp only [SessionIo.afterSend, if_neg all, Option.ite_none_right_eq_some]
        exact ⟨⟨positive, Nat.le_of_eq chosen⟩, rfl⟩
      apply PassEnds.before _ (show (IoAction.send (.sent count)).Sends from trivial) stepped
      have more : moved.writeOffset < moved.writebuf.len := Nat.lt_of_le_of_ne few all
      apply ih (show moved.pc = .sending from here) more
      simp only [toHandOver, moved]
      omega

theorem ends_of_write {io : SessionIo} (writing : Writing io) (here : io.pc = .write) : PassEnds methods stubs io := by
  have position := writing.wbuffer.offset
  by_cases empty : io.wbuffer.writebuf.len = 0
  · have stepped : io.step methods stubs .beginWrite = some { io.wbuffer with sendPermitted := false, pc := .close } := by
      simp only [SessionIo.step, if_pos here, if_pos empty]
    apply PassEnds.before _ (show IoAction.beginWrite.Sends from trivial) stepped
    exact ends_of_close rfl
  · have stepped : io.step methods stubs .beginWrite = some { io.wbuffer with pc := .sending } := by
      simp only [SessionIo.step, if_pos here, if_neg empty]
    apply PassEnds.before _ (show IoAction.beginWrite.Sends from trivial) stepped
    apply ends_of_sending rfl
    simp only
    omega

/-! ## Every run -/

/-- The kernel has taken one byte of three, and the reactor is done with the event. -/
def unfinished : List IoAction := partialSends ++ [.handleClose]

end Proofs
end Cassobee
