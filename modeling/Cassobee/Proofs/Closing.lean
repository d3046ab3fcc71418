import Cassobee.Proofs.Writing

/-! Whether a session that is to be closed stays so. `_state` holds the mark of `set_close` and also
the marks of `on_recv` and `on_send`, which do not look at what they overwrite. -/

namespace Cassobee
open Support

namespace SessionIo
variable {μ : Type} (methods : ProtocolMethods μ) (stubs : Stubs μ)

def StaysClosed (io : SessionIo) : Prop := io.closeCalled = true → io.isClose = true

/-- The bytes that the next `on_recv` hands to `decode` make it throw, so that it closes the session
once more. -/
def Rejects (session : Session) : Prop :=
  ∀ data messages status reados,
    session.reados.data.append (session.readbuf.buf.take (min session.readbuf.len session.reados.data.freeSpace)) =
        .ok data →
    decodeLoop methods stubs (session.reados.size + session.readbuf.len + 1) ⟨.recving, session.status.closeReason⟩
        ⟨data, session.reados.pos, session.reados.transpos⟩ = .ok (some (messages, status)) reados →
    status.isClose = true

/-- Once `set_close` has been called, `on_send` does not run, and `on_recv` only where it rejects. -/
def LeavesClosed (io : SessionIo) : IoAction → Prop
  | .beginRead => ∀ send, io.pc = .read send → io.session.readbuf.freeSpace = 0 → io.closeCalled = true →
    Rejects methods stubs io.session
  | .onRecv => ∀ send, io.pc = .received send → io.closeCalled = true → Rejects methods stubs io.session
  | .onSend => io.pc = .written → io.closeCalled = false
  | _ => True

end SessionIo

namespace Proofs
open SessionIo
variable {μ : Type} {methods : ProtocolMethods μ} {stubs : Stubs μ} {io next : SessionIo}

/-- The parts of a call of `on_recv`. -/
private theorem onRecv_eq_some {fuel : Nat} {session after : Session} {messages : List μ} :
    session.onRecv methods stubs fuel = .ok (some (messages, after)) ↔
      ∃ data status reados,
        session.reados.data.append
            (session.readbuf.buf.take (min session.readbuf.len session.reados.data.freeSpace)) = .ok data ∧
        decodeLoop methods stubs fuel ⟨.recving, session.status.closeReason⟩
            ⟨data, session.reados.pos, session.reados.transpos⟩ = .ok (some (messages, status)) reados ∧
        after = ⟨status, reados.tryShrink,
          session.readbuf.erase 0 (min session.readbuf.len session.reados.data.freeSpace)⟩ := by
  unfold Session.onRecv
  cases appended : session.reados.data.append
      (session.readbuf.buf.take (min session.readbuf.len session.reados.data.freeSpace)) with
  | error thrown => simp [appended, bind, Except.bind]
  | ok data =>
    simp only [appended, bind, Except.bind, Except.ok.injEq]
    cases looped : decodeLoop methods stubs fuel ⟨.recving, session.status.closeReason⟩
        ⟨data, session.reados.pos, session.reados.transpos⟩ with
    | error thrown reados => simp [looped, throw, throwThe, MonadExceptOf.throw]
    | ok found reados =>
      rcases found with _ | ⟨messages', status⟩
      · simp [looped, pure, Except.pure]
      · simp only [pure, Except.pure, Except.ok.injEq, Option.some.injEq, Prod.mk.injEq]
        constructor
        · rintro ⟨rfl, rfl⟩
          exact ⟨data, status, reados, rfl, looped, rfl⟩
        · rintro ⟨_, _, _, rfl, again, rfl⟩
          rw [looped] at again
          cases again
          exact ⟨rfl, rfl⟩

private theorem io_onRecv_eq_some :
    io.onRecv methods stubs = some next ↔
      ∃ messages session, io.session.onRecv methods stubs (io.session.reados.size + io.session.readbuf.len + 1) =
          .ok (some (messages, session)) ∧
        next = { io with session, closeCalled := io.closeCalled || session.status.isClose } := by
  unfold SessionIo.onRecv
  generalize io.session.onRecv methods stubs (io.session.reados.size + io.session.readbuf.len + 1) = result
  rcases result with thrown | _ | ⟨messages, session⟩
  · simp
  · simp
  · simp only [Option.some.injEq, Except.ok.injEq, Prod.mk.injEq]
    constructor
    · rintro rfl
      exact ⟨messages, session, ⟨rfl, rfl⟩, rfl⟩
    · rintro ⟨_, _, ⟨rfl, rfl⟩, rfl⟩
      rfl

/-- Behind `on_recv` the session is closing exactly when a `decode` in it has closed it. -/
private theorem onRecv_staysClosed (received : io.onRecv methods stubs = some next)
    (rejects : io.closeCalled = true → Rejects methods stubs io.session) : next.StaysClosed := by
  obtain ⟨messages, session, called, rfl⟩ := io_onRecv_eq_some.1 received
  obtain ⟨data, status, reados, appended, looped, rfl⟩ := onRecv_eq_some.1 called
  intro closed
  rcases (Bool.or_eq_true _ _).mp closed with before | closing
  · exact rejects before data messages status reados appended looped
  · exact closing

private theorem rejects_of_onRecv (closed : io.closeCalled = true)
    (stays : ∀ after, io.onRecv methods stubs = some after → after.StaysClosed) : Rejects methods stubs io.session := by
  intro data messages status reados appended looped
  have called := onRecv_eq_some.2 ⟨data, status, reados, appended, looped, rfl⟩
  have kept := stays _ (io_onRecv_eq_some.2 ⟨messages, _, called, rfl⟩)
  apply kept
  simp [closed]

private theorem staysClosed_of_stands (stays : io.StaysClosed) (same : StandsAs io next) : next.StaysClosed := by
  unfold SessionIo.StaysClosed SessionIo.isClose
  rw [same.closeCalled, same.status]
  exact stays

private theorem wbuffer_staysClosed (stays : io.StaysClosed) : io.wbuffer.StaysClosed := by
  unfold SessionIo.wbuffer
  split <;> exact stays

private theorem deliver_staysClosed {message : List UInt8} (stays : io.StaysClosed) (delivered : io.deliver message = .ok next) :
    next.StaysClosed := by
  rcases deliver_cases delivered with ⟨-, rfl⟩ | ⟨data, -, rfl⟩
  · exact stays
  · exact stays

theorem step_staysClosed {action : IoAction} (stays : io.StaysClosed) (leaves : io.LeavesClosed methods stubs action)
    (stepped : io.step methods stubs action = some next) : next.StaysClosed := by
  cases step_changes stepped with
  | stands same => exact staysClosed_of_stands stays same
  | closes _ closed => exact fun _ => closed
  | @receives _ send after reads received same =>
    have rejects : io.closeCalled = true → Rejects methods stubs io.session := by
      rcases reads with ⟨rfl, here, full⟩ | ⟨rfl, here⟩
      · exact leaves send here full
      · exact leaves send here
    exact staysClosed_of_stands (onRecv_staysClosed received rejects) same
  | swaps same => exact staysClosed_of_stands (wbuffer_staysClosed stays) same
  | sends sent =>
    simp only [afterSend, Option.ite_none_right_eq_some, Option.some.injEq] at sent
    obtain ⟨-, rfl⟩ := sent
    split <;> exact stays
  | @delivers index message _ delivered =>
    have before : ({ io with waiting := io.waiting.eraseIdx index } : SessionIo).StaysClosed := stays
    exact deliver_staysClosed before delivered
  | marks here same =>
    intro closed
    have opened : io.closeCalled = false := leaves here
    have called : io.closeCalled = true := same.closeCalled.symm.trans closed
    rw [opened] at called
    cases called

theorem leavesClosed_of_stays {action : IoAction}
    (kept : ∀ after, io.step methods stubs action = some after → after.StaysClosed) : io.LeavesClosed methods stubs action := by
  cases action with
  | beginRead =>
    intro send here full closed
    refine rejects_of_onRecv closed fun after received => ?_
    have stepped : io.step methods stubs .beginRead = some { after with pc := .receiving send } := by
      simp only [SessionIo.step, here, full, if_true, received, Option.map_some]
    have stays := kept _ stepped
    exact stays
  | onRecv =>
    intro send here closed
    refine rejects_of_onRecv closed fun after received => ?_
    have stepped : io.step methods stubs .onRecv = some { after with pc := if send then .write else .close } := by
      simp only [SessionIo.step, here, received, Option.map_some]
    have stays := kept _ stepped
    exact stays
  | onSend =>
    intro here
    by_contra closed
    rw [Bool.not_eq_false] at closed
    have stepped : io.step methods stubs .onSend = some { io.onSend with pc := .close } := by
      simp only [SessionIo.step, here, if_true]
    have closing := kept _ stepped closed
    simp [SessionIo.isClose, SessionIo.onSend, SessionIo.setStatus, SessionStatus.isClose] at closing
  | setClose | enter | deliver | handleEvent | recv | beginWrite | send | refetch | handleClose => trivial

/-- A run keeps a session that is to be closed marked so exactly when, after `set_close`, no `on_send`
runs and no `on_recv` but one that rejects what it decodes. -/
theorem staysClosed_iff_leavesClosed (methods : ProtocolMethods μ) (stubs : Stubs μ) (readBufferSize writeBufferSize : Nat)
    (io : SessionIo) (created : SessionIo.create readBufferSize writeBufferSize = .ok io) (actions : List IoAction) :
    Throughout (SessionIo.step methods stubs) StaysClosed io actions ↔
      EachStep (SessionIo.step methods stubs) (LeavesClosed methods stubs) io actions := by
  have start : io.StaysClosed := by
    intro closed
    rw [(create_writing created).2] at closed
    cases closed
  exact throughout_iff_eachStep id step_staysClosed (fun _ => leavesClosed_of_stays) start

/-- `set_close` and then an event with nothing to send. -/
def quietClose : List IoAction := [.setClose .timeout, .handleEvent false true, .beginWrite, .handleClose]

theorem staysClosed_of_quietClose :
    Throughout (SessionIo.step octetsSchema.methods octetsSchema.stubs) StaysClosed openedIo quietClose :=
  (staysClosed_iff_leavesClosed octetsSchema.methods octetsSchema.stubs 16 16 openedIo rfl quietClose).2
    ⟨trivial, fun _ _ => ⟨trivial, fun _ _ => ⟨trivial, fun _ _ => ⟨trivial, fun _ _ => trivial⟩⟩⟩⟩

/-- `set_close` by the keepalive timer, and then a read event in which nothing arrives. -/
def lateRead : List IoAction := [.setClose .timeout, .handleEvent true false, .beginRead, .recv .again, .onRecv, .handleClose]

theorem lateRead_reopens :
    ∃ io, lateRead.foldlM (SessionIo.step octetsSchema.methods octetsSchema.stubs) openedIo = some io ∧
      io.session.status = ⟨.recving, .timeout⟩ ∧ io.deleted = false ∧
      ¬ Throughout (SessionIo.step octetsSchema.methods octetsSchema.stubs) StaysClosed openedIo lateRead := by
  have computed : (lateRead.foldlM (SessionIo.step octetsSchema.methods octetsSchema.stubs) openedIo).map
      (fun io => (io.session.status, io.deleted, io.closeCalled)) = some (⟨.recving, .timeout⟩, false, true) := by
    decide +kernel
  obtain ⟨io, ran, same⟩ := Option.map_eq_some_iff.1 computed
  simp only [Prod.mk.injEq] at same
  obtain ⟨status, deleted, called⟩ := same
  refine ⟨io, ran, status, deleted, fun every => ?_⟩
  have closing := every.last ran called
  rw [SessionIo.isClose, status] at closing
  cases closing

end Proofs
end Cassobee
