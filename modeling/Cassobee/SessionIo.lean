import Cassobee.Session

/-! A connected session and its event: `streamio_event::handle_event` of `io/ioevent.cpp` with the
writing side of `io/session.cpp`, and the senders of `io/session_manager.cpp`. The reactor's thread
runs the event; senders and timers run beside it. What happens under one hold of the session's lock,
or touches nothing that the others touch, is one step. -/

namespace Cassobee

/-- What `recv` comes back with; `again` is `EAGAIN` and `interrupted` is `EINTR`. -/
inductive RecvResult where
  | received (chunk : List UInt8)
  | closed
  | interrupted
  | again
  | error
  deriving DecidableEq, Repr

inductive SendResult where
  | sent (count : Nat)
  | zero
  | interrupted
  | again
  | error
  deriving DecidableEq, Repr

/-- Where the reactor's thread stands. `send` is `active_events & EVENT_SEND`, `drained` is behind
`clear_wbuffer`, and `received` and `written` are before `on_recv` and `on_send`. -/
inductive EventPc where
  | idle
  | read (send : Bool)
  | receiving (send : Bool)
  | received (send : Bool)
  | write
  | sending
  | drained
  | written
  | close
  deriving DecidableEq, Repr

/-- The session, its event, the messages whose senders wait for the lock; and, for the record, what
the kernel has taken, what was appended, and whether `set_close` has been called. -/
structure SessionIo where
  session : Session
  writeOffset : Nat
  writeos : Octetsstream
  writebuf : Octets
  sendPermitted : Bool
  deleted : Bool
  pc : EventPc
  waiting : List (List UInt8)
  kernel : List UInt8
  accepted : List (List UInt8)
  closeCalled : Bool
  deriving DecidableEq, Repr

inductive IoAction where
  | setClose (reason : SessionCloseReason)
  | enter (message : List UInt8)
  | deliver (index : Nat)
  | handleEvent (recv send : Bool)
  | beginRead
  | recv (result : RecvResult)
  | onRecv
  | beginWrite
  | send (result : SendResult)
  | refetch
  | onSend
  | handleClose
  deriving DecidableEq, Repr

/-- A call of `send` passes at most this many bytes, so that the result fits an `int`. -/
def maxTransfer : Nat := 0x7ffff000

namespace SessionIo

def isClose (io : SessionIo) : Bool := io.session.status.isClose

def setStatus (io : SessionIo) (status : SessionStatus) : SessionIo := { io with session := { io.session with status } }

def setClose (io : SessionIo) (reason : SessionCloseReason) : SessionIo :=
  { io.setStatus (io.session.status.setClose reason) with closeCalled := true }

/-- `netio_event::close_socket`. -/
def closeSocket (io : SessionIo) (reason : SessionCloseReason) : SessionIo := { io.setClose reason with deleted := true }

/-- `session::wbuffer` swaps the buffers when `_writebuf` is empty. -/
def wbuffer (io : SessionIo) : SessionIo :=
  if io.writebuf.len = 0 then
    { io with writebuf := io.writeos.data, writeos := ⟨io.writebuf.clear, 0, 0⟩ }
  else
    io

def clearWbuffer (io : SessionIo) : SessionIo := { io with writebuf := io.writebuf.clear, writeOffset := 0 }

def isWriteosEmpty (io : SessionIo) : Bool := io.writeOffset == io.writeos.size

/-- The locked part of `send_protocol` and `send_octets`. -/
def deliver (io : SessionIo) (message : List UInt8) : Except Thrown SessionIo :=
  if message.length > io.writeos.data.freeSpace then
    .ok io
  else do
    let data ← io.writeos.data.append message
    .ok { io with
      writeos := { io.writeos with data }
      sendPermitted := true
      accepted := io.accepted ++ [message] }

/-- `netio_event::handle_close`. -/
def handleClose (io : SessionIo) : SessionIo :=
  if io.isClose then
    if !io.isWriteosEmpty then { io with sendPermitted := true } else { io with deleted := true }
  else
    io

/-- The loop of `streamio_event::handle_read` after a call of `recv`. -/
def afterRecv (io : SessionIo) (send : Bool) : RecvResult → Option SessionIo
  | .received chunk =>
    if 0 < chunk.length ∧ chunk.length ≤ io.session.readbuf.freeSpace then
      some { io with session := io.session.arrive chunk }
    else
      none
  | .closed => some { io.closeSocket .remote with pc := .received send }
  | .interrupted => some io
  | .again => some { io with pc := .received send }
  | .error => some { io.closeSocket .error with pc := .received send }

/-- The loop of `streamio_event::handle_write` after a call of `send`. -/
def afterSend (io : SessionIo) : SendResult → Option SessionIo
  | .sent count =>
    if 0 < count ∧ count ≤ min (io.writebuf.len - io.writeOffset) maxTransfer then
      let moved := { io with
        writeOffset := io.writeOffset + count
        kernel := io.kernel ++ (io.writebuf.bytes.drop io.writeOffset).take count }
      some (if moved.writeOffset = moved.writebuf.len then { moved.clearWbuffer with pc := .drained } else moved)
    else
      none
  | .zero => some { io.closeSocket .error with pc := .written }
  | .interrupted => some io
  | .again => some { io with pc := .written }
  | .error => some { io.closeSocket .error with pc := .written }

section
variable {μ : Type} (methods : ProtocolMethods μ) (stubs : Stubs μ)

/-- Every message takes at least the byte of its id. -/
def onRecv (io : SessionIo) : Option SessionIo :=
  match io.session.onRecv methods stubs (io.session.reados.size + io.session.readbuf.len + 1) with
  | .ok (some (_, session)) => some { io with session, closeCalled := io.closeCalled || session.status.isClose }
  | _ => none

def onSend (io : SessionIo) : SessionIo := io.setStatus { io.session.status with state := .sending }

def step (io : SessionIo) : IoAction → Option SessionIo
  | .setClose reason => some (io.setClose reason)
  | .enter message => if io.isClose then some io else some { io with waiting := io.waiting ++ [message] }
  | .deliver index =>
    match io.waiting[index]? with
    | none => none
    | some message =>
      match ({ io with waiting := io.waiting.eraseIdx index } : SessionIo).deliver message with
      | .ok io => some io
      | .error _ => none
  | .handleEvent recv send =>
    if io.pc = .idle then
      some { io with pc := if recv then .read send else if send then .write else .close }
    else
      none
  | .beginRead =>
    match io.pc with
    | .read send =>
      if io.session.readbuf.freeSpace = 0 then
        (io.onRecv methods stubs).map fun io => { io with pc := .receiving send }
      else
        some { io with pc := .receiving send }
    | _ => none
  | .recv result =>
    match io.pc with
    | .receiving send => if io.session.readbuf.freeSpace = 0 then some { io with pc := .received send } else io.afterRecv send result
    | _ => none
  | .onRecv =>
    match io.pc with
    | .received send => (io.onRecv methods stubs).map fun io => { io with pc := if send then .write else .close }
    | _ => none
  | .beginWrite =>
    if io.pc = .write then
      let io := io.wbuffer
      some (if io.writebuf.len = 0 then { io with sendPermitted := false, pc := .close } else { io with pc := .sending })
    else
      none
  | .send result => if io.pc = .sending then io.afterSend result else none
  | .refetch =>
    if io.pc = .drained then
      let io := io.wbuffer
      some (if io.writebuf.len = io.writeOffset then { io with sendPermitted := false, pc := .written } else { io with pc := .sending })
    else
      none
  | .onSend => if io.pc = .written then some { io.onSend with pc := .close } else none
  | .handleClose => if io.pc = .close then some { io.handleClose with pc := .idle } else none

end

/-- A session of a manager with the two buffer sizes, once `set_open` has run. -/
def create (readBufferSize writeBufferSize : Nat) : Except Thrown SessionIo := do
  let session ← Session.create readBufferSize
  let writeos ← Octets.new.reserve writeBufferSize
  let writebuf ← Octets.new.reserve writeBufferSize
  return ⟨{ session with status := ⟨.active, .none⟩ }, 0, ⟨writeos, 0, 0⟩, writebuf, true, false, .idle, [], [], [], false⟩

end SessionIo
end Cassobee
