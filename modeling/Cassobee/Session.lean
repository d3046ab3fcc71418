import Cassobee.Protocol

/-! The receiving side of `io/session.cpp`. Bytes arrive in `_readbuf`, move into `_reados` as far as
its block has room, and are decoded there. What a dispatched message does when it runs is not part
of the session. -/

namespace Cassobee

structure Session where
  status : SessionStatus
  reados : Octetsstream
  readbuf : Octets
  deriving DecidableEq, Repr

/-- The session's constructor with the manager's `_read_buffer_size`. -/
def Session.create (readBufferSize : Nat) : Except Thrown Session := do
  let reados ← Octets.new.reserve readBufferSize
  let readbuf ← Octets.new.reserve readBufferSize
  return ⟨⟨.none, .none⟩, ⟨reados, 0, 0⟩, readbuf⟩

/-- `recv` copies a chunk to `rbuffer.end()`, and `fast_resize` makes it part of the buffer. -/
def Session.arrive (session : Session) (chunk : List UInt8) : Session :=
  { session with
    readbuf := Octets.fastResize
      ⟨overwrite session.readbuf.buf session.readbuf.len chunk, session.readbuf.len⟩ chunk.length }

section
variable {μ : Type} (methods : ProtocolMethods μ) (stubs : Stubs μ)

/-- `session::on_recv`, with the messages that it hands to the thread pool. -/
def Session.onRecv (fuel : Nat) (session : Session) : Except Thrown (Option (List μ × Session)) := do
  let status := { session.status with state := .recving }
  let appendLength := min session.readbuf.len session.reados.data.freeSpace
  let data ← session.reados.data.append (session.readbuf.buf.take appendLength)
  let readbuf := session.readbuf.erase 0 appendLength
  match decodeLoop methods stubs fuel status { session.reados with data } with
  | .error thrown _ => throw thrown
  | .ok none _ => return none
  | .ok (some (messages, status)) reados => return some (messages, ⟨status, reados.tryShrink, readbuf⟩)

/-- A run: every chunk arrives and is followed by `on_recv`. Each call leaves the messages that it
dispatched and the status in which it left the session. -/
def Session.receive (fuel : Nat) : List (List UInt8) → Session →
    Except Thrown (Option (List (List μ × SessionStatus) × Session))
  | [], session => return some ([], session)
  | chunk :: chunks, session => do
    match ← (session.arrive chunk).onRecv methods stubs fuel with
    | none => return none
    | some (messages, session) =>
      match ← session.receive fuel chunks with
      | none => return none
      | some (steps, final) => return some ((messages, session.status) :: steps, final)

/-- What happens to the reading side: `recv` fills `_readbuf` as far as it has room, and `on_recv` runs
some time. -/
inductive ReadAction where
  | arrive (chunk : List UInt8)
  | onRecv
  deriving DecidableEq, Repr

def Session.readStep (fuel : Nat) (session : Session) : ReadAction → Option Session
  | .arrive chunk => if chunk.length ≤ session.readbuf.freeSpace then some (session.arrive chunk) else none
  | .onRecv =>
    match session.onRecv methods stubs fuel with
    | .ok (some (_, session)) => some session
    | _ => none

end
end Cassobee
