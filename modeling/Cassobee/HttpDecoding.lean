import Cassobee.HttpProtocol
import Cassobee.Transactions

/-! Calls of `httpprotocol::decode` and the bytes that come in between. A call may also leave `decode` by an
exception, when the rollback behind its handlers throws, and the stream stays as it is then. -/

namespace Cassobee

/-- What a session reads from, and what it has read so far. -/
structure HttpReceiving where
  os : Octetsstream
  session : HttpSession

/-- No object is longer than half of the address space. -/
structure Delivery where
  bytes : List UInt8
  short : bytes.length < 2 ^ 63

inductive HttpReceivingAction where
  | append (delivery : Delivery)
  | decode (fuel : Nat)

namespace HttpM

/-- `unpack` up to its loop; whether the loop is entered. -/
def unpackFirstLine : HttpM Bool := do
  setMessage fun message => if message.parseState = .none then { message with parseState := .firstLine } else message
  if (← get).message.parseState = .firstLine then
    match ← getline 10 with
    | none => return false
    | some line =>
      unpackStartLine line
      return true
  else
    return true

/-- `decode` up to the loop of `unpack`. -/
def enterLoop (session : HttpSession) : HttpM Bool := do
  if session.unfinishedProtocol.isNone then newMessage
  unpackFirstLine

def decodeMessage (session : HttpSession) (fuel : Nat) : HttpM Unit := do
  if session.unfinishedProtocol.isNone then newMessage
  unpack fuel

end HttpM

namespace HttpReceiving

/-- Where the parse of a call begins. -/
def parse (receiving : HttpReceiving) : HttpParse := ⟨receiving.os, receiving.session.unfinishedProtocol.getD .getRequest⟩

/-- `none` if the loop has no end within the fuel. -/
def decode (receiving : HttpReceiving) (fuel : Nat) : Option HttpReceiving :=
  if !receiving.os.dataReady 1 then
    some receiving
  else
    match HttpM.decodeMessage receiving.session fuel receiving.parse with
    | .ok () parse =>
      if parse.message.parseState = .complete then
        some ⟨parse.os, { receiving.session with unfinishedProtocol := none }⟩
      else
        some ⟨parse.os, { receiving.session with unfinishedProtocol := some parse.message }⟩
    | .error .noFuel _ => none
    | .error _ parse =>
      some ⟨left (popTransaction .rollback parse.os),
        { unfinishedProtocol := receiving.session.unfinishedProtocol.map fun _ => parse.message, closing := true }⟩

def step (receiving : HttpReceiving) : HttpReceivingAction → Option HttpReceiving
  | .append delivery => some { receiving with os := left (appendData delivery.bytes receiving.os) }
  | .decode fuel => receiving.decode fuel

end HttpReceiving
end Cassobee
