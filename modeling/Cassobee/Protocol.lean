import Cassobee.Marshal

/-! Framing of `io/protocol.cpp`: a message is its protocol id, the size of its payload and the
payload. The fields that `init_session` fills on a decoded object are not part of a message here;
the session identifies itself to whoever runs it. -/

namespace Cassobee

abbrev ProtocolId := BitVec 32

inductive SessionState where
  | none | active | sending | recving | closing
  deriving DecidableEq, Repr

inductive SessionCloseReason where
  | none | local | remote | timeout | reset | error | exception
  deriving DecidableEq, Repr

/-- The fields of a session that say whether it is being closed, and why. -/
structure SessionStatus where
  state : SessionState
  closeReason : SessionCloseReason
  deriving DecidableEq, Repr

def SessionStatus.setClose (_ : SessionStatus) (reason : SessionCloseReason) : SessionStatus := ⟨.closing, reason⟩

def SessionStatus.isClose (status : SessionStatus) : Bool := status.state = .closing

/-- The virtual methods of `protocol` that framing calls. `unpack` runs on a copy of the registered
stub and leaves the message in it. -/
structure ProtocolMethods (μ : Type) where
  getType : μ → ProtocolId
  pack : μ → StreamM Unit
  unpack : μ → StreamM μ

/-- `get_map()`: the stub objects by protocol id. -/
abbrev Stubs (μ : Type) := ProtocolId → Option μ

/-- The generated message classes: what each marshals, and which of them have put a stub into
`get_map()`. A message is its class together with its fields. -/
structure Registry where
  Fields : ProtocolId → Type
  type (id : ProtocolId) : Ty false (Fields id)
  registered : ProtocolId → Bool

namespace Registry

abbrev Message (registry : Registry) : Type := (id : ProtocolId) × registry.Fields id

def methods (registry : Registry) : ProtocolMethods registry.Message where
  getType message := message.1
  pack message := (registry.type message.1).push message.2
  unpack stub := do return ⟨stub.1, ← (registry.type stub.1).pop stub.2⟩

def stubs (registry : Registry) : Stubs registry.Message := fun id =>
  if registry.registered id then some ⟨id, (registry.type id).default⟩ else none

end Registry

def getProtocolGuessSize (_ : ProtocolId) : Nat := 2048

/-- The length field turned out wider or narrower than guessed: the payload moves by a difference
of `size_t`, which wraps when the field gets narrower. -/
def movePayload (prevSize size guessSizeSize actualSizeSize : Nat) : StreamM Unit := fun os =>
  if actualSizeSize ≠ guessSizeSize then
    let diff := (actualSizeSize + wordSize - guessSizeSize) % wordSize
    match os.data.reserve ((os.size + diff) % wordSize) with
    | .error thrown => .error thrown os
    | .ok data =>
      let moved := overwrite data.buf ((prevSize + diff) % wordSize) ((data.buf.drop prevSize).take size)
      .ok () { os with data := Octets.fastResize ⟨moved, data.len⟩ diff }
  else
    .ok () os

/-- `data.replace(size_begin_pos, buf.data(), actual_size_size)`. -/
def fillSize (sizeBeginPos : Nat) (field : List UInt8) : StreamM Unit := fun os =>
  match os.data.replace sizeBeginPos field with
  | .error thrown => .error thrown os
  | .ok data => .ok () { os with data }

/-- `os >> id >> size`. -/
def popHeader : StreamM (ProtocolId × Nat) := do
  let id ← popCompactu32
  let size ← popSize
  return (id, size)

section Encode
variable {μ : Type} (methods : ProtocolMethods μ)

/-- Room for the length field is left by copying as many bytes from a cleared vector, so that
`stale` is what its storage happens to hold. -/
def encodeBody (guessSize : Nat) (stale : Nat → UInt8) (message : μ) : StreamM Unit := do
  pushCompactu32 (methods.getType message)
  let guessSizeSize := getCompactIntSize guessSize
  let sizeBeginPos := (← get).size
  appendData ((List.range guessSizeSize).map stale)
  let prevSize := (← get).size
  methods.pack message
  let size := ((← get).size + wordSize - prevSize) % wordSize
  let actualSizeSize := getCompactIntSize size
  movePayload prevSize size guessSizeSize actualSizeSize
  fillSize sizeBeginPos ((writeVarint size).take actualSizeSize)

/-- `protocol::encode` swallows every exception and leaves what has been written. -/
def encodeGuess (guessSize : Nat) (stale : Nat → UInt8) (message : μ) : StreamM Unit := fun os =>
  match encodeBody methods guessSize stale message os with
  | .error .abort after => .error .abort after
  | .error _ after => .ok () after
  | .ok _ after => .ok () after

def encode (stale : Nat → UInt8) (message : μ) : StreamM Unit :=
  encodeGuess methods (getProtocolGuessSize (methods.getType message)) stale message

/-- What the `try` block of `protocol::decode` arrives at. -/
inductive DecodeStep (μ : Type) where
  | wait
  | message (message : μ)
  | unknown

/-- What follows the header, by whether the payload is there and the class is known. -/
def decodePayload (stubs : Stubs μ) (id : ProtocolId) (size : Nat) : StreamM (DecodeStep μ) := fun os =>
  if os.dataReady size then
    match stubs id with
    | some stub => (do return DecodeStep.message (← methods.unpack stub) : StreamM (DecodeStep μ)) os
    | none => .ok .unknown os
  else
    (do popTransaction .rollback; return DecodeStep.wait : StreamM (DecodeStep μ)) os

def decodeBody (stubs : Stubs μ) : StreamM (DecodeStep μ) := do
  popTransaction .begin
  let (id, size) ← popHeader
  decodePayload methods stubs id size

/-- `protocol::decode`. An exception closes the session, and then the cursor is rolled back. -/
def decode (stubs : Stubs μ) (status : SessionStatus) : StreamM (Option μ × SessionStatus) := fun os =>
  if os.dataReady 1 then
    match decodeBody methods stubs os with
    | .ok .wait after => .ok (none, status) after
    | .ok (.message message) after => .ok (some message, status) after
    | .ok .unknown after => (do popTransaction .rollback; return (none, status)) after
    | .error .abort after => .error .abort after
    | .error _ after => (do popTransaction .rollback; return (none, status.setClose .exception)) after
  else
    .ok (none, status) os

/-- `while(protocol* prot = protocol::decode(...))`, collecting the messages; `none` if `fuel`
calls do not reach the `nullptr` that ends the loop. -/
def decodeLoop (stubs : Stubs μ) : Nat → SessionStatus → StreamM (Option (List μ × SessionStatus))
  | 0, _ => return none
  | fuel + 1, status => do
    match ← decode methods stubs status with
    | (none, status) => return some ([], status)
    | (some message, status) =>
      match ← decodeLoop stubs fuel status with
      | none => return none
      | some (messages, status) => return some (message :: messages, status)

end Encode
end Cassobee
