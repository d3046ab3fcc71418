import Cassobee.HttpProtocol
import Cassobee.Proofs.Stream

/-! What `httpprotocol::decode` makes of what `encode` has written. -/

namespace Cassobee

namespace HttpMessage

/-- The characters of a token, without capitals. -/
def isToken (byte : UInt8) : Bool :=
  (97 ≤ byte ∧ byte ≤ 122) ∨ (48 ≤ byte ∧ byte ≤ 57) ∨ byte = 96 ∨ byte ∈ asciiBytes "!#$%&'*+-.^_|~"

/-- The messages that have a text. -/
structure Sendable (message : HttpMessage) : Prop where
  version : message.version ≠ .unknown
  start : match message.start with
    | .request method path query fragment =>
      method ≠ .unknown ∧ path ≠ [] ∧ (∀ byte ∈ path, byte ∉ asciiBytes " ?#") ∧ ∀ byte ∈ query ++ fragment, byte ∉ asciiBytes " "
    | .response status _ => status ≠ 0 ∧ status ∈ httpStatusMap.map Prod.fst
  names : (message.headers.map Prod.fst).Nodup
  headers : ∀ header ∈ message.headers, header.1 ≠ [] ∧ (∀ byte ∈ header.1, isToken byte) ∧
    header.2 ≠ [] ∧ ∀ byte ∈ header.2, byte ∉ crlf

/-- The bytes that `encode` puts into an empty stream. -/
def encoded (message : HttpMessage) : List UInt8 :=
  match message.encode .new with
  | .ok () os => os.bytes
  | .error _ os => os.bytes

/-- The headers that `encode` does not add. -/
def ownHeaders (message : HttpMessage) : List (List UInt8 × List UInt8) :=
  message.headers.filter fun header => header.1 ≠ asciiBytes "connection" ∧ header.1 ≠ asciiBytes "content-length"

structure Same (sent got : HttpMessage) : Prop where
  version : got.version = sent.version
  start : got.start = sent.start
  headers : got.ownHeaders.Perm sent.ownHeaders
  body : got.body = sent.body

/-- A new session reads the message back and leaves what follows it. -/
def RoundTrips (message : HttpMessage) (rest : List UInt8) : Prop :=
  ∀ os : Octetsstream, os.data.Valid → os.bytes = message.encoded ++ rest → os.pos = 0 → os.transpos = 0 →
    ∃ fuel got session after, httpDecode fuel os {} = some (some got, session, after) ∧ message.Same got ∧ after.unread = rest

end HttpMessage

namespace Proofs
open HttpM

theorem message_of_stream {α : Type} {action : StreamM α} {before after : HttpParse} {value : α}
    (returned : ofStream action before = .ok value after) : after.message = before.message := by
  rw [ofStream] at returned
  split at returned
  next =>
    cases returned
    rfl
  next => cases returned

theorem byteAt_ok {pos : Nat} {byte : UInt8} {before after : HttpParse} (read : byteAt pos before = .ok byte after) :
    after = before := by
  rw [byteAt] at read
  split at read
  next =>
    cases read
    rfl
  next => cases read

theorem filled {first : UInt8} {len : Nat} {text : List UInt8} {before after : HttpParse}
    (made : ofExcept (stringOf first len) before = .ok text after) :
    after = before ∧ ∃ count byte, text = List.replicate count byte := by
  rw [stringOf] at made
  split at made
  next => cases made
  next =>
    cases made
    exact ⟨rfl, _, _, rfl⟩

/-- All bytes of a line are the same: the constructor is given a count and a character. -/
theorem getline_ok {before after : HttpParse} {result : Option (List UInt8)} (returned : getline 10 before = .ok result after) :
    after.message = before.message ∧ ∀ line, result = some line → ∃ count byte, line = List.replicate count byte := by
  obtain ⟨_, begun, began, returned⟩ := ok_of_bind returned
  obtain ⟨now, same, got, returned⟩ := ok_of_bind returned
  cases got
  obtain ⟨byte, same', read, returned⟩ := ok_of_bind returned
  cases byteAt_ok read
  split at returned
  next =>
    obtain ⟨_, advanced, moved, returned⟩ := ok_of_bind returned
    obtain ⟨first, same'', read', returned⟩ := ok_of_bind returned
    cases byteAt_ok read'
    obtain ⟨str, same''', made, returned⟩ := ok_of_bind returned
    obtain ⟨_, committed, shrunk, finished⟩ := ok_of_bind returned
    obtain ⟨rfl, count, byte, str_eq⟩ := filled made
    cases moved
    have kept := message_of_stream shrunk
    have same := message_of_stream began
    cases finished
    refine ⟨kept.trans same, fun line given => ?_⟩
    cases given
    exact ⟨count, byte, str_eq⟩
  next =>
    obtain ⟨_, rolled, back, returned⟩ := ok_of_bind returned
    cases returned
    exact ⟨(message_of_stream back).trans (message_of_stream began), fun line impossible => by cases impossible⟩

/-- A text that begins with two different bytes is no such line. -/
theorem replicate_ne {count : Nat} {byte first second : UInt8} {rest : List UInt8} (different : first ≠ second) :
    List.replicate count byte ≠ first :: second :: rest := by
  intro same
  have one : first ∈ List.replicate count byte := by simp [same]
  have two : second ∈ List.replicate count byte := by simp [same]
  exact different ((List.eq_of_mem_replicate one).trans (List.eq_of_mem_replicate two).symm)

theorem newMessage_ok {before after : HttpParse} (returned : newMessage before = .ok () after) : after.message = .getRequest := by
  obtain ⟨_, begun, -, returned⟩ := ok_of_bind returned
  obtain ⟨result, read, line, returned⟩ := ok_of_bind returned
  obtain ⟨_, chosen, choice, returned⟩ := ok_of_bind returned
  rw [message_of_stream returned]
  cases choice
  apply if_neg
  rintro ⟨rest, start⟩
  cases result with
  | none => cases start
  | some line' =>
    obtain ⟨count, byte, rfl⟩ := (getline_ok line).2 line' rfl
    exact replicate_ne (by decide) start.symm

/-- No method is spelled with one character. -/
theorem method_of_replicate (count : Nat) (byte : UInt8) : stringToHttpMethod (List.replicate count byte) = .unknown := by
  have none_found : httpMethodMap.find? (fun row => stringized row.2 = List.replicate count byte) = none := by
    rw [List.find?_eq_none]
    intro row member same
    rw [decide_eq_true_eq] at same
    simp only [httpMethodMap, List.mem_cons, List.not_mem_nil, or_false] at member
    rcases member with rfl | rfl | rfl | rfl | rfl | rfl | rfl | rfl | rfl | rfl <;>
      exact replicate_ne (by decide) same.symm
  rw [stringToHttpMethod, ofText, none_found]

theorem unpackRequestLine_throws {count : Nat} {byte : UInt8} {before after : HttpParse} :
    unpackRequestLine (List.replicate count byte) before ≠ .ok () after := by
  intro returned
  obtain ⟨count', word⟩ : ∃ count', textUntil (List.replicate count byte) (findByte (List.replicate count byte) 32 0) =
      List.replicate count' byte := by
    cases findByte (List.replicate count byte) 32 0 with
    | none => exact ⟨count, rfl⟩
    | some index => exact ⟨min index count, List.take_replicate⟩
  obtain ⟨_, checked, -, returned⟩ := ok_of_bind returned
  dsimp only at returned
  rw [word, method_of_replicate] at returned
  obtain ⟨_, named, -, returned⟩ := ok_of_bind returned
  obtain ⟨_, _, thrown, -⟩ := ok_of_bind returned
  cases thrown

theorem unpack_incomplete {fuel : Nat} {before after : HttpParse} (fresh : before.message = .getRequest)
    (returned : unpack fuel before = .ok () after) : after.message.parseState ≠ .complete := by
  obtain ⟨_, begun, set, returned⟩ := ok_of_bind returned
  have message : begun.message = { HttpMessage.getRequest with parseState := .firstLine } := by
    cases set
    simp [fresh, HttpMessage.getRequest]
  obtain ⟨now, same, got, returned⟩ := ok_of_bind returned
  cases got
  rw [if_pos (by rw [message])] at returned
  obtain ⟨result, read, line, returned⟩ := ok_of_bind returned
  obtain ⟨kept, spelled⟩ := getline_ok line
  cases result with
  | none =>
    cases returned
    rw [kept, message]
    exact HttpParseState.noConfusion
  | some text =>
    -- the request line is not one, and the exception leaves the parser
    obtain ⟨count, byte, rfl⟩ := spelled text rfl
    obtain ⟨_, _, started, -⟩ := ok_of_bind returned
    obtain ⟨now, same, got, started⟩ := ok_of_bind started
    cases got
    rw [kept, message] at started
    exact absurd started unpackRequestLine_throws

theorem decode_returns_nothing (fuel : Nat) (os : Octetsstream) {session : HttpSession} (fresh : session.unfinishedProtocol = none)
    {got : HttpMessage} {session' : HttpSession} {after : Octetsstream} :
    httpDecode fuel os session ≠ some (some got, session', after) := by
  intro decoded
  rw [httpDecode] at decoded
  split at decoded
  next => cases decoded
  next =>
    simp only [fresh, Option.isNone_none, if_true] at decoded
    split at decoded
    next parse returned =>
      obtain ⟨_, chosen, choice, returned⟩ := ok_of_bind returned
      rw [if_neg (unpack_incomplete (newMessage_ok choice) returned)] at decoded
      cases decoded
    next => cases decoded
    next =>
      split at decoded
      next => cases decoded
      next => cases decoded

/-- No message comes back, whatever it is and whatever follows it. -/
theorem messages_never_roundTrip (message : HttpMessage) (rest : List UInt8) : ¬ message.RoundTrips rest := by
  intro right
  obtain ⟨fuel, got, session, after, decoded, -⟩ := right ⟨⟨message.encoded ++ rest, (message.encoded ++ rest).length⟩, 0, 0⟩
    (le_refl _) (by simp [Octetsstream.bytes, Octets.bytes]) rfl rfl
  exact decode_returns_nothing fuel _ rfl decoded

/-- `GET /`, without headers and body. -/
def getRoot : HttpMessage := { version := .v1_1, start := .request .get (asciiBytes "/") [] [] }

theorem getRoot_not_roundTrips : getRoot.Sendable ∧ ¬ getRoot.RoundTrips [] := by
  have slash (byte : UInt8) (member : byte ∈ asciiBytes "/") : byte ∉ asciiBytes " ?#" := by
    rw [List.mem_singleton.mp member]
    decide
  refine ⟨⟨by decide, ⟨by decide, by decide, slash, fun _ => nofun⟩, .nil, fun _ => nofun⟩, fun right => ?_⟩
  obtain ⟨fuel, got, session, after, decoded, -⟩ := right ⟨⟨getRoot.encoded, getRoot.encoded.length⟩, 0, 0⟩
    (le_refl _) (by simp [Octetsstream.bytes, Octets.bytes]) rfl rfl
  exact decode_returns_nothing fuel _ rfl decoded

end Proofs
end Cassobee
