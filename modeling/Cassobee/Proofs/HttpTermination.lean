import Cassobee.HttpLoop
import Cassobee.Proofs.HttpLines
import Cassobee.Proofs.Rollback

/-! When the loop of `httpprotocol::unpack` comes to an end. `getline` leaves the cursor before its
delimiter and never returns false, so the loop ends with an exception or not at all; which of the two is
said by the bytes at the cursor. -/

namespace Cassobee
open HttpM

namespace Proofs
open Octetsstream

/-! ## One round of the loop -/

/-- The states in which a line is read. -/
def readsLine : HttpParseState → Bool
  | .body | .chunkedData => false
  | _ => true

section Loop
variable {getline : HttpM (Option (List UInt8))} {parse stopped middle after : HttpParse} {line : List UInt8} {thrown : HttpThrown}

theorem nextLine_getline (reads : readsLine parse.message.parseState = true) :
    nextLineWith getline parse = getline parse := by
  rw [nextLineWith, run_bind (get_run parse)]
  cases state : parse.message.parseState <;> first | rfl | (rw [state] at reads; cases reads)

theorem nextLine_nothing (skips : readsLine parse.message.parseState = false) :
    nextLineWith getline parse = .ok (some []) parse := by
  rw [nextLineWith, run_bind (get_run parse)]
  cases state : parse.message.parseState <;> first | rfl | (rw [state] at skips; cases skips)

theorem unpackLines_throws (fuel : Nat) (failed : nextLineWith getline parse = .error thrown stopped) :
    unpackLinesWith getline (fuel + 1) parse = .error thrown stopped := by
  rw [unpackLinesWith, run_bind_error failed]

theorem unpackLines_line_throws (fuel : Nat) (read : nextLineWith getline parse = .ok (some line) middle)
    (failed : unpackLine line middle = .error thrown stopped) :
    unpackLinesWith getline (fuel + 1) parse = .error thrown stopped := by
  rw [unpackLinesWith, run_bind read]
  exact run_bind_error failed

theorem unpackLines_line (fuel : Nat) (read : nextLineWith getline parse = .ok (some line) middle)
    (unpacked : unpackLine line middle = .ok () after) :
    unpackLinesWith getline (fuel + 1) parse = unpackLinesWith getline fuel after := by
  rw [unpackLinesWith, run_bind read]
  exact run_bind unpacked

theorem unpackLines_nothing (fuel : Nat) (missing : nextLineWith getline parse = .ok none after) :
    unpackLinesWith getline (fuel + 1) parse = .ok () after := by
  rw [unpackLinesWith, run_bind missing]
  rfl

/-- The loop returns or throws after so many rounds. -/
def Terminates (getline : HttpM (Option (List UInt8))) (parse : HttpParse) : Prop :=
  ∃ fuel, ∀ stopped, unpackLinesWith getline fuel parse ≠ .error .noFuel stopped

theorem terminates_of_throw (failed : nextLineWith getline parse = .error thrown stopped) (real : thrown ≠ .noFuel) :
    Terminates getline parse := by
  refine ⟨1, fun stopped' same => ?_⟩
  rw [unpackLines_throws 0 failed] at same
  cases same
  exact real rfl

theorem terminates_of_line_throw (read : nextLineWith getline parse = .ok (some line) middle)
    (failed : unpackLine line middle = .error thrown stopped) (real : thrown ≠ .noFuel) : Terminates getline parse := by
  refine ⟨1, fun stopped' same => ?_⟩
  rw [unpackLines_line_throws 0 read failed] at same
  cases same
  exact real rfl

theorem terminates_iff_next (read : nextLineWith getline parse = .ok (some line) middle)
    (unpacked : unpackLine line middle = .ok () after) : Terminates getline parse ↔ Terminates getline after := by
  constructor
  · rintro ⟨fuel, ended⟩
    cases fuel with
    | zero => exact absurd rfl (ended parse)
    | succ fuel =>
      refine ⟨fuel, fun stopped same => ended stopped ?_⟩
      rw [unpackLines_line fuel read unpacked]
      exact same
  · rintro ⟨fuel, ended⟩
    refine ⟨fuel + 1, fun stopped same => ended stopped ?_⟩
    rwa [unpackLines_line fuel read unpacked] at same

/-- A round that leads back to where it came from is repeated for ever. -/
theorem not_terminates_of_kept {spins : HttpParse → Prop}
    (kept : ∀ parse, spins parse → ∃ line middle after, nextLineWith getline parse = .ok (some line) middle ∧
      unpackLine line middle = .ok () after ∧ spins after) (start : spins parse) : ¬ Terminates getline parse := by
  rintro ⟨fuel, ended⟩
  induction fuel generalizing parse with
  | zero => exact ended parse rfl
  | succ fuel ih =>
    obtain ⟨line, middle, after, read, unpacked, again⟩ := kept parse start
    refine ih again fun stopped same => ended stopped ?_
    rw [unpackLines_line fuel read unpacked]
    exact same

end Loop

/-! ## What a round does in each state -/

/-- The bytes of a stream in memory. -/
structure Stored (parse : HttpParse) : Prop where
  valid : parse.os.data.Valid
  bound : parse.os.size ≤ 2 ^ 63

/-- What `getline` makes of a line. -/
def madeLine (line : List UInt8) : List UInt8 :=
  List.replicate (lineHead line 10).toNat (UInt8.ofNat line.length)

/-- `getline` throws: there is no line, or its first byte is no count. -/
def LineThrows (bytes : List UInt8) : Prop := 10 ∉ bytes ∨ 128 ≤ bytes.headD 10

section Rounds
variable {parse : HttpParse} {line rest : List UInt8}

theorem lineThrows_split (content : parse.os.unread = line ++ 10 :: rest) :
    LineThrows parse.os.unread ↔ 128 ≤ lineHead line 10 := by
  have present : (10 : UInt8) ∈ parse.os.unread := by rw [content]; simp
  have first : parse.os.unread.headD 10 = lineHead line 10 := by
    rw [content]
    cases line <;> rfl
  rw [LineThrows, first]
  exact ⟨fun either => either.resolve_left fun absent => absent present, .inr⟩

theorem terminates_of_lineThrows (stored : Stored parse) (reads : readsLine parse.message.parseState = true)
    (throws : LineThrows parse.os.unread) : Terminates (getline 10) parse := by
  by_cases present : (10 : UInt8) ∈ parse.os.unread
  · obtain ⟨line, rest, content, clean⟩ := List.eq_append_cons_of_mem present
    have failed := getline_negative stored.valid (lt_wordSize stored.bound) content clean ((lineThrows_split content).1 throws)
    exact terminates_of_throw ((nextLine_getline reads).trans failed) (by simp)
  · exact terminates_of_throw ((nextLine_getline reads).trans (getline_missing present)) (by simp)

/-- The stream behind a line. -/
def lineRead (parse : HttpParse) (line : List UInt8) : HttpParse :=
  { parse with os := (lineEnd parse line).os.tryShrink }

theorem lineRead_spec (stored : Stored parse) (content : parse.os.unread = line ++ 10 :: rest) :
    Stored (lineRead parse line) ∧ (lineRead parse line).os.pos ≤ (lineRead parse line).os.size ∧
      (lineRead parse line).os.unread = 10 :: rest := by
  have total := unread_length stored.valid
  rw [content, List.length_append, List.length_cons] at total
  have inside : (lineEnd parse line).os.pos ≤ (lineEnd parse line).os.size := by
    simp only [lineEnd, Octetsstream.size] at total ⊢
    omega
  obtain ⟨valid, within, same, less, -⟩ := tryShrink_spec (show (lineEnd parse line).os.data.Valid from stored.valid) inside
  exact ⟨⟨valid, Nat.le_trans less stored.bound⟩, within, same.trans (unread_behind content parse.os.pos)⟩

theorem nextLine_some (stored : Stored parse) (reads : readsLine parse.message.parseState = true)
    (content : parse.os.unread = line ++ 10 :: rest) (clean : 10 ∉ line) (quiet : ¬ LineThrows parse.os.unread) :
    nextLineWith (getline 10) parse = .ok (some (madeLine line)) (lineRead parse line) :=
  (nextLine_getline reads).trans
    (getline_some stored.valid (lt_wordSize stored.bound) content clean fun negative => quiet ((lineThrows_split content).2 negative))

/-- There is a line, and it is read. -/
theorem exists_line (stored : Stored parse) (reads : readsLine parse.message.parseState = true) (quiet : ¬ LineThrows parse.os.unread) :
    ∃ line rest, parse.os.unread = line ++ 10 :: rest ∧ 10 ∉ line ∧
      nextLineWith (getline 10) parse = .ok (some (madeLine line)) (lineRead parse line) ∧ Stored (lineRead parse line) ∧
        (lineRead parse line).os.pos ≤ (lineRead parse line).os.size ∧ (lineRead parse line).os.unread = 10 :: rest := by
  have present : (10 : UInt8) ∈ parse.os.unread := Classical.not_not.1 fun absent => quiet (.inl absent)
  obtain ⟨line, rest, content, clean⟩ := List.eq_append_cons_of_mem present
  exact ⟨line, rest, content, clean, nextLine_some stored reads content clean quiet, lineRead_spec stored content⟩

/-- The states in which a line is ignored. -/
def ignoresLine : HttpParseState → Bool
  | .header | .body | .chunkedSize | .chunkedData => false
  | _ => true

theorem unpackLine_ignored (ignores : ignoresLine parse.message.parseState = true) : unpackLine line parse = .ok () parse := by
  rw [unpackLine, run_bind (get_run parse)]
  cases state : parse.message.parseState <;> first | rfl | (rw [state] at ignores; cases ignores)

end Rounds

/-! ## A body or a chunk -/

/-- What the states of a body and of a chunk share: `size` bytes and a line end, or nothing. -/
def unpackBlock (size : Nat) (store : List UInt8 → HttpMessage → HttpMessage) (finish : HttpMessage → HttpMessage) :
    HttpM Unit := do
  if !(← get).os.dataReady size then
    ofStream (popTransaction .rollback)
  else
    let text ← HttpM.ofExcept (stringOf (← byteAt (← get).os.pos) size)
    setMessage (store text)
    advance (size + 2)
    ofStream (popTransaction .commit)
    setMessage finish

/-- The stream behind a block. -/
def blockEnd (os : Octetsstream) (size : Nat) : Octetsstream := { os with pos := os.pos + (size + 2) }

section Blocks
variable {parse : HttpParse} {size : Nat} {store : List UInt8 → HttpMessage → HttpMessage} {finish : HttpMessage → HttpMessage}

theorem unpackBlock_eq : unpackBlock size store finish parse =
    if parse.os.dataReady size then
      (do
        let text ← HttpM.ofExcept (stringOf (← byteAt parse.os.pos) size)
        setMessage (store text)
        advance (size + 2)
        ofStream (popTransaction .commit)
        setMessage finish : HttpM Unit) parse
    else
      ofStream (popTransaction .rollback) parse := by
  rw [unpackBlock, run_bind (get_run parse)]
  cases ready : parse.os.dataReady size with
  | false => rfl
  | true => rfl

/-- Not all of the block is there. -/
theorem unpackBlock_waits (stored : Stored parse) (begun : parse.os.transpos = parse.os.pos) (inside : parse.os.pos ≤ parse.os.size)
    (short : parse.os.unread.length < size) : unpackBlock size store finish parse = .ok () parse := by
  have absent : ¬ parse.os.dataReady size = true := by
    rw [dataReady_iff stored.valid stored.bound inside]
    omega
  have back : popTransaction .rollback parse.os = .ok () parse.os := by
    rw [rollback_eq, if_neg (by omega)]
    obtain ⟨⟨data, pos, transpos⟩, message⟩ := parse
    obtain rfl : transpos = pos := begun
    rfl
  rw [unpackBlock_eq, if_neg absent, ofStream, back]

/-- The cursor is beyond the end, or it stands before a byte that is no count. -/
theorem unpackBlock_throws (stored : Stored parse) (begun : parse.os.transpos = parse.os.pos)
    (wrong : parse.os.size < parse.os.pos ∨
      size ≤ parse.os.unread.length ∧ parse.os.pos ≤ parse.os.size ∧ (parse.os.unread = [] ∨ 128 ≤ parse.os.unread.headD 0)) :
    ∃ thrown, unpackBlock size store finish parse = .error thrown parse ∧ thrown ≠ .noFuel := by
  have at_cursor : parse.os.bytes[parse.os.pos]? = parse.os.unread.head? := by
    rw [Octetsstream.unread, List.head?_drop]
    rfl
  have nothing (empty : parse.os.unread = []) (ready : parse.os.dataReady size = true) :
      ∃ thrown, unpackBlock size store finish parse = .error thrown parse ∧ thrown ≠ .noFuel := by
    rw [empty] at at_cursor
    refine ⟨.outOfRange, ?_, by simp⟩
    rw [unpackBlock_eq, if_pos ready, run_bind_error (byteAt_none at_cursor)]
  rcases wrong with beyond | ⟨enough, inside, wrong⟩
  · cases ready : parse.os.dataReady size with
    | true =>
      refine nothing (List.drop_eq_nil_of_le ?_) ready
      rw [length_bytes stored.valid]
      exact Nat.le_of_lt beyond
    | false =>
      have thrown := rollback_eq parse.os
      rw [if_pos (by omega)] at thrown
      refine ⟨.stream (.exception "invalid transaction rollback position"), ?_, by simp⟩
      rw [unpackBlock_eq, ready, if_neg (by simp), ofStream, thrown]
  · have ready := (dataReady_iff stored.valid stored.bound inside size).2 enough
    rcases wrong with empty | negative
    · exact nothing empty ready
    · cases content : parse.os.unread with
      | nil => exact nothing content ready
      | cons byte rest =>
        rw [content] at at_cursor negative
        have thrown : HttpM.ofExcept (stringOf byte size) parse = .error .lengthError parse := by
          rw [stringOf, if_pos (show byte ≥ 128 from negative)]
          rfl
        refine ⟨.lengthError, ?_, by simp⟩
        rw [unpackBlock_eq, if_pos ready, run_bind (byteAt_some at_cursor), run_bind_error thrown]

theorem unpackBlock_taken (stored : Stored parse) (inside : parse.os.pos ≤ parse.os.size) {byte : UInt8} {rest : List UInt8}
    (content : parse.os.unread = byte :: rest) (positive : ¬ 128 ≤ byte) (enough : size ≤ parse.os.unread.length) :
    unpackBlock size store finish parse = .ok ()
      ⟨(blockEnd parse.os size).tryShrink, finish (store (List.replicate byte.toNat (UInt8.ofNat size)) parse.message)⟩ := by
  have at_cursor : parse.os.bytes[parse.os.pos]? = some byte := by
    have head : parse.os.unread[0]? = some byte := by rw [content]; rfl
    rwa [Octetsstream.unread, List.getElem?_drop, Nat.add_zero] at head
  have made : HttpM.ofExcept (stringOf byte size) parse = .ok (List.replicate byte.toNat (UInt8.ofNat size)) parse := by
    rw [stringOf, if_neg positive]
    rfl
  have nowrap : (parse.os.pos + (size + 2)) % wordSize = parse.os.pos + (size + 2) := by
    have total := unread_length stored.valid
    have bound := stored.bound
    exact Nat.mod_eq_of_lt (by simp only [wordSize]; omega)
  rw [unpackBlock_eq, if_pos ((dataReady_iff stored.valid stored.bound inside size).2 enough), run_bind (byteAt_some at_cursor),
    run_bind made]
  simp only [bind, EStateM.bind, setMessage, advance, ofStream, popTransaction, nowrap, blockEnd]

end Blocks

/-- The length that a `content-length` stands for: it goes through an `int`. -/
def bodyLength (number : Nat) : Nat :=
  if number % 2 ^ 32 < 2 ^ 31 then number % 2 ^ 32 else wordSize - 2 ^ 32 + number % 2 ^ 32

theorem stoul_error {text : List UInt8} {thrown : HttpThrown} (failed : stoul text = .error thrown) : thrown ≠ .noFuel := by
  unfold stoul at failed
  split at failed
  · cases failed
    simp
  · split at failed
    · cases failed
      simp
    · cases failed

section Body
variable {parse : HttpParse}

theorem unpackBody_nothing (missing : parse.message.getHeader "content-length" = []) : unpackBody parse = .ok () parse := by
  rw [unpackBody, run_bind (get_run parse), missing]
  rfl

theorem unpackBody_throws {thrown : HttpThrown} (present : parse.message.getHeader "content-length" ≠ [])
    (failed : stoul (parse.message.getHeader "content-length") = .error thrown) :
    unpackBody parse = .error thrown (lineBegun parse) := by
  have thrown' : HttpM.ofExcept (stoul (parse.message.getHeader "content-length")) (lineBegun parse) =
      .error thrown (lineBegun parse) := by
    rw [failed]
    rfl
  rw [unpackBody, run_bind (get_run parse), if_pos present, run_bind (begin_run parse),
    run_bind_error thrown']

theorem unpackBody_block {number : Nat} (present : parse.message.getHeader "content-length" ≠ [])
    (read : stoul (parse.message.getHeader "content-length") = .ok number) :
    unpackBody parse = unpackBlock (bodyLength number) (fun body message => { message with body })
      (fun message => { message with parseState := .complete }) (lineBegun parse) := by
  have found : HttpM.ofExcept (stoul (parse.message.getHeader "content-length")) (lineBegun parse) =
      .ok number (lineBegun parse) := by
    rw [read]
    rfl
  rw [unpackBody, run_bind (get_run parse), if_pos present, run_bind (begin_run parse),
    run_bind found]
  rfl

theorem unpackChunkedData_block : unpackChunkedData parse =
    unpackBlock parse.message.chunkSize (fun chunk message => { message with body := message.body ++ chunk })
      (fun message => { message with chunkSize := 0, parseState := .chunkedSize }) (lineBegun parse) := by
  rw [unpackChunkedData, run_bind (get_run parse), run_bind (begin_run parse)]
  rfl

end Body

/-! ## Rounds that change nothing -/

section Spinning
variable {parse : HttpParse}

theorem unpackLine_body {line : List UInt8} (state : parse.message.parseState = .body) : unpackLine line parse = unpackBody parse := by
  rw [unpackLine, run_bind (get_run parse), state]

theorem unpackLine_chunkedData {line : List UInt8} (state : parse.message.parseState = .chunkedData) :
    unpackLine line parse = unpackChunkedData parse := by
  rw [unpackLine, run_bind (get_run parse), state]

theorem unpackLine_header {line : List UInt8} (state : parse.message.parseState = .header) :
    unpackLine line parse = unpackHeader line parse := by
  rw [unpackLine, run_bind (get_run parse), state]

/-- The empty line between a line and itself: ten characters 0. -/
theorem unpackHeader_zeros : unpackHeader (madeLine []) parse = .ok () parse := rfl

/-- At a delimiter the same empty line is read for ever. -/
theorem spins_at_delimiter {rest : List UInt8} (stored : Stored parse) (content : parse.os.unread = 10 :: rest)
    (reads : readsLine parse.message.parseState = true)
    (ignored : ∀ after, after.message = parse.message → unpackLine (madeLine []) after = .ok () after) :
    ¬ Terminates (getline 10) parse := by
  have kept (other : HttpParse) (holds : Stored other ∧ other.message = parse.message ∧ ∃ rest, other.os.unread = 10 :: rest) :
      ∃ line middle after, nextLineWith (getline 10) other = .ok (some line) middle ∧ unpackLine line middle = .ok () after ∧
        Stored after ∧ after.message = parse.message ∧ ∃ rest, after.os.unread = 10 :: rest := by
    obtain ⟨here, same, rest, content⟩ := holds
    have quiet : ¬ LineThrows other.os.unread := by
      rw [lineThrows_split (show other.os.unread = [] ++ 10 :: rest from content)]
      decide
    have read := nextLine_some here (by rw [same]; exact reads) (show other.os.unread = [] ++ 10 :: rest from content) (by simp) quiet
    obtain ⟨still, -, behind⟩ := lineRead_spec here (show other.os.unread = [] ++ 10 :: rest from content)
    exact ⟨_, _, _, read, ignored _ same, still, same, rest, behind⟩
  exact not_terminates_of_kept kept ⟨stored, rfl, rest, content⟩

/-- Without a `content-length` nothing happens at all. -/
theorem spins_without_length (state : parse.message.parseState = .body)
    (missing : parse.message.getHeader "content-length" = []) : ¬ Terminates (getline 10) parse := by
  have kept (other : HttpParse) (same : other = parse) : ∃ line middle after,
      nextLineWith (getline 10) other = .ok (some line) middle ∧ unpackLine line middle = .ok () after ∧ after = parse := by
    subst same
    refine ⟨[], other, other, nextLine_nothing (by rw [state]; rfl), ?_, rfl⟩
    rw [unpackLine_body state, unpackBody_nothing missing]
  exact not_terminates_of_kept kept rfl

/-- An incomplete block is tried again and again. -/
theorem spins_waiting {read : HttpM (Option (List UInt8))} {size : Nat} {store : List UInt8 → HttpMessage → HttpMessage} {finish : HttpMessage → HttpMessage}
    (stored : Stored parse) (skips : readsLine parse.message.parseState = false)
    (block : ∀ other, other.message = parse.message → unpackLine [] other = unpackBlock size store finish (lineBegun other))
    (inside : parse.os.pos ≤ parse.os.size) (short : parse.os.unread.length < size) : ¬ Terminates read parse := by
  have kept (other : HttpParse) (holds : Stored other ∧ other.message = parse.message ∧ other.os.pos ≤ other.os.size ∧
      other.os.unread.length < size) : ∃ line middle after, nextLineWith read other = .ok (some line) middle ∧
        unpackLine line middle = .ok () after ∧ Stored after ∧ after.message = parse.message ∧ after.os.pos ≤ after.os.size ∧
          after.os.unread.length < size := by
    obtain ⟨here, same, inside, short⟩ := holds
    have begun : Stored (lineBegun other) := ⟨here.valid, here.bound⟩
    have waits : unpackBlock size store finish (lineBegun other) = .ok () (lineBegun other) :=
      unpackBlock_waits begun rfl inside short
    exact ⟨[], other, lineBegun other, nextLine_nothing (by rw [same]; exact skips), (block other same).trans waits,
      begun, same, inside, short⟩
  exact not_terminates_of_kept kept ⟨stored, rfl, inside, short⟩

end Spinning

/-! ## Which bytes end the loop -/

/-- A block whose first byte is no count, or that has behind it what ends the loop. -/
def BlockEnds (behind : List UInt8 → Prop) (size : Nat) (bytes : List UInt8) : Prop :=
  size ≤ bytes.length ∧ (bytes = [] ∨ 128 ≤ bytes.headD 0 ∨ behind (bytes.drop (size + 2)))

/-- Chunks as the loop reads them, the last of which makes it throw. -/
inductive ChunksThrow : List UInt8 → Prop where
  | line {bytes : List UInt8} (throws : LineThrows bytes) : ChunksThrow bytes
  | number {line rest : List UInt8} {thrown : HttpThrown} (clean : 10 ∉ line) (failed : stoul (madeLine line) = .error thrown) :
      ChunksThrow (line ++ 10 :: rest)
  | chunk {line rest : List UInt8} {size : Nat} (clean : 10 ∉ line) (read : stoul (madeLine line) = .ok size) (some : size ≠ 0)
      (enough : size ≤ (10 :: rest).length) (later : ChunksThrow ((10 :: rest).drop (size + 2))) :
      ChunksThrow (line ++ 10 :: rest)

/-- A body that is counted by this `content-length`. -/
def BodyEnds (beyond : Prop) (contentLength bytes : List UInt8) : Prop :=
  contentLength ≠ [] ∧ ∀ number, stoul contentLength = .ok number → beyond ∨ BlockEnds LineThrows (bodyLength number) bytes

/-- Whether the headers ask for chunks. -/
def asksForChunks (message : HttpMessage) : Bool :=
  message.isChunked || strcasecmpEq (message.getHeader "transfer-encoding") "chunked"

/-- The line is a lone colon, or it ends the headers and what follows it ends the loop. -/
def HeaderEnds (message : HttpMessage) (bytes : List UInt8) : Prop :=
  LineThrows bytes ∨ ∃ line rest, bytes = line ++ 10 :: rest ∧ 10 ∉ line ∧
    (madeLine line = [58] ∨ madeLine line = [13] ∧
      (asksForChunks message = true ∨ BodyEnds False (message.getHeader "content-length") (10 :: rest)))

def Ends (parse : HttpParse) : Prop :=
  match parse.message.parseState with
  | .header => HeaderEnds parse.message parse.os.unread
  | .body => BodyEnds (parse.os.size < parse.os.pos) (parse.message.getHeader "content-length") parse.os.unread
  | .chunkedSize => ChunksThrow parse.os.unread
  | .chunkedData => parse.os.size < parse.os.pos ∨ BlockEnds ChunksThrow parse.message.chunkSize parse.os.unread
  | _ => LineThrows parse.os.unread

section Endings
variable {parse : HttpParse}

theorem ignored_iff (stored : Stored parse) (ignores : ignoresLine parse.message.parseState = true) :
    Terminates (getline 10) parse ↔ LineThrows parse.os.unread := by
  have reads : readsLine parse.message.parseState = true := by
    cases state : parse.message.parseState <;> first | rfl | (rw [state] at ignores; cases ignores)
  by_cases throws : LineThrows parse.os.unread
  · exact iff_of_true (terminates_of_lineThrows stored reads throws) throws
  · refine iff_of_false ?_ throws
    obtain ⟨line, rest, -, -, line_read, still, -, behind⟩ := exists_line stored reads throws
    rw [terminates_iff_next line_read (unpackLine_ignored ignores)]
    refine spins_at_delimiter still behind reads fun after same => unpackLine_ignored ?_
    rw [same]
    exact ignores

theorem blockEnd_spec (stored : Stored parse) (size : Nat) (message : HttpMessage) :
    Stored ⟨(blockEnd parse.os size).tryShrink, message⟩ ∧
      (blockEnd parse.os size).tryShrink.unread = parse.os.unread.drop (size + 2) := by
  obtain ⟨valid, same, less⟩ := tryShrink_unread (show (blockEnd parse.os size).data.Valid from stored.valid)
  refine ⟨⟨valid, Nat.le_trans less stored.bound⟩, ?_⟩
  rw [same, Octetsstream.unread, Octetsstream.unread, List.drop_drop]
  rfl

/-- A block, when it is known how the loop goes on behind it. -/
theorem block_iff {size : Nat} {store : List UInt8 → HttpMessage → HttpMessage} {finish : HttpMessage → HttpMessage}
    {behind : List UInt8 → Prop} (stored : Stored parse) (skips : readsLine parse.message.parseState = false)
    (block : ∀ other, other.message = parse.message → unpackLine [] other = unpackBlock size store finish (lineBegun other))
    (next : ∀ after text, Stored after → after.message = finish (store text parse.message) →
      after.os.unread = parse.os.unread.drop (size + 2) → (Terminates (getline 10) after ↔ behind after.os.unread)) :
    Terminates (getline 10) parse ↔ parse.os.size < parse.os.pos ∨ BlockEnds behind size parse.os.unread := by
  have begun : Stored (lineBegun parse) := ⟨stored.valid, stored.bound⟩
  have throws (wrong : parse.os.size < parse.os.pos ∨ size ≤ parse.os.unread.length ∧ parse.os.pos ≤ parse.os.size ∧
      (parse.os.unread = [] ∨ 128 ≤ parse.os.unread.headD 0)) : Terminates (getline 10) parse := by
    obtain ⟨thrown, failed, real⟩ : ∃ thrown,
        unpackBlock size store finish (lineBegun parse) = .error thrown (lineBegun parse) ∧ thrown ≠ .noFuel :=
      unpackBlock_throws begun rfl wrong
    exact terminates_of_line_throw (nextLine_nothing skips) ((block parse rfl).trans failed) real
  by_cases inside : parse.os.pos ≤ parse.os.size
  · rw [or_iff_right (Nat.not_lt_of_le inside), BlockEnds]
    by_cases enough : size ≤ parse.os.unread.length
    · rw [and_iff_right enough]
      cases content : parse.os.unread with
      | nil => exact iff_of_true (throws (.inr ⟨enough, inside, .inl content⟩)) (.inl rfl)
      | cons byte rest =>
        by_cases negative : 128 ≤ byte
        · refine iff_of_true (throws (.inr ⟨enough, inside, .inr ?_⟩)) (.inr (.inl negative))
          rw [content]
          exact negative
        · have taken : unpackBlock size store finish (lineBegun parse) = _ :=
            unpackBlock_taken begun inside content negative enough
          obtain ⟨still, left⟩ := blockEnd_spec begun size
            (finish (store (List.replicate byte.toNat (UInt8.ofNat size)) (lineBegun parse).message))
          rw [terminates_iff_next (nextLine_nothing skips) ((block parse rfl).trans taken), next _ _ still rfl left, left,
            lineBegun_unread parse, content]
          exact ⟨fun ends => .inr (.inr ends), fun ends => (ends.resolve_left (by simp)).resolve_left negative⟩
    · exact iff_of_false (spins_waiting stored skips block inside (Nat.lt_of_not_le enough)) fun ends => enough ends.1
  · have beyond := Nat.lt_of_not_le inside
    exact iff_of_true (throws (.inl beyond)) (.inl beyond)

theorem body_iff (stored : Stored parse) (state : parse.message.parseState = .body) : Terminates (getline 10) parse ↔
    BodyEnds (parse.os.size < parse.os.pos) (parse.message.getHeader "content-length") parse.os.unread := by
  rw [BodyEnds]
  by_cases present : parse.message.getHeader "content-length" = []
  · exact iff_of_false (spins_without_length state present) fun ends => ends.1 present
  · rw [and_iff_right present]
    have skips : readsLine parse.message.parseState = false := by rw [state]; rfl
    cases read : stoul (parse.message.getHeader "content-length") with
    | error thrown =>
      have real : thrown ≠ .noFuel := stoul_error read
      have failed := unpackBody_throws present read
      rw [← unpackLine_body state] at failed
      exact iff_of_true (terminates_of_line_throw (nextLine_nothing skips) failed real) (by simp)
    | ok number =>
      have block (other : HttpParse) (same : other.message = parse.message) : unpackLine [] other =
          unpackBlock (bodyLength number) (fun body message => { message with body })
            (fun message => { message with parseState := .complete }) (lineBegun other) := by
        rw [unpackLine_body (by rw [same]; exact state),
          unpackBody_block (by rw [same]; exact present) (by rw [same]; exact read)]
      have next (after : HttpParse) (text : List UInt8) (still : Stored after)
          (same : after.message = { parse.message with body := text, parseState := .complete })
          (_ : after.os.unread = parse.os.unread.drop (bodyLength number + 2)) :
          Terminates (getline 10) after ↔ LineThrows after.os.unread := by
        apply ignored_iff still
        rw [same]
        rfl
      rw [block_iff stored skips block next]
      simp

theorem unpackLine_size_throws {line : List UInt8} {thrown : HttpThrown} (state : parse.message.parseState = .chunkedSize)
    (failed : stoul line = .error thrown) : unpackLine line parse = .error thrown parse := by
  have thrown' : HttpM.ofExcept (stoul line) parse = .error thrown parse := by
    rw [failed]
    rfl
  rw [unpackLine, run_bind (get_run parse), state]
  exact run_bind_error thrown'

/-- The message whose next chunk is of this size. -/
def sized (message : HttpMessage) (size : Nat) : HttpMessage :=
  { message with chunkSize := size, parseState := if size = 0 then .complete else .chunkedData }

theorem unpackLine_size {line : List UInt8} {size : Nat} (state : parse.message.parseState = .chunkedSize)
    (read : stoul line = .ok size) : unpackLine line parse = .ok () { parse with message := sized parse.message size } := by
  have found : HttpM.ofExcept (stoul line) parse = .ok size parse := by
    rw [read]
    rfl
  rw [unpackLine, run_bind (get_run parse), state]
  exact run_bind found

theorem chunksThrow_iff {line rest : List UInt8} (clean : 10 ∉ line) (quiet : ¬ LineThrows (line ++ 10 :: rest)) :
    ChunksThrow (line ++ 10 :: rest) ↔ (∃ thrown, stoul (madeLine line) = .error thrown) ∨
      ∃ size, stoul (madeLine line) = .ok size ∧ size ≠ 0 ∧ BlockEnds ChunksThrow size (10 :: rest) := by
  constructor
  · generalize whole : line ++ 10 :: rest = bytes at quiet
    intro throws
    cases throws with
    | line throws => exact absurd throws quiet
    | number clean' failed =>
      obtain ⟨rfl, rfl⟩ := line_unique clean clean' whole
      exact .inl ⟨_, failed⟩
    | chunk clean' read some enough later =>
      obtain ⟨rfl, rfl⟩ := line_unique clean clean' whole
      exact .inr ⟨_, read, some, enough, .inr (.inr later)⟩
  · rintro (⟨thrown, failed⟩ | ⟨size, read, some, enough, empty | negative | later⟩)
    · exact .number clean failed
    · cases empty
    · exact absurd negative (by decide : ¬ (128 : UInt8) ≤ 10)
    · exact .chunk clean read some enough later

theorem chunk_block {other : HttpParse} (state : parse.message.parseState = .chunkedData) (same : other.message = parse.message) :
    unpackLine [] other =
      unpackBlock parse.message.chunkSize (fun chunk message => { message with body := message.body ++ chunk })
        (fun message => { message with chunkSize := 0, parseState := .chunkedSize }) (lineBegun other) := by
  rw [unpackLine_chunkedData (by rw [same]; exact state), unpackChunkedData_block, same]

/-- A chunk, when it is known how the loop goes on behind it. -/
theorem chunk_iff (stored : Stored parse) (state : parse.message.parseState = .chunkedData)
    (next : ∀ after : HttpParse, Stored after → after.message.parseState = .chunkedSize →
      after.os.unread = parse.os.unread.drop (parse.message.chunkSize + 2) →
        (Terminates (getline 10) after ↔ ChunksThrow after.os.unread)) :
    Terminates (getline 10) parse ↔
      parse.os.size < parse.os.pos ∨ BlockEnds ChunksThrow parse.message.chunkSize parse.os.unread := by
  have skips : readsLine parse.message.parseState = false := by rw [state]; rfl
  refine block_iff stored skips (fun other same => chunk_block state same) fun after text still same left => next after still ?_ left
  rw [same]

theorem chunkedSize_iff (stored : Stored parse) (state : parse.message.parseState = .chunkedSize) :
    Terminates (getline 10) parse ↔ ChunksThrow parse.os.unread := by
  have reads : readsLine parse.message.parseState = true := by rw [state]; rfl
  -- A chunk takes at least two bytes with it.
  induction length_eq : parse.os.unread.length using Nat.strong_induction_on generalizing parse with
  | _ length ih =>
    by_cases throws : LineThrows parse.os.unread
    · exact iff_of_true (terminates_of_lineThrows stored reads throws) (.line throws)
    · obtain ⟨line, rest, content, clean, line_read, still, inside, behind⟩ := exists_line stored reads throws
      have quiet := throws
      rw [content] at quiet
      rw [content, chunksThrow_iff clean quiet]
      cases read : stoul (madeLine line) with
      | error thrown =>
        have failed := unpackLine_size_throws (show (lineRead parse line).message.parseState = _ from state) read
        exact iff_of_true (terminates_of_line_throw line_read failed (stoul_error read)) (.inl ⟨thrown, rfl⟩)
      | ok size =>
        have unpacked := unpackLine_size (show (lineRead parse line).message.parseState = _ from state) read
        rw [terminates_iff_next line_read unpacked]
        by_cases last : size = 0
        · subst last
          refine iff_of_false ?_ (by simp)
          refine spins_at_delimiter ⟨still.valid, still.bound⟩ behind rfl fun after same => unpackLine_ignored ?_
          rw [same]
          rfl
        · have here : Stored { lineRead parse line with message := sized parse.message size } := ⟨still.valid, still.bound⟩
          have left : ({ lineRead parse line with message := sized parse.message size } : HttpParse).os.unread = 10 :: rest := behind
          have total : length = line.length + (rest.length + 1) := by
            rw [← length_eq, content, List.length_append, List.length_cons]
          rw [show (lineRead parse line).message = parse.message from rfl, chunk_iff here (if_neg last)]
          · rw [left, or_iff_right (Nat.not_lt_of_le inside)]
            simp [sized, last]
          · intro after again state drop
            refine ih _ ?_ again state (by rw [state]; rfl) rfl
            rw [drop, left, List.length_drop, List.length_cons]
            omega

theorem onParseHeaderFinished_spec (parse : HttpParse) : ∃ after, onParseHeaderFinished parse = .ok () after ∧
    after.os = parse.os ∧ after.message.headers = parse.message.headers ∧
      after.message.isChunked = asksForChunks parse.message := by
  have transfer (middle : HttpParse) (stream : middle.os = parse.os) (headers : middle.message.headers = parse.message.headers)
      (chunked : middle.message.isChunked = parse.message.isChunked) :
      ∃ after, (do
        if strcasecmpEq ((← get).message.getHeader "transfer-encoding") "chunked" then
          setMessage fun message => { message with isChunked := true, isKeepalive := true } : HttpM Unit) middle = .ok () after ∧
        after.os = parse.os ∧ after.message.headers = parse.message.headers ∧
          after.message.isChunked = asksForChunks parse.message := by
    have same : middle.message.getHeader "transfer-encoding" = parse.message.getHeader "transfer-encoding" := by
      rw [HttpMessage.getHeader, headers]
      rfl
    rw [run_bind (get_run middle), same, asksForChunks]
    cases found : strcasecmpEq (parse.message.getHeader "transfer-encoding") "chunked" with
    | true => exact ⟨_, rfl, stream, headers, by simp⟩
    | false => exact ⟨_, rfl, stream, headers, by simp [chunked]⟩
  rw [onParseHeaderFinished, run_bind (get_run parse)]
  split
  · split
    · exact transfer _ rfl rfl rfl
    · split
      · exact transfer _ rfl rfl rfl
      · split
        · exact transfer _ rfl rfl rfl
        · exact transfer _ rfl rfl rfl
  · exact transfer _ rfl rfl rfl

/-- A made line is one character over and over, so a colon in it is the first of them. -/
theorem findByte_madeLine {line : List UInt8} {colon : Nat} (found : findByte (madeLine line) 58 0 = some colon) :
    colon = 0 ∧ ∃ count, madeLine line = List.replicate (count + 1) 58 := by
  rw [findByte, List.drop_zero, madeLine] at found
  cases times : (lineHead line 10).toNat with
  | zero => simp [times] at found
  | succ count =>
    rw [times, List.replicate_succ, List.findIdx?_cons] at found
    by_cases colons : UInt8.ofNat line.length = 58
    · simp only [colons, decide_true, if_true, Option.map_some, Option.some.injEq] at found
      refine ⟨found.symm, count, ?_⟩
      rw [madeLine, times, colons]
    · simp [colons] at found

/-- A line that does not end the headers: a lone colon throws, anything else leaves the state as it is. -/
theorem unpackHeader_inner {line : List UInt8} (parse : HttpParse) (inner : madeLine line ≠ [13]) :
    (madeLine line = [58] ∧ unpackHeader (madeLine line) parse = .error .outOfRange parse) ∨
      (madeLine line ≠ [58] ∧ ∃ after, unpackHeader (madeLine line) parse = .ok () after ∧ after.os = parse.os ∧
        after.message.parseState = parse.message.parseState) := by
  rw [unpackHeader, if_pos inner]
  cases found : findByte (madeLine line) 58 0 with
  | none =>
    refine .inr ⟨fun same => ?_, parse, rfl, rfl, rfl⟩
    rw [same] at found
    exact absurd found (by decide)
  | some colon =>
    obtain ⟨rfl, count, same⟩ := findByte_madeLine found
    rw [same]
    cases count with
    | zero => exact .inl ⟨rfl, rfl⟩
    | succ count =>
      refine .inr ⟨by simp [List.replicate_succ], ?_⟩
      have fine : throwIf (decide (0 + 2 > (List.replicate (count + 1 + 1) (58 : UInt8)).length)) .outOfRange parse = .ok () parse := by
        rw [List.length_replicate, decide_eq_false (by omega)]
        rfl
      dsimp only
      rw [run_bind fine]
      exact ⟨_, rfl, rfl, rfl⟩

theorem headerEnds_iff {message : HttpMessage} {line rest : List UInt8} (clean : 10 ∉ line)
    (quiet : ¬ LineThrows (line ++ 10 :: rest)) : HeaderEnds message (line ++ 10 :: rest) ↔
      madeLine line = [58] ∨ madeLine line = [13] ∧
        (asksForChunks message = true ∨ BodyEnds False (message.getHeader "content-length") (10 :: rest)) := by
  rw [HeaderEnds, or_iff_right quiet]
  constructor
  · rintro ⟨line', rest', whole, clean', ends⟩
    obtain ⟨rfl, rfl⟩ := line_unique clean clean' whole
    exact ends
  · exact fun ends => ⟨line, rest, rfl, clean, ends⟩

theorem Stored.of_stream {other : HttpParse} (stored : Stored parse) (same : other.os = parse.os) : Stored other :=
  ⟨by rw [same]; exact stored.valid, by rw [same]; exact stored.bound⟩

/-- Behind the headers the cursor stands before the end of their last line: no number can be read there. -/
theorem chunksThrow_at_delimiter (rest : List UInt8) : ChunksThrow (10 :: rest) :=
  @ChunksThrow.number [] rest _ (by simp) (show stoul (madeLine []) = .error .invalidArgument by decide)

theorem bodyEnds_of_inside {beyond : Prop} (inside : ¬ beyond) (contentLength bytes : List UInt8) :
    BodyEnds beyond contentLength bytes ↔ BodyEnds False contentLength bytes := by
  simp only [BodyEnds, inside]

/-- The line that ends the headers. -/
theorem unpackHeader_last (parse : HttpParse) : ∃ after, unpackHeader [13] parse = .ok () after ∧ after.os = parse.os ∧
    after.message.headers = parse.message.headers ∧
      after.message.parseState = if asksForChunks parse.message then .chunkedSize else .body := by
  obtain ⟨middle, finished, stream, headers, chunked⟩ := onParseHeaderFinished_spec parse
  refine ⟨_, run_bind finished, stream, headers, ?_⟩
  rw [← chunked]

theorem header_iff (stored : Stored parse) (state : parse.message.parseState = .header) :
    Terminates (getline 10) parse ↔ HeaderEnds parse.message parse.os.unread := by
  have reads : readsLine parse.message.parseState = true := by rw [state]; rfl
  by_cases throws : LineThrows parse.os.unread
  · exact iff_of_true (terminates_of_lineThrows stored reads throws) (.inl throws)
  · obtain ⟨line, rest, content, clean, line_read, still, inside, behind⟩ := exists_line stored reads throws
    have header : (lineRead parse line).message.parseState = .header := state
    rw [content, headerEnds_iff clean (by rw [← content]; exact throws)]
    by_cases last : madeLine line = [13]
    · rw [or_iff_right (by rw [last]; decide), and_iff_right last]
      obtain ⟨after, unpacked, stream, headers, next⟩ := unpackHeader_last (lineRead parse line)
      rw [← last, ← unpackLine_header header] at unpacked
      rw [terminates_iff_next line_read unpacked]
      have here : Stored after := still.of_stream stream
      have left : after.os.unread = 10 :: rest := by rw [stream]; exact behind
      rw [show (lineRead parse line).message = parse.message from rfl] at headers next
      have same : after.message.getHeader "content-length" = parse.message.getHeader "content-length" := by
        rw [HttpMessage.getHeader, headers]
        rfl
      cases chunks : asksForChunks parse.message with
      | true =>
        rw [chunks] at next
        rw [chunkedSize_iff here next, left]
        exact iff_of_true (chunksThrow_at_delimiter rest) (.inl rfl)
      | false =>
        rw [chunks] at next
        rw [body_iff here next, left, same, bodyEnds_of_inside (by rw [stream]; exact Nat.not_lt_of_le inside)]
        simp
    · rw [or_iff_left (fun ends => last ends.1)]
      rcases unpackHeader_inner (lineRead parse line) last with ⟨colon, failed⟩ | ⟨other, after, unpacked, stream, kept⟩
      · rw [← unpackLine_header header] at failed
        exact iff_of_true (terminates_of_line_throw line_read failed (by simp)) colon
      · rw [← unpackLine_header header] at unpacked
        rw [terminates_iff_next line_read unpacked]
        refine iff_of_false ?_ other
        refine spins_at_delimiter (still.of_stream stream) (by rw [stream]; exact behind) (by rw [kept, header]; rfl) fun next same => ?_
        rw [unpackLine_header (by rw [same, kept, header]), unpackHeader_zeros]

end Endings

/-- Three bytes of a body of five. -/
def incompleteBody : HttpParse where
  os := ⟨⟨[97, 98, 99], 3⟩, 0, 0⟩
  message := { HttpMessage.getRequest with parseState := .body, headers := [(asciiBytes "content-length", asciiBytes "5")] }

theorem incompleteBody_stored : Stored incompleteBody := ⟨Nat.le_refl 3, by decide⟩

/-- The same body when all of it is there. -/
def wholeBody : HttpParse := { incompleteBody with os := ⟨⟨[97, 98, 99, 100, 101, 13, 10], 7⟩, 0, 0⟩ }

end Proofs
end Cassobee
