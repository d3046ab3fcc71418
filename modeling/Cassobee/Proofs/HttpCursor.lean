import Cassobee.HttpDecoding
import Cassobee.Support.Kept
import Cassobee.Support.Run
import Cassobee.Proofs.HttpTermination

/-! Where the cursor stands while messages are decoded. Everything but the step behind a body or a chunk
leaves it inside the buffer. -/

namespace Cassobee
open HttpM Support

/-- The buffer as its class keeps it, and the cursor inside it. -/
structure Octetsstream.Inside (os : Octetsstream) : Prop where
  valid : os.data.Valid
  block : os.data.cap ≤ 2 ^ 63
  cursor : os.pos ≤ os.size

/-- The size of the block that the next round waits for. -/
def HttpMessage.blockSize (message : HttpMessage) : Option Nat :=
  match message.parseState with
  | .body =>
    if message.getHeader "content-length" = [] then none
    else (stoul (message.getHeader "content-length")).toOption.map Proofs.bodyLength
  | .chunkedData => some message.chunkSize
  | _ => none

/-- The block is there, and its first byte is a count. -/
structure Octetsstream.TakesBlock (os : Octetsstream) (size : Nat) : Prop where
  enough : size ≤ os.unread.length
  some : os.unread ≠ []
  count : ¬ 128 ≤ os.unread.headD 0

/-- Behind a block that is taken there is its line end, or the stream is cut. -/
def HttpParse.BlockFits (parse : HttpParse) : Prop :=
  ∀ size, parse.message.blockSize = some size → parse.os.TakesBlock size →
    size + 2 ≤ parse.os.unread.length ∨ 0x100000 < parse.os.pos + (size + 2)

/-- A round of the loop that does not end it. -/
def HttpParse.round (parse : HttpParse) (_ : Unit) : Option HttpParse :=
  match nextLine parse with
  | .ok (some line) middle =>
    match unpackLine line middle with
    | .ok () after => some after
    | .error .. => none
  | _ => none

/-- What the loop may rely on. -/
structure Octetsstream.CursorInside (os : Octetsstream) : Prop where
  cursor : os.pos ≤ os.size
  ready : ∀ len, os.dataReady len = true ↔ len ≤ os.unread.length

namespace HttpReceiving

/-- What is said of the loop of a call, from where it is entered. -/
def InLoop (holds : Nat → HttpParse → Prop) (receiving : HttpReceiving) : HttpReceivingAction → Prop
  | .append _ => True
  | .decode fuel => receiving.os.dataReady 1 = true →
    ∀ parse, enterLoop receiving.session receiving.parse = .ok true parse → holds fuel parse

/-- In every round of every call the cursor is inside. -/
def RoundsInside : HttpReceiving → HttpReceivingAction → Prop :=
  InLoop fun fuel parse => Throughout HttpParse.round (fun now => now.os.CursorInside) parse (List.replicate fuel ())

def BlocksFit : HttpReceiving → HttpReceivingAction → Prop :=
  InLoop fun fuel parse => EachStep HttpParse.round (fun now _ => now.BlockFits) parse (List.replicate fuel ())

end HttpReceiving

namespace Proofs
open Octetsstream

namespace Inside
variable {os : Octetsstream}

theorem bound (inside : os.Inside) : os.size ≤ 2 ^ 63 := Nat.le_trans inside.valid inside.block

theorem stored {parse : HttpParse} (inside : parse.os.Inside) : Stored parse := ⟨inside.valid, bound inside⟩

theorem begun (inside : os.Inside) : Octetsstream.Inside { os with transpos := os.pos } :=
  ⟨inside.valid, inside.block, inside.cursor⟩

theorem rolledBack (inside : os.Inside) : (left (popTransaction .rollback os)).Inside := by
  rw [rollback_eq]
  split
  next => exact inside
  next within => exact ⟨inside.valid, inside.block, Nat.le_of_not_lt within⟩

theorem shrunk (inside : os.Inside) : os.tryShrink.Inside := by
  obtain ⟨valid, cursor, -, -, block⟩ := tryShrink_spec inside.valid inside.cursor
  exact ⟨valid, by rw [block]; exact inside.block, cursor⟩

theorem cursorInside (inside : os.Inside) : os.CursorInside :=
  ⟨inside.cursor, dataReady_iff inside.valid (bound inside) inside.cursor⟩

/-- What comes in is appended, or refused as a whole. -/
theorem appended (inside : os.Inside) (delivery : Delivery) : (left (appendData delivery.bytes os)).Inside := by
  have short := delivery.short
  have total : os.data.len ≤ 2 ^ 63 := bound inside
  rw [appendData]
  cases result : os.data.append delivery.bytes with
  | error thrown => exact inside
  | ok data =>
    rw [Octets.append] at result
    split at result
    next =>
      cases result
      exact inside
    next =>
      rw [Nat.mod_eq_of_lt (by simp only [wordSize]; omega)] at result
      cases reserved : os.data.reserve (os.data.len + delivery.bytes.length) with
      | error thrown => simp [reserved, bind, Except.bind] at result
      | ok grown =>
        simp only [reserved, bind, Except.bind, Except.ok.injEq] at result
        subst result
        obtain ⟨-, length, block, room⟩ := reserve_ok inside.valid inside.block reserved
        have cursor : os.pos ≤ os.data.len := inside.cursor
        have cap : (overwrite grown.buf grown.len delivery.bytes).length = grown.buf.length :=
          overwrite_length (by rw [length]; exact room)
        simp only [Octets.cap] at block room
        refine ⟨?_, ?_, ?_⟩
        · simp only [left, Octets.Valid, Octets.cap, cap]
          omega
        · simp only [left, Octets.cap, cap]
          exact block
        · simp only [left, Octetsstream.size]
          omega

end Inside

/-! ## What keeps the cursor inside -/

abbrev KeepsInside {α : Type} (call : HttpM α) : Prop := Keeps (fun parse => parse.os.Inside) call

namespace KeepsInside

theorem ofStream {α : Type} {call : StreamM α} (kept : ∀ os, os.Inside → (left (call os)).Inside) :
    KeepsInside (HttpM.ofStream call) := by
  intro parse inside
  have after := kept parse.os inside
  rw [HttpM.ofStream]
  cases result : call parse.os with
  | ok value os =>
    rw [result] at after
    exact after
  | error thrown os =>
    rw [result] at after
    exact after

theorem begin : KeepsInside (HttpM.ofStream (popTransaction .begin)) := ofStream fun _ inside => Inside.begun inside

theorem rollback : KeepsInside (HttpM.ofStream (popTransaction .rollback)) := ofStream fun _ inside => Inside.rolledBack inside

theorem setMessage (change : HttpMessage → HttpMessage) : KeepsInside (HttpM.setMessage change) := fun _ inside => inside

theorem throwIf (failed : Bool) (thrown : HttpThrown) : KeepsInside (HttpM.throwIf failed thrown) :=
  Keeps.ite (.throw thrown) (.pure ())

/-- A line ends before its delimiter, which is there. -/
theorem getline (declm : UInt8) : KeepsInside (HttpM.getline declm) := by
  intro parse inside
  by_cases present : declm ∈ parse.os.unread
  · obtain ⟨line, rest, content, clean⟩ := List.eq_append_cons_of_mem present
    have total := unread_length inside.valid
    rw [content, List.length_append, List.length_cons] at total
    have ended : (lineEnd parse line).os.Inside := by
      refine ⟨inside.valid, inside.block, ?_⟩
      simp only [lineEnd, Octetsstream.size] at total ⊢
      omega
    have bound := lt_wordSize (Inside.bound inside)
    by_cases negative : 128 ≤ lineHead line declm
    · rw [getline_negative inside.valid bound content clean negative]
      exact ended
    · rw [getline_some inside.valid bound content clean negative]
      exact Inside.shrunk ended
  · rw [getline_missing present]
    exact Inside.begun inside

theorem onParseHeaderFinished : KeepsInside HttpM.onParseHeaderFinished := by
  have chunked : KeepsInside (do
      if strcasecmpEq ((← get).message.getHeader "transfer-encoding") "chunked" then
        HttpM.setMessage fun message => { message with isChunked := true, isKeepalive := true }) :=
    .bind .get fun _ => .ite (setMessage _) (.pure ())
  have marked (change : HttpMessage → HttpMessage) : KeepsInside (do
      HttpM.setMessage change
      if strcasecmpEq ((← get).message.getHeader "transfer-encoding") "chunked" then
        HttpM.setMessage fun message => { message with isChunked := true, isKeepalive := true }) :=
    .bind (setMessage change) fun _ => chunked
  exact .bind .get fun _ => .ite (.ite (marked _) (.ite (marked _) (.ite (marked _) chunked))) chunked

theorem unpackHeader (line : List UInt8) : KeepsInside (HttpM.unpackHeader line) := by
  unfold HttpM.unpackHeader
  split
  · split
    · exact .pure ()
    · exact .bind (throwIf _ _) fun _ => setMessage _
  · exact .bind onParseHeaderFinished fun _ => setMessage _

theorem unpackVersion (text : List UInt8) : KeepsInside (HttpM.unpackVersion text) :=
  .bind (setMessage _) fun _ => throwIf _ _

theorem unpackRequestLine (line : List UInt8) : KeepsInside (HttpM.unpackRequestLine line) :=
  .bind (throwIf _ _) fun _ => .bind (setMessage _) fun _ => .bind (throwIf _ _) fun _ => .bind (setMessage _) fun _ =>
    .bind (throwIf _ _) fun _ => .bind (unpackVersion _) fun _ => setMessage _

theorem unpackStatusLine (line : List UInt8) : KeepsInside (HttpM.unpackStatusLine line) := by
  refine .bind (throwIf _ _) fun _ => .bind (unpackVersion _) fun _ => ?_
  split
  · exact .throw _
  · exact .bind (setMessage _) fun _ => .bind (throwIf _ _) fun _ => setMessage _

theorem unpackStartLine (line : List UInt8) : KeepsInside (HttpM.unpackStartLine line) := by
  refine .bind .get fun parse => ?_
  split
  · exact unpackRequestLine line
  · exact unpackStatusLine line

theorem newMessage : KeepsInside HttpM.newMessage :=
  .bind begin fun _ => .bind (getline 10) fun _ => .bind (setMessage _) fun _ => rollback

theorem unpackFirstLine : KeepsInside HttpM.unpackFirstLine := by
  refine .bind (setMessage _) fun _ => .bind .get fun _ => .ite (.bind (getline 10) fun found => ?_) (.pure true)
  cases found with
  | none => exact .pure false
  | some line => exact .bind (unpackStartLine line) fun _ => .pure true

theorem enterLoop (session : HttpSession) : KeepsInside (HttpM.enterLoop session) :=
  .ite (.bind newMessage fun _ => unpackFirstLine) unpackFirstLine

theorem nextLine : KeepsInside HttpM.nextLine := by
  refine .bind .get fun parse => ?_
  split
  · exact .pure _
  · exact .pure _
  · exact getline 10

end KeepsInside

/-! ## A block -/

section Blocks
variable {parse : HttpParse} {size : Nat} {store : List UInt8 → HttpMessage → HttpMessage} {finish : HttpMessage → HttpMessage}

theorem shrunk_of_far {os : Octetsstream} (valid : os.data.Valid) (block : os.data.cap ≤ 2 ^ 63) (far : 0x100000 < os.pos) :
    os.tryShrink.Inside := by
  by_cases within : os.pos ≤ os.size
  · exact Inside.shrunk ⟨valid, block, within⟩
  · have beyond : os.data.len ≤ os.pos := Nat.le_of_lt (Nat.lt_of_not_le within)
    obtain ⟨kept, -, -⟩ := erase_all beyond
    rw [tryShrink, if_pos far]
    refine ⟨kept, ?_, Nat.zero_le _⟩
    simp only [Octets.erase, overwrite, Octets.cap] at block ⊢
    simpa [Nat.min_eq_left beyond] using block

theorem blockEnd_inside {os : Octetsstream} (inside : os.Inside)
    (fits : size + 2 ≤ os.unread.length ∨ 0x100000 < os.pos + (size + 2)) : (blockEnd os size).tryShrink.Inside := by
  rcases fits with within | far
  · apply Inside.shrunk
    refine ⟨inside.valid, inside.block, ?_⟩
    have total := unread_length inside.valid
    have cursor := inside.cursor
    simp only [blockEnd, Octetsstream.size] at total cursor ⊢
    omega
  · exact shrunk_of_far inside.valid inside.block far

theorem fits_of_blockEnd {os : Octetsstream} (inside : os.Inside)
    (cursor : (blockEnd os size).tryShrink.pos ≤ (blockEnd os size).tryShrink.size) :
    size + 2 ≤ os.unread.length ∨ 0x100000 < os.pos + (size + 2) := by
  by_cases far : 0x100000 < os.pos + (size + 2)
  · exact .inr far
  · left
    have uncut : (blockEnd os size).tryShrink = blockEnd os size := if_neg far
    rw [uncut] at cursor
    rw [unread_length inside.valid]
    simp only [blockEnd, Octetsstream.size] at cursor ⊢
    omega

/-- A block is taken, or the stream stays. -/
theorem unpackBlock_cases (inside : parse.os.Inside) (begun : parse.os.transpos = parse.os.pos) :
    (parse.os.TakesBlock size ∧ ∃ text, unpackBlock size store finish parse =
      .ok () ⟨(blockEnd parse.os size).tryShrink, finish (store text parse.message)⟩) ∨
    ¬ parse.os.TakesBlock size ∧ stateOf (unpackBlock size store finish parse) = parse := by
  by_cases enough : size ≤ parse.os.unread.length
  · by_cases wrong : parse.os.unread = [] ∨ 128 ≤ parse.os.unread.headD 0
    · obtain ⟨thrown, failed, -⟩ : ∃ thrown, unpackBlock size store finish parse = .error thrown parse ∧ thrown ≠ .noFuel :=
        unpackBlock_throws (Inside.stored inside) begun (.inr ⟨enough, inside.cursor, wrong⟩)
      refine .inr ⟨fun takes => ?_, by rw [failed]; rfl⟩
      rcases wrong with empty | negative
      · exact takes.some empty
      · exact takes.count negative
    · obtain ⟨some, count⟩ := not_or.mp wrong
      obtain ⟨byte, rest, content⟩ := List.exists_cons_of_ne_nil some
      have positive : ¬ 128 ≤ byte := by rwa [content] at count
      exact .inl ⟨⟨enough, some, count⟩, _, unpackBlock_taken (Inside.stored inside) inside.cursor content positive enough⟩
  · refine .inr ⟨fun takes => enough takes.enough, ?_⟩
    rw [unpackBlock_waits (Inside.stored inside) begun inside.cursor (Nat.lt_of_not_le enough)]
    rfl

/-- The message that a block of this size belongs to. -/
theorem unpackLine_blockSize (expected : parse.message.blockSize = some size) : readsLine parse.message.parseState = false ∧
    ∃ store finish, ∀ line, unpackLine line parse = unpackBlock size store finish (lineBegun parse) := by
  unfold HttpMessage.blockSize at expected
  split at expected
  next state =>
    split at expected
    next => cases expected
    next present =>
      obtain ⟨number, read, rfl⟩ := Option.map_eq_some_iff.mp expected
      cases number_read : stoul (parse.message.getHeader "content-length") with
      | error thrown =>
        rw [number_read] at read
        cases read
      | ok other =>
        rw [number_read] at read
        cases read
        exact ⟨by rw [state]; rfl, _, _, fun line => (unpackLine_body state).trans (unpackBody_block present number_read)⟩
  next state =>
    cases expected
    exact ⟨by rw [state]; rfl, _, _, fun line => (unpackLine_chunkedData state).trans unpackChunkedData_block⟩
  next => cases expected

/-- Where no block is expected, the cursor stays. -/
theorem unpackLine_inside_of_none (inside : parse.os.Inside) (expected : parse.message.blockSize = none) (line : List UInt8) :
    (stateOf (unpackLine line parse)).os.Inside := by
  cases state : parse.message.parseState with
  | header =>
    rw [unpackLine_header state]
    exact KeepsInside.unpackHeader line parse inside
  | body =>
    rw [unpackLine_body state]
    simp only [HttpMessage.blockSize, state] at expected
    split at expected
    next missing =>
      rw [unpackBody_nothing missing]
      exact inside
    next present =>
      cases read : stoul (parse.message.getHeader "content-length") with
      | error thrown =>
        rw [unpackBody_throws present read]
        exact Inside.begun inside
      | ok number =>
        rw [read] at expected
        cases expected
  | chunkedSize =>
    cases read : stoul line with
    | error thrown =>
      rw [unpackLine_size_throws state read]
      exact inside
    | ok size =>
      rw [unpackLine_size state read]
      exact inside
  | chunkedData =>
    simp only [HttpMessage.blockSize, state] at expected
    cases expected
  | none | firstLine | chunkedEnd | complete | error =>
    rw [unpackLine_ignored (by rw [state]; rfl)]
    exact inside

end Blocks

/-! ## The loop -/

section Loop
variable {parse middle after : HttpParse} {line : List UInt8}

theorem round_some (rounded : parse.round () = some after) :
    ∃ line middle, nextLine parse = .ok (some line) middle ∧ unpackLine line middle = .ok () after := by
  unfold HttpParse.round at rounded
  split at rounded
  next line middle read =>
    split at rounded
    next after' unpacked =>
      cases rounded
      exact ⟨line, middle, read, unpacked⟩
    next => cases rounded
  next => cases rounded

theorem round_of_line (read : nextLine parse = .ok (some line) middle) (unpacked : unpackLine line middle = .ok () after) :
    parse.round () = some after := by
  simp only [HttpParse.round, read, unpacked]

/-- Reading a line is about the stream only. -/
theorem nextLine_message (message : HttpMessage) : Keeps (fun now => now.message = message) nextLine := by
  have stream (call : StreamM Unit) : Keeps (fun now => now.message = message) (HttpM.ofStream call) := by
    intro now same
    rw [HttpM.ofStream]
    cases call now.os with
    | ok value os => exact same
    | error thrown os => exact same
  have byte (pos : Nat) : Keeps (fun now => now.message = message) (byteAt pos) := by
    intro now same
    rw [byteAt]
    cases now.os.bytes[pos]? with
    | none => exact same
    | some byte => exact same
  have made (found : Except HttpThrown (List UInt8)) : Keeps (fun now => now.message = message) (HttpM.ofExcept found) := by
    intro now same
    cases found with
    | ok value => exact same
    | error thrown => exact same
  have line : Keeps (fun now => now.message = message) (HttpM.getline 10) := by
    refine .bind (stream _) fun _ => .bind .get fun now => .bind (byte _) fun found => .ite ?_ ?_
    · exact .bind (fun _ same => same) fun _ => .bind (byte _) fun _ => .bind (made _) fun _ => .bind (stream _) fun _ => .pure _
    · exact .bind (stream _) fun _ => .pure _
  refine .bind .get fun now => ?_
  split
  · exact .pure _
  · exact .pure _
  · exact line

/-- A line says nothing about blocks, and before a block there is no line. -/
theorem nextLine_blockFits (fits : parse.BlockFits) (read : nextLine parse = .ok (some line) middle) :
    middle.BlockFits := by
  cases expected : parse.message.blockSize with
  | some size =>
    have skips := (unpackLine_blockSize expected).1
    rw [show nextLine parse = .ok (some []) parse from nextLine_nothing skips] at read
    cases read
    exact fits
  | none =>
    have same : middle.message = parse.message := (nextLine_message parse.message).ok rfl read
    intro size wanted
    rw [same, expected] at wanted
    cases wanted

theorem unpackLine_inside (inside : parse.os.Inside) (fits : parse.BlockFits) (line : List UInt8) :
    (stateOf (unpackLine line parse)).os.Inside := by
  cases expected : parse.message.blockSize with
  | none => exact unpackLine_inside_of_none inside expected line
  | some size =>
    obtain ⟨-, store, finish, block⟩ := unpackLine_blockSize expected
    have begun : (lineBegun parse).os.Inside := Inside.begun inside
    rw [block line]
    rcases unpackBlock_cases begun rfl with ⟨takes, text, taken⟩ | ⟨-, stays⟩
    · rw [taken]
      exact blockEnd_inside begun (fits size expected ⟨takes.enough, takes.some, takes.count⟩)
    · rw [stays]
      exact begun

theorem round_inside (inside : parse.os.Inside) (fits : parse.BlockFits) (rounded : parse.round () = some after) :
    after.os.Inside := by
  obtain ⟨line, middle, read, unpacked⟩ := round_some rounded
  have here : middle.os.Inside := KeepsInside.nextLine.ok inside read
  have last := unpackLine_inside here (nextLine_blockFits fits read) line
  rwa [unpacked] at last

/-- A block that does not fit puts the cursor outside. -/
theorem blockFits_of_round (inside : parse.os.Inside)
    (every : ∀ after, parse.round () = some after → after.os.CursorInside) : parse.BlockFits := by
  intro size expected takes
  obtain ⟨skips, store, finish, block⟩ := unpackLine_blockSize expected
  have begun : (lineBegun parse).os.Inside := Inside.begun inside
  rcases unpackBlock_cases begun rfl with ⟨-, text, taken⟩ | ⟨misses, -⟩
  · have read : nextLine parse = .ok (some []) parse := nextLine_nothing skips
    have rounded := round_of_line read ((block []).trans taken)
    have fits := fits_of_blockEnd begun (every _ rounded).cursor
    exact fits
  · exact absurd ⟨takes.enough, takes.some, takes.count⟩ misses

theorem rounds_iff (inside : parse.os.Inside) (rounds : List Unit) :
    Throughout HttpParse.round (fun now => now.os.CursorInside) parse rounds ↔
      EachStep HttpParse.round (fun now _ => now.BlockFits) parse rounds :=
  throughout_iff_eachStep Inside.cursorInside round_inside blockFits_of_round inside

/-- What the loop leaves, whether it throws or not. -/
theorem unpackLines_inside {fuel : Nat} (inside : parse.os.Inside)
    (fits : EachStep HttpParse.round (fun now _ => now.BlockFits) parse (List.replicate fuel ())) :
    (stateOf (unpackLines fuel parse)).os.Inside := by
  induction fuel generalizing parse with
  | zero => exact inside
  | succ fuel ih =>
    obtain ⟨now, later⟩ := fits
    rw [unpackLines]
    cases read : nextLine parse with
    | error thrown stopped =>
      have here := KeepsInside.nextLine parse inside
      rw [run_bind_error read]
      rwa [read] at here
    | ok found middle =>
      have here : middle.os.Inside := KeepsInside.nextLine.ok inside read
      rw [run_bind read]
      cases found with
      | none => exact here
      | some line =>
        have last := unpackLine_inside here (nextLine_blockFits now read) line
        cases unpacked : unpackLine line middle with
        | error thrown stopped =>
          simp only
          rw [run_bind_error unpacked]
          rwa [unpacked] at last
        | ok value after =>
          simp only
          rw [unpacked] at last
          rw [run_bind unpacked]
          exact ih last (later after (round_of_line read unpacked))

end Loop

/-! ## A call of `decode` -/

section Calls
variable {receiving after : HttpReceiving} {action : HttpReceivingAction}

theorem unpack_eq (fuel : Nat) : unpack fuel = (do if ← unpackFirstLine then unpackLines fuel) := by
  rw [unpack, unpackFirstLine]
  simp only [bind_assoc]
  refine bind_congr fun _ => bind_congr fun parse => ?_
  split
  next =>
    simp only [bind_assoc]
    refine bind_congr fun found => ?_
    cases found with
    | none => simp
    | some line => simp
  next => simp

theorem decodeMessage_eq (session : HttpSession) (fuel : Nat) :
    decodeMessage session fuel = (do if ← enterLoop session then unpackLines fuel) := by
  rw [decodeMessage, enterLoop, unpack_eq]
  simp only
  split
  next => rw [bind_assoc]
  next => rfl

theorem httpDecode_eq (receiving : HttpReceiving) (fuel : Nat) : httpDecode fuel receiving.os receiving.session =
    if !receiving.os.dataReady 1 then
      some (none, receiving.session, receiving.os)
    else
      match decodeMessage receiving.session fuel receiving.parse with
      | .ok () parse =>
        if parse.message.parseState = .complete then
          some (some parse.message, { receiving.session with unfinishedProtocol := none }, parse.os)
        else
          some (none, { receiving.session with unfinishedProtocol := some parse.message }, parse.os)
      | .error .noFuel _ => none
      | .error _ parse =>
        match popTransaction .rollback parse.os with
        | .ok () os => some (none, ⟨receiving.session.unfinishedProtocol.map fun _ => parse.message, true⟩, os)
        | .error _ _ => none := rfl

/-- A call that returns leaves what `decode` hands back. -/
theorem decode_of_returned {fuel : Nat} {message : Option HttpMessage} {session : HttpSession} {os : Octetsstream}
    (returned : httpDecode fuel receiving.os receiving.session = some (message, session, os)) :
    receiving.decode fuel = some ⟨os, session⟩ := by
  rw [httpDecode_eq] at returned
  rw [HttpReceiving.decode]
  by_cases missing : (!receiving.os.dataReady 1) = true
  · rw [if_pos missing] at returned ⊢
    cases returned
    rfl
  · rw [if_neg missing] at returned ⊢
    revert returned
    cases decodeMessage receiving.session fuel receiving.parse with
    | ok value parse =>
      intro returned
      by_cases complete : parse.message.parseState = .complete
      · simp only [if_pos complete] at returned ⊢
        cases returned
        rfl
      · simp only [if_neg complete] at returned ⊢
        cases returned
        rfl
    | error thrown parse =>
      intro returned
      cases restored : popTransaction .rollback parse.os with
      | ok value os =>
        cases thrown <;> simp only [restored] at returned ⊢ <;> cases returned <;> rfl
      | error failure os => cases thrown <;> simp only [restored] at returned <;> cases returned

/-- What `decode` leaves, whether it returns or throws. -/
theorem decodeMessage_inside {fuel : Nat} (inside : receiving.os.Inside)
    (fits : ∀ parse, enterLoop receiving.session receiving.parse = .ok true parse →
      EachStep HttpParse.round (fun now _ => now.BlockFits) parse (List.replicate fuel ())) :
    (stateOf (decodeMessage receiving.session fuel receiving.parse)).os.Inside := by
  rw [decodeMessage_eq]
  cases entered : enterLoop receiving.session receiving.parse with
  | error thrown stopped =>
    have here := KeepsInside.enterLoop receiving.session receiving.parse inside
    rw [run_bind_error entered]
    rwa [entered] at here
  | ok enters parse =>
    have here : parse.os.Inside := (KeepsInside.enterLoop receiving.session).ok inside entered
    rw [run_bind entered]
    cases enters with
    | false => exact here
    | true => exact unpackLines_inside here (fits parse entered)

theorem step_inside (inside : receiving.os.Inside) (fits : receiving.BlocksFit action) (stepped : receiving.step action = some after) :
    after.os.Inside := by
  cases action with
  | append delivery =>
    cases stepped
    exact Inside.appended inside delivery
  | decode fuel =>
    rw [HttpReceiving.step, HttpReceiving.decode] at stepped
    split at stepped
    next =>
      cases stepped
      exact inside
    next ready =>
      have last := decodeMessage_inside inside (fits (by simpa using ready))
      split at stepped
      next parse returned =>
        rw [returned] at last
        split at stepped
        · cases stepped
          exact last
        · cases stepped
          exact last
      next => cases stepped
      next thrown parse _ failed =>
        rw [failed] at last
        cases stepped
        exact Inside.rolledBack last

theorem roundsInside_iff (inside : receiving.os.Inside) : receiving.RoundsInside action ↔ receiving.BlocksFit action := by
  cases action with
  | append delivery => exact Iff.rfl
  | decode fuel =>
    have same (parse : HttpParse) (entered : enterLoop receiving.session receiving.parse = .ok true parse) :=
      rounds_iff ((KeepsInside.enterLoop receiving.session).ok inside entered) (List.replicate fuel ())
    constructor
    · intro holds ready parse entered
      exact (same parse entered).1 (holds ready parse entered)
    · intro holds ready parse entered
      exact (same parse entered).2 (holds ready parse entered)

end Calls

/-- Between the calls and in every round of every call the cursor is inside the buffer, exactly if every
block that is taken has its line end there or brings the stream to be cut. -/
theorem cursor_inside_iff {receiving : HttpReceiving} (inside : receiving.os.Inside) (actions : List HttpReceivingAction) :
    (Throughout HttpReceiving.step (fun now => now.os.CursorInside) receiving actions ∧
      EachStep HttpReceiving.step HttpReceiving.RoundsInside receiving actions) ↔
      EachStep HttpReceiving.step HttpReceiving.BlocksFit receiving actions := by
  rw [eachStep_congr roundsInside_iff step_inside inside]
  exact and_iff_right_of_imp (throughout_of_eachStep Inside.cursorInside step_inside inside)

/-- A session whose message waits for a body of one byte, and what has come. -/
def awaitingBody (bytes : List UInt8) : HttpReceiving where
  os := ⟨⟨bytes, bytes.length⟩, 0, 0⟩
  session := ⟨some { HttpMessage.getRequest with
    parseState := .body, headers := [(asciiBytes "content-length", asciiBytes "1")] }, false⟩

/-- A body with its line end behind it. -/
theorem cursor_inside_of_line_end :
    Throughout HttpReceiving.step (fun now => now.os.CursorInside) (awaitingBody [97, 13, 10]) [.decode 1] ∧
      EachStep HttpReceiving.step HttpReceiving.RoundsInside (awaitingBody [97, 13, 10]) [.decode 1] := by
  refine (@cursor_inside_iff (awaitingBody [97, 13, 10]) ⟨Nat.le_refl _, by decide, by decide⟩ [.decode 1]).2 ⟨?_, fun _ _ => trivial⟩
  intro _ parse entered
  cases entered
  refine ⟨fun size expected _ => ?_, fun _ _ => trivial⟩
  cases expected
  exact .inl (by decide)

/-- The body has come and its line end has not. -/
theorem cursor_beyond_body :
    ((awaitingBody [97]).step (.decode 2)).map (fun after => (after.os.pos, after.os.size)) = some (3, 1) ∧
      ¬ Throughout HttpReceiving.step (fun now => now.os.CursorInside) (awaitingBody [97]) [.decode 2] := by
  have decoded : ((awaitingBody [97]).step (.decode 2)).map (fun after => (after.os.pos, after.os.size)) = some (3, 1) := by
    decide +kernel
  refine ⟨decoded, fun every => ?_⟩
  obtain ⟨after, stepped, same⟩ := Option.map_eq_some_iff.mp decoded
  obtain ⟨pos, size⟩ := Prod.mk.inj same
  have cursor := (every.2 after stepped).cursor
  omega

end Proofs
end Cassobee
