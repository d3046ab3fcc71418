import Cassobee.Proofs.HttpChunks

/-! Where the deliveries of a chunked body may end. A delivery that ends within the data of a chunk is
waited for in a loop without an end, one that ends within the line end behind it leaves the cursor beyond
the stream, and one that ends before the last line end finds the message complete. -/

namespace Cassobee
open HttpM

namespace Proofs
open Octetsstream

/-! ## Calls that do not return -/

/-- The call does not return. -/
def Fails (getline : HttpM (Option (List UInt8))) (parse : HttpParse) : Prop :=
  ∀ fuel after, unpackLinesWith getline fuel parse ≠ .ok () after

section Failures
variable {getline : HttpM (Option (List UInt8))} {parse stopped middle after : HttpParse} {line : List UInt8} {thrown : HttpThrown}

theorem fails_of_throw (failed : nextLineWith getline parse = .error thrown stopped) : Fails getline parse := by
  intro fuel after returned
  cases fuel with
  | zero => cases returned
  | succ fuel =>
    rw [unpackLines_throws fuel failed] at returned
    cases returned

theorem fails_of_line_throw (read : nextLineWith getline parse = .ok (some line) middle)
    (failed : unpackLine line middle = .error thrown stopped) : Fails getline parse := by
  intro fuel after returned
  cases fuel with
  | zero => cases returned
  | succ fuel =>
    rw [unpackLines_line_throws fuel read failed] at returned
    cases returned

theorem fails_of_spins (spins : ¬ Terminates getline parse) : Fails getline parse := by
  intro fuel after returned
  refine spins ⟨fuel, fun stopped same => ?_⟩
  rw [returned] at same
  cases same

/-- What fails after some rounds fails. -/
theorem fails_of_rounds {rounds : Nat}
    (same : ∀ fuel, unpackLinesWith getline (fuel + rounds) parse = unpackLinesWith getline fuel after) (fails : Fails getline after) :
    Fails getline parse := by
  intro fuel final returned
  have more := unpackLines_more returned rounds
  rw [same] at more
  exact fails fuel final more

end Failures

/-! ## Where a delivery can end -/

/-- The places. -/
inductive Cut (chunks : List Chunk) : List UInt8 → Prop where
  | whole : Cut chunks (encodeChunks chunks)
  | resumable {bytes : List UInt8} (resumable : Resumable chunks bytes) : Cut chunks bytes
  | inside {taken later : List Chunk} {chunk : Chunk} {part missing : List UInt8} (all : chunks = taken ++ chunk :: later)
      (cut : chunk.data ++ HttpMessage.crlf = part ++ missing) (some : missing ≠ []) :
      Cut chunks (taken.flatMap Chunk.encode ++ (chunk.size ++ HttpMessage.crlf ++ part))
  | early {part missing : List UInt8} (cut : HttpMessage.crlf = part ++ missing) (some : missing ≠ []) :
      Cut chunks (chunks.flatMap Chunk.encode ++ (asciiBytes "0" ++ HttpMessage.crlf ++ part))

theorem encodeChunks_cons (chunk : Chunk) (chunks : List Chunk) :
    encodeChunks (chunk :: chunks) = chunk.encode ++ encodeChunks chunks := by
  simpa using encodeChunks_append [chunk] chunks

theorem Cut.cons {chunks : List Chunk} {bytes : List UInt8} (cut : Cut chunks bytes) (chunk : Chunk) :
    Cut (chunk :: chunks) (chunk.encode ++ bytes) := by
  cases cut with
  | whole =>
    rw [← encodeChunks_cons]
    exact .whole
  | resumable resumable =>
    obtain ⟨taken, later, partly, rfl, rfl, clean⟩ := resumable
    exact .resumable ⟨chunk :: taken, later, partly, rfl, by simp, clean⟩
  | inside all cut some =>
    have inside := @Cut.inside (chunk :: chunks) (chunk :: _) _ _ _ _ (by rw [all]; rfl) cut some
    simpa using inside
  | early cut some =>
    have early := @Cut.early (chunk :: chunks) _ _ cut some
    simpa using early

theorem cut_of_prefix {chunks : List Chunk} (small : ∀ chunk ∈ chunks, chunk.data.length ≤ 9) {bytes rest : List UInt8}
    (whole : encodeChunks chunks = bytes ++ rest) : Cut chunks bytes := by
  induction chunks generalizing bytes rest with
  | nil =>
    have cut : (asciiBytes "0" ++ [13]) ++ (10 :: HttpMessage.crlf) = bytes ++ rest := whole
    rcases List.append_eq_append_iff.1 cut with ⟨more, rfl, later⟩ | ⟨tail, line, -⟩
    · cases more with
      | nil => exact .resumable ⟨[], [], asciiBytes "0" ++ [13], rfl, rfl, by decide⟩
      | cons byte part =>
        rw [List.cons_append, List.cons.injEq] at later
        obtain ⟨rfl, later⟩ := later
        by_cases none : rest = []
        · subst none
          rw [List.append_nil] at later
          subst later
          exact .whole
        · exact @Cut.early [] part rest later none
    · refine .resumable ⟨[], [], bytes, rfl, rfl, fun member => ?_⟩
      have ends : (10 : UInt8) ∈ asciiBytes "0" ++ [13] := by
        rw [line]
        exact List.mem_append_left _ member
      exact absurd ends (by decide)
  | cons chunk chunks ih =>
    rw [encodeChunks_cons] at whole
    rcases List.append_eq_append_iff.1 whole with ⟨more, rfl, later⟩ | ⟨missing, here, -⟩
    · exact (ih (fun other member => small other (by simp [member])) later).cons chunk
    · by_cases none : missing = []
      · subst none
        rw [List.append_nil] at here
        rw [← here]
        simpa using (ih (fun other member => small other (by simp [member])) (List.nil_append _).symm).cons chunk
      · have cut : (chunk.size ++ [13]) ++ (10 :: (chunk.data ++ HttpMessage.crlf)) = bytes ++ missing := by
          rw [← here, Chunk.encode, HttpMessage.crlf]
          simp
        rcases List.append_eq_append_iff.1 cut with ⟨more, rfl, later⟩ | ⟨tail, line, -⟩
        · cases more with
          | nil =>
            exact .resumable ⟨[], chunk :: chunks, chunk.size ++ [13], rfl, by simp, digits_clean chunk.spelled (small chunk (by simp))⟩
          | cons byte part =>
            rw [List.cons_append, List.cons.injEq] at later
            obtain ⟨rfl, later⟩ := later
            have inside := @Cut.inside (chunk :: chunks) [] chunks chunk part missing rfl later none
            simpa [HttpMessage.crlf] using inside
        · refine .resumable ⟨[], chunk :: chunks, bytes, rfl, rfl, fun member => digits_clean chunk.spelled (small chunk (by simp)) ?_⟩
          rw [line]
          exact List.mem_append_left _ member

theorem resumable_start {chunks : List Chunk} {pending : List UInt8} (partly : 10 ∉ pending) :
    Resumable chunks (pending ++ [].flatten) := ⟨[], chunks, pending, rfl, by simp, partly⟩

theorem resumes_of_whole {chunks : List Chunk} {pending delivery : List UInt8} {deliveries : List (List UInt8)} (partly : 10 ∉ pending)
    (content : pending ++ delivery = encodeChunks chunks) (nothing : deliveries.flatten = []) :
    Resumes chunks pending (delivery :: deliveries) := by
  intro delivered initial
  rcases List.prefix_cons_iff.1 initial with rfl | ⟨others, rfl, ⟨tail, split⟩⟩
  · exact .inr (resumable_start partly)
  · rw [← split, List.flatten_append] at nothing
    rw [List.flatten_cons, (List.append_eq_nil_iff.1 nothing).1, List.append_nil, content]
    exact .inl rfl

theorem Resumes.cons {taken later : List Chunk} {pending partly delivery : List UInt8} {deliveries : List (List UInt8)}
    (resumes : Resumes later partly deliveries) (clean : 10 ∉ pending)
    (content : pending ++ delivery = taken.flatMap Chunk.encode ++ partly) : Resumes (taken ++ later) pending (delivery :: deliveries) := by
  intro delivered initial
  rcases List.prefix_cons_iff.1 initial with rfl | ⟨others, rfl, within⟩
  · exact .inr (resumable_start clean)
  · rw [List.flatten_cons, ← List.append_assoc, content, List.append_assoc]
    rcases resumes others within with all | ⟨taken', later', partly', rfl, content', clean'⟩
    · rw [all, encodeChunks_append]
      exact .inl rfl
    · refine .inr ⟨taken ++ taken', later', partly', by simp, ?_, clean'⟩
      rw [content', List.flatMap_append, List.append_assoc]

section Cuts
variable {getline : HttpM (Option (List UInt8))} {parse after : HttpParse} {room : Nat} {body rest : List UInt8} {chunk : Chunk}

/-- A chunk whose first byte is no count. -/
theorem negative_fails (state : parse.message.parseState = .chunkedData) (size : parse.message.chunkSize = chunk.data.length)
    (stored : Stored parse) (inside : parse.os.pos ≤ parse.os.size) (left : parse.os.unread = chunk.data ++ rest)
    (negative : 128 ≤ chunk.data.headD 0) : Fails getline parse := by
  have first : parse.os.unread.headD 0 = chunk.data.headD 0 := by
    obtain ⟨byte, tail, data⟩ := List.exists_cons_of_ne_nil chunk.nonempty
    rw [left, data]
    rfl
  have enough : chunk.data.length ≤ parse.os.unread.length := by
    rw [left, List.length_append]
    exact Nat.le_add_right ..
  have begun : Stored (lineBegun parse) := ⟨stored.valid, stored.bound⟩
  obtain ⟨thrown, failed, -⟩ := unpackBlock_throws begun rfl (.inr ⟨enough, inside, .inr (by rw [← first] at negative; exact negative)⟩)
  have data := @unpackChunkedData_block parse
  rw [size, failed] at data
  exact fails_of_line_throw (nextLine_nothing (by rw [state]; rfl)) ((unpackLine_chunkedData state).trans data)

theorem chunk_fails (splits : SplitsLines getline) (small : chunk.data.length ≤ 9) (negative : 128 ≤ chunk.data.headD 0)
    (ready : Ready room body (chunk.encode ++ rest) parse) : Fails getline parse := by
  have lined : Ready room body (chunk.size ++ HttpMessage.crlf ++ (chunk.data ++ (HttpMessage.crlf ++ rest))) parse := by
    refine { ready with unread := ?_ }
    rw [ready.unread, Chunk.encode]
    simp only [List.append_assoc]
  obtain ⟨middle, first, state, size, -, valid, inside, fits, left⟩ := chunk_sized splits small lined
  exact fails_of_rounds first (negative_fails state size ⟨valid, Nat.le_of_add_right_le fits⟩ inside left negative)

/-- Chunks of one digit are taken, or the call fails. -/
theorem taken_or_fails (splits : SplitsLines getline) {taken : List Chunk} (small : ∀ chunk ∈ taken, chunk.data.length ≤ 9)
    (ready : Ready room body (taken.flatMap Chunk.encode ++ rest) parse) :
    (∀ chunk ∈ taken, Short chunk) ∨ Fails getline parse := by
  induction taken generalizing parse body with
  | nil => exact .inl (by simp)
  | cons chunk taken ih =>
    rw [List.flatMap_cons, List.append_assoc] at ready
    by_cases negative : 128 ≤ chunk.data.headD 0
    · exact .inr (chunk_fails splits (small chunk (by simp)) negative ready)
    · have short : Short chunk := ⟨small chunk (by simp), negative⟩
      obtain ⟨middle, first, next⟩ := chunk_taken splits short ready
      rcases ih (fun other member => small other (by simp [member])) next with later | fails
      · refine .inl fun other member => ?_
        rcases List.mem_cons.1 member with rfl | member
        · exact short
        · exact later other member
      · exact .inr (fails_of_rounds first fails)

/-- `getline` at a cursor beyond the end: it cannot go back to it. -/
def ThrowsBeyond (getline : HttpM (Option (List UInt8))) : Prop :=
  ∀ parse : HttpParse, parse.os.size < parse.os.pos → ∃ thrown stopped, getline parse = .error thrown stopped

theorem beyond_fails (beyond : ThrowsBeyond getline) (reads : readsLine parse.message.parseState = true)
    (outside : parse.os.size < parse.os.pos) : Fails getline parse := by
  obtain ⟨thrown, stopped, failed⟩ := beyond parse outside
  exact fails_of_throw ((nextLine_getline reads).trans failed)

/-- Room for so many bytes keeps the stream below the size at which it is shrunk. -/
def slack : Nat := 2 ^ 63 - 0x100000 + 2

/-- The line end behind a chunk is skipped before it is there. -/
theorem skipped_fails (beyond : ThrowsBeyond getline) (state : parse.message.parseState = .chunkedData)
    (size : parse.message.chunkSize = chunk.data.length) (valid : parse.os.data.Valid) (inside : parse.os.pos ≤ parse.os.size)
    (fits : parse.os.size + (room + slack) ≤ 2 ^ 63) {more : List UInt8} (content : parse.os.unread = chunk.data ++ more)
    (short : more.length < 2) : Fails getline parse := by
  have stored : Stored parse := ⟨valid, Nat.le_of_add_right_le fits⟩
  by_cases negative : 128 ≤ chunk.data.headD 0
  · exact negative_fails state size stored inside content negative
  · obtain ⟨byte, tail, data⟩ := List.exists_cons_of_ne_nil chunk.nonempty
    have total := unread_length valid
    rw [content, List.length_append] at total
    have content' : (lineBegun parse).os.unread = byte :: (tail ++ more) := by
      rw [lineBegun_unread, content, data]
      rfl
    have positive : ¬ 128 ≤ byte := by
      rw [data] at negative
      exact negative
    have enough : chunk.data.length ≤ (lineBegun parse).os.unread.length := by
      rw [lineBegun_unread, content, List.length_append]
      exact Nat.le_add_right ..
    have begun : Stored (lineBegun parse) := ⟨stored.valid, stored.bound⟩
    have kept : (blockEnd (lineBegun parse).os chunk.data.length).tryShrink = blockEnd (lineBegun parse).os chunk.data.length := by
      apply if_neg
      simp only [blockEnd, lineBegun, slack] at fits ⊢
      omega
    have taken := @unpackChunkedData_block parse
    rw [size, unpackBlock_taken begun inside content' positive enough, kept, ← unpackLine_chunkedData state] at taken
    refine fails_of_rounds (fun fuel => unpackLines_line fuel (nextLine_nothing (by rw [state]; rfl)) taken) ?_
    apply beyond_fails beyond rfl
    simp only [blockEnd, lineBegun, Octetsstream.size] at total ⊢
    omega

/-- A delivery that ends within a chunk. -/
theorem inside_fails (splits : SplitsLines getline) (beyond : ThrowsBeyond getline) (small : chunk.data.length ≤ 9)
    {part missing : List UInt8} (cut : chunk.data ++ HttpMessage.crlf = part ++ missing) (some : missing ≠ [])
    (ready : Ready (room + slack) body (chunk.size ++ HttpMessage.crlf ++ part) parse) : Fails getline parse := by
  obtain ⟨middle, first, state, size, -, valid, inside, fits, left⟩ := chunk_sized splits small ready
  apply fails_of_rounds first
  rcases List.append_eq_append_iff.1 cut with ⟨more, rfl, later⟩ | ⟨lost, data, later⟩
  · apply skipped_fails beyond state size valid inside fits left
    have lengths := congrArg List.length later
    rw [List.length_append, show HttpMessage.crlf.length = 2 from rfl] at lengths
    have := List.length_pos_iff.2 some
    omega
  · by_cases none : lost = []
    · subst none
      rw [List.append_nil] at data
      have content : middle.os.unread = chunk.data ++ [] := by rw [left, data, List.append_nil]
      exact skipped_fails beyond state size valid inside fits content (by simp)
    · -- the data is waited for
      apply fails_of_spins
      refine spins_waiting ⟨valid, Nat.le_of_add_right_le fits⟩ (by rw [state]; rfl) (fun other same => chunk_block state same) inside ?_
      have := List.length_pos_iff.2 none
      rw [size, left, data, List.length_append]
      omega

/-- A line end that is not all there is no line. -/
theorem crlf_part_clean {part missing : List UInt8} (cut : HttpMessage.crlf = part ++ missing) (some : missing ≠ []) : 10 ∉ part := by
  intro member
  obtain ⟨before, behind, rfl⟩ := List.append_of_mem member
  have lengths := congrArg List.length cut
  have first := congrArg List.head? cut
  cases before with
  | nil => exact absurd first (by simp [HttpMessage.crlf])
  | cons byte before =>
    simp only [HttpMessage.crlf, List.length_append, List.length_cons, List.length_nil] at lengths
    have := List.length_pos_iff.2 some
    omega

/-- The last chunk without the line behind it. -/
theorem early_complete (splits : SplitsLines getline) {part : List UInt8} (partly : 10 ∉ part)
    (ready : Ready room body (asciiBytes "0" ++ HttpMessage.crlf ++ part) parse) :
    ∃ after, (∀ fuel, unpackLinesWith getline (fuel + 2) parse = .ok () after) ∧ after.message.parseState = .complete ∧
      after.os.data.Valid ∧ after.os.pos ≤ after.os.size ∧ after.os.size + room ≤ 2 ^ 63 ∧ after.os.unread = part := by
  obtain ⟨middle, first, state, -, valid, inside, fits, left⟩ := last_size_line splits ready
  obtain ⟨os, none, valid', inside', less, left'⟩ := splits.nothing middle valid (Nat.le_of_add_right_le fits) inside
    (by rw [left]; exact partly)
  refine ⟨{ middle with os }, fun fuel => ?_, state, valid', inside', Nat.le_trans (Nat.add_le_add_right less room) fits,
    left'.trans left⟩
  rw [first]
  exact unpackLines_nothing fuel ((nextLine_getline (by rw [state]; rfl)).trans none)

/-- What comes in for a message that is complete stays unread. -/
theorem deliveries_left {fuel : Nat} {deliveries : List (List UInt8)} (state : parse.message.parseState = .complete)
    (valid : parse.os.data.Valid) (inside : parse.os.pos ≤ parse.os.size) (fits : parse.os.size + deliveries.flatten.length ≤ 2 ^ 63)
    (returned : unpackDeliveries getline fuel deliveries parse = .ok () after) :
    after.os.data.Valid ∧ after.os.unread = parse.os.unread ++ deliveries.flatten := by
  induction deliveries generalizing parse with
  | nil =>
    cases returned
    exact ⟨valid, (List.append_nil _).symm⟩
  | cons delivery deliveries ih =>
    rw [List.flatten_cons, List.length_append] at fits
    obtain ⟨data, appended, valid', content⟩ := appendData_appends delivery parse.os valid (by omega)
    have size := appended_size valid valid' content
    have called : ofStream (appendData delivery) parse = .ok () { parse with os := { parse.os with data } } := by
      rw [ofStream, appended]
    rw [unpackDeliveries_complete called state] at returned
    obtain ⟨still, left⟩ := @ih { parse with os := { parse.os with data } } state valid' (by
      simp only [Octetsstream.size] at size inside ⊢
      omega) (by
      simp only [Octetsstream.size] at size fits ⊢
      omega) returned
    refine ⟨still, ?_⟩
    rw [left, append_unread content valid inside, List.flatten_cons, List.append_assoc]

/-- One delivery of a run that returns. -/
theorem delivery_returned {fuel : Nat} {delivery pending : List UInt8} {deliveries : List (List UInt8)}
    (ready : Ready (delivery.length + room) body pending parse)
    (returned : unpackDeliveries getline fuel (delivery :: deliveries) parse = .ok () after) :
    ∃ middle next, Ready room body (pending ++ delivery) middle ∧ unpackLinesWith getline fuel middle = .ok () next ∧
      unpackDeliveries getline fuel deliveries next = .ok () after := by
  obtain ⟨middle, appended, again⟩ := delivery_appended ready
  obtain ⟨middle', next, appended', cases, rest⟩ := unpackDeliveries_returned returned
  obtain rfl : middle = middle' := (EStateM.Result.ok.inj (appended.symm.trans appended')).2
  obtain ⟨complete, -⟩ | ⟨-, unpacked⟩ := cases
  · rw [again.state] at complete
    cases complete
  · exact ⟨middle, next, again, unpacked, rest⟩

/-- What one call leaves is told by enough fuel. -/
theorem next_eq {fuel rounds : Nat} {next next' : HttpParse} (returned : unpackLinesWith getline fuel parse = .ok () next)
    (known : ∀ fuel, unpackLinesWith getline (fuel + rounds) parse = .ok () next') : next = next' := by
  have more := unpackLines_more returned rounds
  rw [known] at more
  cases more
  rfl

/-- Deliveries that end elsewhere are not decoded, nor are chunks whose first byte is no count. -/
theorem deliveries_only (splits : SplitsLines getline) (beyond : ThrowsBeyond getline) {chunks : List Chunk}
    (small : ∀ chunk ∈ chunks, chunk.data.length ≤ 9) {pending : List UInt8} {deliveries : List (List UInt8)}
    (ready : Ready (deliveries.flatten.length + slack) body pending parse) (partly : 10 ∉ pending)
    (whole : pending ++ deliveries.flatten = encodeChunks chunks) {fuel : Nat}
    (returned : unpackDeliveries getline fuel deliveries parse = .ok () after) (finished : after.os.pos = after.os.size) :
    Resumes chunks pending deliveries ∧ ∀ chunk ∈ chunks, Short chunk := by
  induction deliveries generalizing parse body pending chunks with
  | nil =>
    rw [List.flatten_nil, List.append_nil] at whole
    exact absurd (by rw [whole]; exact mem_encodeChunks chunks) partly
  | cons delivery deliveries ih =>
    rw [List.flatten_cons, List.length_append, Nat.add_assoc] at ready
    rw [List.flatten_cons, ← List.append_assoc] at whole
    obtain ⟨middle, next, again, unpacked, rest⟩ := delivery_returned ready returned
    generalize here : pending ++ delivery = bytes at again whole
    have short {taken : List Chunk} {rest : List UInt8} (among : ∀ chunk ∈ taken, chunk ∈ chunks)
        (content : bytes = taken.flatMap Chunk.encode ++ rest) : ∀ chunk ∈ taken, Short chunk := by
      rw [content] at again
      exact (taken_or_fails splits (fun chunk member => small chunk (among chunk member)) again).resolve_right
        fun fails => fails fuel next unpacked
    have cut := cut_of_prefix small whole.symm
    cases cut with
    | whole =>
      have nothing : deliveries.flatten = [] := List.append_right_eq_self.1 whole
      exact ⟨resumes_of_whole partly here nothing,
        short (fun _ member => member) (by rw [encodeChunks, List.append_assoc, List.append_assoc])⟩
    | resumable resumable =>
      obtain ⟨taken, later, partly', rfl, rfl, clean⟩ := resumable
      have first := short (fun chunk member => List.mem_append_left _ member) rfl
      obtain ⟨between, called, waiting⟩ := chunks_taken splits first again
      obtain ⟨next', awaited, ready'⟩ := line_awaited splits waiting clean
      have same : next = next' := @next_eq _ _ _ (1 + 2 * taken.length) _ _ unpacked fun fuel => by
        rw [← Nat.add_assoc, called, awaited]
      subst same
      rw [List.append_assoc, encodeChunks_append] at whole
      obtain ⟨resumes, last⟩ := ih (fun chunk member => small chunk (List.mem_append_right _ member)) ready' clean
        (List.append_cancel_left whole) rest
      exact ⟨resumes.cons partly here, fun chunk member => (List.mem_append.1 member).elim (first chunk) (last chunk)⟩
    | @inside taken later chunk part missing all cut some =>
      have first := @short taken _ (fun chunk member => by rw [all]; exact List.mem_append_left _ member) rfl
      obtain ⟨between, called, cutting⟩ := chunks_taken splits first again
      have fails := inside_fails splits beyond (small chunk (by rw [all]; simp)) cut some cutting
      exact absurd unpacked (fails_of_rounds called fails fuel next)
    | @early part missing cut some =>
      have first := short (fun _ member => member) rfl
      obtain ⟨between, called, ending⟩ := chunks_taken splits first again
      obtain ⟨next', completed, state, valid, inside, fits, left⟩ := early_complete splits (crlf_part_clean cut some) ending
      have same : next = next' := @next_eq _ _ _ (2 + 2 * chunks.length) _ _ unpacked fun fuel => by
        rw [← Nat.add_assoc, called, completed]
      subst same
      obtain ⟨still, unread⟩ := deliveries_left state valid inside (by omega) rest
      have left_over : part ++ deliveries.flatten = HttpMessage.crlf := by
        rw [encodeChunks] at whole
        simp only [List.append_assoc] at whole
        exact List.append_cancel_left (List.append_cancel_left (List.append_cancel_left whole))
      rw [unread_nil still finished, left, left_over] at unread
      cases unread

end Cuts

section Decoding
variable {getline : HttpM (Option (List UInt8))} {parse : HttpParse} {deliveries : List (List UInt8)}

/-- A body in chunked coding comes through if each of its chunks would be made of its size anyway and no
delivery ends within a chunk. Where the sizes have one digit this is the only way, for a `getline` that
throws beyond the end and a stream that is too short to be shrunk. -/
theorem chunked_decoding (splits : SplitsLines getline) (valid : parse.os.data.Valid)
    (state : parse.message.parseState = .chunkedSize) (consumed : parse.os.pos = parse.os.size) {chunks : List Chunk}
    (delivered : deliveries.flatten = encodeChunks chunks) (room : parse.os.size + deliveries.flatten.length ≤ 2 ^ 63) :
    ((∀ chunk ∈ chunks, Plain chunk) ∧ Resumes chunks [] deliveries → Decodes getline parse chunks deliveries) ∧
      (ThrowsBeyond getline → parse.os.size + deliveries.flatten.length + 2 ≤ 0x100000 → (∀ chunk ∈ chunks, chunk.data.length ≤ 9) →
        Decodes getline parse chunks deliveries → (∀ chunk ∈ chunks, Plain chunk) ∧ Resumes chunks [] deliveries) := by
  constructor
  · rintro ⟨plain, resumes⟩
    exact (short_decodes_iff splits valid state consumed delivered room (fun chunk member => (plain chunk member).short) resumes).2 plain
  · intro beyond low small decodes
    obtain ⟨fuel, after, unpacked, -, -, finished⟩ := id decodes
    have ready : Ready (deliveries.flatten.length + slack) parse.message.body [] parse := by
      refine ⟨valid, Nat.le_of_eq consumed, ?_, state, rfl, unread_nil valid consumed⟩
      simp only [slack]
      omega
    obtain ⟨resumes, short⟩ := deliveries_only splits beyond small ready (by simp) delivered unpacked finished
    exact ⟨(short_decodes_iff splits valid state consumed delivered room short resumes).1 decodes, resumes⟩

end Decoding

/-! ## Two bodies -/

theorem splitLine_splits : SplitsLines splitLine where
  line := by
    intro parse line rest valid bound inside content clean
    have cut : ((lineBegun parse).os.unread.takeWhile fun byte => byte ≠ 10) = line := by
      rw [lineBegun_unread parse, content, takeWhile_of_split clean]
    have shorter : line.length < (lineBegun parse).os.unread.length := by
      rw [lineBegun_unread parse, content, List.length_append, List.length_cons]
      omega
    have behind : parse.os.unread = (line ++ [10]) ++ rest := by
      rw [content]
      simp
    have within := pos_behind valid inside behind
    have left := unread_behind behind parse.os.pos
    rw [List.length_append, List.length_singleton] at within left
    have moved : advance (line.length + 1) (lineBegun parse) =
        .ok () { parse with os := ⟨parse.os.data, parse.os.pos + (line.length + 1), parse.os.pos⟩ } := by
      have nowrap : (parse.os.pos + (line.length + 1)) % wordSize = parse.os.pos + (line.length + 1) :=
        Nat.mod_eq_of_lt (by simp only [wordSize]; omega)
      simp only [advance, lineBegun, nowrap]
    obtain ⟨still, within, same, less, -⟩ :=
      tryShrink_spec (show Octets.Valid (Octetsstream.mk parse.os.data (parse.os.pos + (line.length + 1)) parse.os.pos).data from valid)
        within
    refine ⟨_, ?_, still, within, less, same.trans left⟩
    rw [splitLine, run_bind (begin_run parse),
      run_bind (get_run (lineBegun parse)), cut,
      if_pos shorter, run_bind moved]
    rfl
  nothing := by
    intro parse valid bound inside absent
    have cut : ((lineBegun parse).os.unread.takeWhile fun byte => byte ≠ 10) = (lineBegun parse).os.unread :=
      takeWhile_of_not_mem absent
    have back : ofStream (popTransaction .rollback) (lineBegun parse) = .ok () (lineBegun parse) := by
      have restored := rollback_eq (lineBegun parse).os
      rw [if_neg (show ¬ (lineBegun parse).os.transpos > (lineBegun parse).os.size from Nat.not_lt_of_le inside)] at restored
      rw [ofStream, restored]
      rfl
    refine ⟨(lineBegun parse).os, ?_, valid, inside, Nat.le_refl _, rfl⟩
    rw [splitLine, run_bind (begin_run parse),
      run_bind (get_run (lineBegun parse)), cut,
      if_neg (Nat.lt_irrefl _), run_bind back]
    rfl

theorem splitLine_throwsBeyond : ThrowsBeyond splitLine := by
  intro parse outside
  have nothing : (lineBegun parse).os.unread = [] := List.drop_eq_nil_of_le (Nat.le_trans (List.length_take_le ..) (Nat.le_of_lt outside))
  have thrown : ofStream (popTransaction .rollback) (lineBegun parse) =
      .error (.stream (.exception "invalid transaction rollback position")) (lineBegun parse) := by
    have failed := rollback_eq (lineBegun parse).os
    rw [if_pos (show (lineBegun parse).os.transpos > (lineBegun parse).os.size from outside)] at failed
    rw [ofStream, failed]
  refine ⟨.stream (.exception "invalid transaction rollback position"), lineBegun parse, ?_⟩
  rw [splitLine, run_bind (begin_run parse), run_bind (get_run (lineBegun parse)), nothing]
  exact run_bind_error thrown

/-- A message whose headers have asked for chunks. -/
def chunksAwaited : HttpParse where
  os := ⟨⟨[], 0⟩, 0, 0⟩
  message := { HttpMessage.getRequest with parseState := .chunkedSize, isChunked := true }

theorem chunksAwaited_valid : chunksAwaited.os.data.Valid := Nat.le_refl 0

/-- A body that comes in one piece. -/
theorem resumes_whole (chunks : List Chunk) : Resumes chunks [] [encodeChunks chunks] :=
  resumes_of_whole (by simp) rfl rfl

def abc : Chunk := ⟨asciiBytes "3", asciiBytes "abc", by decide, by decide, by decide⟩

/-- Three letters become 97 copies of the character 3. -/
theorem abc_not_decoded : SplitsLines splitLine ∧ chunksAwaited.message.parseState = .chunkedSize ∧
    chunksAwaited.os.pos = chunksAwaited.os.size ∧ ¬ Decodes splitLine chunksAwaited [abc] [encodeChunks [abc]] := by
  refine ⟨splitLine_splits, rfl, rfl, fun decodes => ?_⟩
  have short : ∀ chunk ∈ [abc], Short chunk := by
    intro chunk member
    rw [List.mem_singleton.1 member]
    exact ⟨by decide, by decide⟩
  have plain := (short_decodes_iff splitLine_splits chunksAwaited_valid rfl rfl (by simp) (by decide) short (resumes_whole _)).1 decodes abc
    (by simp)
  exact absurd plain.2 (by decide)

/-- Two characters 2. -/
def twos : Chunk := ⟨asciiBytes "02", [2, 2], by decide, by decide, by decide⟩

theorem chunked_decoding_of_twos : ThrowsBeyond splitLine ∧ Decodes splitLine chunksAwaited [twos] [encodeChunks [twos]] := by
  have decoding := @chunked_decoding splitLine chunksAwaited [encodeChunks [twos]] splitLine_splits chunksAwaited_valid rfl rfl [twos]
    (by simp) (by decide)
  refine ⟨splitLine_throwsBeyond, decoding.1 ⟨?_, resumes_whole _⟩⟩
  intro chunk member
  rw [List.mem_singleton.1 member]
  exact ⟨by decide, by decide⟩

end Proofs
end Cassobee
