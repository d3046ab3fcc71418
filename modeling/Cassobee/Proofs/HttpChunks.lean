import Cassobee.HttpChunks
import Cassobee.Proofs.HttpTermination
import Cassobee.Proofs.Text

/-! What `httpprotocol::unpack` makes of a body in chunked coding when its lines are split correctly. The
sizes are read as decimal numbers, a chunk is replaced by as many copies of its size as its first byte
says, and a chunk that is not all there is tried again for ever: a body comes through when none of this
makes a difference. -/

namespace Cassobee
open HttpM

namespace Proofs
open Octetsstream

/-! ## Sizes -/

theorem hexDigit_decimal {byte : UInt8} {digit : Nat} (read : hexDigit byte = some digit) (small : digit ≤ 9) :
    (48 ≤ byte ∧ byte ≤ 57) ∧ digit = byte.toNat - 48 := by
  unfold hexDigit at read
  split at read
  next decimal => exact ⟨decimal, (Option.some.inj read).symm⟩
  next =>
    split at read
    next upper =>
      have value := Option.some.inj read
      have := UInt8.le_iff_toNat_le.1 upper.1
      simp at this
      omega
    next =>
      split at read
      next lower =>
        have value := Option.some.inj read
        have := UInt8.le_iff_toNat_le.1 lower.1
        simp at this
        omega
      next => cases read

theorem hexDigits_ge {value size : Nat} {text : List UInt8} (read : hexDigits value text = some size) : value ≤ size := by
  induction text generalizing value with
  | nil => exact Nat.le_of_eq (Option.some.inj read)
  | cons byte text ih =>
    obtain ⟨digit, -, later⟩ := Option.bind_eq_some_iff.1 read
    have := ih later
    omega

/-- A size below ten is the same in both bases. -/
theorem hexDigits_decimal {value size : Nat} {text : List UInt8} (read : hexDigits value text = some size) (small : size ≤ 9) :
    text.foldl (fun n digit => 10 * n + (digit.toNat - 48)) value = size ∧ ∀ byte ∈ text, 48 ≤ byte ∧ byte ≤ 57 := by
  induction text generalizing value with
  | nil => exact ⟨Option.some.inj read, by simp⟩
  | cons byte text ih =>
    obtain ⟨digit, found, later⟩ := Option.bind_eq_some_iff.1 read
    have bound := hexDigits_ge later
    obtain ⟨decimal, same⟩ := hexDigit_decimal found (by omega)
    obtain rfl : value = 0 := by omega
    obtain ⟨fold, digits⟩ := ih later
    refine ⟨?_, ?_⟩
    · rw [List.foldl_cons, ← fold, same]
    · intro other member
      rcases List.mem_cons.1 member with rfl | member
      · exact decimal
      · exact digits other member

/-- A size line has no delimiter in it. -/
theorem digits_clean {text : List UInt8} {size : Nat} (read : hexDigits 0 text = some size) (small : size ≤ 9) :
    (10 : UInt8) ∉ text ++ [13] := by
  intro member
  rcases List.mem_append.1 member with digit | last
  · exact (digit_plain ((hexDigits_decimal read small).2 10 digit)).2.1 rfl
  · cases List.mem_singleton.1 last

theorem stoul_digits {text : List UInt8} {size : Nat} (written : text ≠ []) (read : hexDigits 0 text = some size)
    (small : size ≤ 9) : stoul (text ++ [13]) = .ok size := by
  obtain ⟨fold, digits⟩ := hexDigits_decimal read small
  have scanned : scanNumber (text ++ [13]) = some (false, size) := by
    rw [scanNumber_digits written digits (by simp [Digit])]
    exact congrArg (fun value => some (false, value)) fold
  rw [stoul, scanned]
  have fits : ¬ size ≥ wordSize := by
    simp only [wordSize]
    omega
  simp only [fits, if_false, Bool.false_eq_true]

/-! ## One call -/

/-- What a chunk becomes: its size as a character, as often as its first byte says. -/
def made (chunk : Chunk) : List UInt8 :=
  List.replicate (chunk.data.headD 0).toNat (UInt8.ofNat chunk.data.length)

/-- The size is below ten, and the first byte is a count. -/
def Short (chunk : Chunk) : Prop := chunk.data.length ≤ 9 ∧ ¬ 128 ≤ chunk.data.headD 0

/-- The next line is that of a size, behind these bytes of the body and before those of the stream. -/
structure Ready (room : Nat) (body bytes : List UInt8) (parse : HttpParse) : Prop where
  valid : parse.os.data.Valid
  inside : parse.os.pos ≤ parse.os.size
  room : parse.os.size + room ≤ 2 ^ 63
  state : parse.message.parseState = .chunkedSize
  body : parse.message.body = body
  unread : parse.os.unread = bytes

section Calls
variable {getline : HttpM (Option (List UInt8))} {parse : HttpParse} {room : Nat} {body rest : List UInt8}

theorem size_line {text : List UInt8} {size : Nat} (splits : SplitsLines getline) (written : text ≠ [])
    (read : hexDigits 0 text = some size) (small : size ≤ 9) (ready : Ready room body (text ++ HttpMessage.crlf ++ rest) parse) :
    ∃ after, (∀ fuel, unpackLinesWith getline (fuel + 1) parse = unpackLinesWith getline fuel after) ∧
      after.message = sized parse.message size ∧ after.os.data.Valid ∧ after.os.pos ≤ after.os.size ∧
        after.os.size + room ≤ 2 ^ 63 ∧ after.os.unread = rest := by
  have content : parse.os.unread = (text ++ [13]) ++ 10 :: rest := by
    rw [ready.unread, HttpMessage.crlf]
    simp
  obtain ⟨os, line, valid, inside, less, left⟩ :=
    splits.line parse _ _ ready.valid (Nat.le_of_add_right_le ready.room) ready.inside content (digits_clean read small)
  have next : nextLineWith getline parse = .ok (some (text ++ [13])) { parse with os } :=
    (nextLine_getline (by rw [ready.state]; rfl)).trans line
  refine ⟨_, fun fuel => unpackLines_line fuel next (unpackLine_size ready.state (stoul_digits written read small)), rfl, valid,
    inside, ?_, left⟩
  exact Nat.le_trans (Nat.add_le_add_right less room) ready.room

/-- The state behind the size line of a chunk. -/
theorem chunk_sized (splits : SplitsLines getline) {chunk : Chunk} (small : chunk.data.length ≤ 9)
    (ready : Ready room body (chunk.size ++ HttpMessage.crlf ++ rest) parse) :
    ∃ after, (∀ fuel, unpackLinesWith getline (fuel + 1) parse = unpackLinesWith getline fuel after) ∧
      after.message.parseState = .chunkedData ∧ after.message.chunkSize = chunk.data.length ∧ after.message.body = body ∧
        after.os.data.Valid ∧ after.os.pos ≤ after.os.size ∧ after.os.size + room ≤ 2 ^ 63 ∧ after.os.unread = rest := by
  obtain ⟨after, first, message, valid, inside, fits, left⟩ := size_line splits chunk.written chunk.spelled small ready
  refine ⟨after, first, ?_, ?_, ?_, valid, inside, fits, left⟩
  · rw [message]
    exact if_neg (Nat.ne_of_gt (List.length_pos_iff.2 chunk.nonempty))
  · rw [message]
    rfl
  · rw [message, ← ready.body]
    rfl

/-- A chunk that is all there, with the line end behind it. -/
theorem data_taken {chunk : Chunk} (short : Short chunk) (state : parse.message.parseState = .chunkedData)
    (size : parse.message.chunkSize = chunk.data.length) (valid : parse.os.data.Valid) (inside : parse.os.pos ≤ parse.os.size)
    (fits : parse.os.size + room ≤ 2 ^ 63) (left : parse.os.unread = chunk.data ++ HttpMessage.crlf ++ rest) :
    ∃ after, unpackLine [] parse = .ok () after ∧ Ready room (parse.message.body ++ made chunk) rest after := by
  obtain ⟨byte, tail, data⟩ := List.exists_cons_of_ne_nil chunk.nonempty
  have first : chunk.data.headD 0 = byte := by
    rw [data]
    rfl
  have length : parse.os.unread.length = chunk.data.length + (2 + rest.length) := by
    rw [left]
    simp [HttpMessage.crlf]
    omega
  have begun : Stored (lineBegun parse) := ⟨valid, Nat.le_of_add_right_le fits⟩
  have content : (lineBegun parse).os.unread = byte :: (tail ++ HttpMessage.crlf ++ rest) := by
    rw [lineBegun_unread parse, left, data]
    simp
  have enough : chunk.data.length ≤ (lineBegun parse).os.unread.length := by
    rw [lineBegun_unread parse, length]
    exact Nat.le_add_right ..
  have within : (blockEnd (lineBegun parse).os chunk.data.length).pos ≤ (blockEnd (lineBegun parse).os chunk.data.length).size := by
    have total := unread_length valid
    simp only [blockEnd, lineBegun, Octetsstream.size] at total inside ⊢
    omega
  obtain ⟨-, behind⟩ := blockEnd_spec begun chunk.data.length parse.message
  obtain ⟨still, within, -, less, -⟩ :=
    tryShrink_spec (show (blockEnd (lineBegun parse).os chunk.data.length).data.Valid from valid) within
  refine ⟨⟨(blockEnd (lineBegun parse).os chunk.data.length).tryShrink, { parse.message with
      body := parse.message.body ++ made chunk, chunkSize := 0, parseState := .chunkedSize }⟩, ?_, still, within,
    Nat.le_trans (Nat.add_le_add_right less room) fits, rfl, rfl, ?_⟩
  · rw [unpackLine_chunkedData state, unpackChunkedData_block, size,
      unpackBlock_taken begun inside content (by rw [← first]; exact short.2) enough, made, first]
    rfl
  · rw [behind, lineBegun_unread parse, left]
    simp [HttpMessage.crlf]

theorem chunk_taken (splits : SplitsLines getline) {chunk : Chunk} (short : Short chunk)
    (ready : Ready room body (chunk.encode ++ rest) parse) :
    ∃ after, (∀ fuel, unpackLinesWith getline (fuel + 2) parse = unpackLinesWith getline fuel after) ∧
      Ready room (body ++ made chunk) rest after := by
  have lined : Ready room body (chunk.size ++ HttpMessage.crlf ++ (chunk.data ++ HttpMessage.crlf ++ rest)) parse := by
    refine { ready with unread := ?_ }
    rw [ready.unread, Chunk.encode]
    simp only [List.append_assoc]
  obtain ⟨middle, first, state, size, before, valid, inside, fits, left⟩ := chunk_sized splits short.1 lined
  obtain ⟨after, taken, next⟩ := data_taken short state size valid inside fits left
  rw [before] at next
  exact ⟨after, fun fuel => (first (fuel + 1)).trans (unpackLines_line fuel (nextLine_nothing (by rw [state]; rfl)) taken), next⟩

theorem chunks_taken (splits : SplitsLines getline) {chunks : List Chunk} (short : ∀ chunk ∈ chunks, Short chunk)
    (ready : Ready room body (chunks.flatMap Chunk.encode ++ rest) parse) :
    ∃ after, (∀ fuel, unpackLinesWith getline (fuel + 2 * chunks.length) parse = unpackLinesWith getline fuel after) ∧
      Ready room (body ++ chunks.flatMap made) rest after := by
  induction chunks generalizing parse body with
  | nil => exact ⟨parse, fun fuel => rfl, by simpa using ready⟩
  | cons chunk chunks ih =>
    rw [List.flatMap_cons, List.append_assoc] at ready
    obtain ⟨middle, first, next⟩ := chunk_taken splits (short chunk (by simp)) ready
    obtain ⟨after, later, final⟩ := ih (fun other member => short other (by simp [member])) next
    refine ⟨after, fun fuel => ?_, by simpa using final⟩
    rw [List.length_cons, Nat.mul_succ, ← Nat.add_assoc, first, later]

/-- A size line that is not all there. -/
theorem line_awaited (splits : SplitsLines getline) (ready : Ready room body rest parse) (partly : 10 ∉ rest) :
    ∃ after, (∀ fuel, unpackLinesWith getline (fuel + 1) parse = .ok () after) ∧ Ready room body rest after := by
  obtain ⟨os, none, valid, inside, less, same⟩ := splits.nothing parse ready.valid (Nat.le_of_add_right_le ready.room) ready.inside
    (by rw [ready.unread]; exact partly)
  have reads : readsLine parse.message.parseState = true := by rw [ready.state]; rfl
  exact ⟨{ parse with os }, fun fuel => unpackLines_nothing fuel ((nextLine_getline reads).trans none), valid, inside,
    Nat.le_trans (Nat.add_le_add_right less room) ready.room, ready.state, ready.body, same.trans ready.unread⟩

/-- The message is complete, and all of the stream is read. -/
structure Decoded (room : Nat) (body : List UInt8) (parse : HttpParse) : Prop where
  valid : parse.os.data.Valid
  room : parse.os.size + room ≤ 2 ^ 63
  state : parse.message.parseState = .complete
  body : parse.message.body = body
  finished : parse.os.pos = parse.os.size

/-- The size of the last chunk ends the message. -/
theorem last_size_line (splits : SplitsLines getline)
    (ready : Ready room body (asciiBytes "0" ++ HttpMessage.crlf ++ rest) parse) :
    ∃ after, (∀ fuel, unpackLinesWith getline (fuel + 1) parse = unpackLinesWith getline fuel after) ∧
      after.message.parseState = .complete ∧ after.message.body = body ∧ after.os.data.Valid ∧ after.os.pos ≤ after.os.size ∧
        after.os.size + room ≤ 2 ^ 63 ∧ after.os.unread = rest := by
  obtain ⟨after, first, message, valid, inside, fits, left⟩ :=
    size_line splits (by decide : asciiBytes "0" ≠ []) (by decide : hexDigits 0 (asciiBytes "0") = some 0) (by decide) ready
  refine ⟨after, first, ?_, ?_, valid, inside, fits, left⟩
  · rw [message]
    rfl
  · rw [message, ← ready.body]
    rfl

/-- The last chunk, and the line behind it. -/
theorem last_taken (splits : SplitsLines getline)
    (ready : Ready room body (asciiBytes "0" ++ HttpMessage.crlf ++ HttpMessage.crlf) parse) :
    ∃ after, (∀ fuel, unpackLinesWith getline (fuel + 3) parse = .ok () after) ∧ Decoded room body after := by
  obtain ⟨middle, first, state, same, valid, inside, fits, left⟩ := last_size_line splits ready
  have reads : readsLine middle.message.parseState = true := by rw [state]; rfl
  obtain ⟨os, line, valid', inside', less, left'⟩ :=
    splits.line middle [13] [] valid (Nat.le_of_add_right_le fits) inside left (by decide)
  obtain ⟨os', none, valid'', inside'', less', left''⟩ :=
    splits.nothing { middle with os } valid' (Nat.le_trans less (Nat.le_of_add_right_le fits)) inside' (by
      rw [show ({ middle with os } : HttpParse).os.unread = [] from left']
      simp)
  refine ⟨⟨os', middle.message⟩, fun fuel => ?_, valid'', ?_, state, ?_, ?_⟩
  · rw [first, unpackLines_line _ ((nextLine_getline reads).trans line) (unpackLine_ignored (by rw [state]; rfl))]
    exact unpackLines_nothing fuel ((nextLine_getline (show readsLine (HttpParse.mk os middle.message).message.parseState = true
      from reads)).trans none)
  · exact Nat.le_trans (Nat.add_le_add_right (Nat.le_trans less' less) room) fits
  · exact same
  · have total := unread_length valid''
    rw [left'', left'] at total
    simp only [List.length_nil] at total
    exact Nat.le_antisymm inside'' (Nat.le_of_sub_eq_zero total.symm)

end Calls

/-! ## Call after call -/

/-- So many chunks, and a size line that is not all there. -/
def Resumable (chunks : List Chunk) (bytes : List UInt8) : Prop :=
  ∃ taken later partly, chunks = taken ++ later ∧ bytes = taken.flatMap Chunk.encode ++ partly ∧ 10 ∉ partly

/-- None of the deliveries ends in the middle of a chunk or between the last two line ends. -/
def Resumes (chunks : List Chunk) (pending : List UInt8) (deliveries : List (List UInt8)) : Prop :=
  ∀ delivered, delivered <+: deliveries →
    pending ++ delivered.flatten = encodeChunks chunks ∨ Resumable chunks (pending ++ delivered.flatten)

theorem mem_encodeChunks (chunks : List Chunk) : (10 : UInt8) ∈ encodeChunks chunks := by
  simp [encodeChunks, HttpMessage.crlf]

theorem mem_encode (chunk : Chunk) : (10 : UInt8) ∈ chunk.encode := by
  simp [Chunk.encode, HttpMessage.crlf]

theorem encodeChunks_append (taken later : List Chunk) :
    encodeChunks (taken ++ later) = taken.flatMap Chunk.encode ++ encodeChunks later := by
  simp only [encodeChunks, List.flatMap_append, List.append_assoc]

/-- What is taken stays taken. -/
theorem Resumable.later {taken later : List Chunk} {bytes : List UInt8}
    (resumable : Resumable (taken ++ later) (taken.flatMap Chunk.encode ++ bytes)) : Resumable later bytes := by
  obtain ⟨taken', later', partly, same, content, clean⟩ := resumable
  rcases List.append_eq_append_iff.1 same with ⟨more, rfl, rfl⟩ | ⟨more, rfl, rfl⟩
  · rw [List.flatMap_append, List.append_assoc] at content
    exact ⟨more, later', partly, rfl, List.append_cancel_left content, clean⟩
  · rw [List.flatMap_append, List.append_assoc] at content
    have rest := List.append_cancel_left content
    cases more with
    | nil => exact ⟨[], later, partly, by simp, by simpa using rest, clean⟩
    | cons chunk more =>
      refine absurd ?_ clean
      rw [← rest]
      simp [mem_encode chunk]

theorem Resumes.later {taken later : List Chunk} {pending partly delivery : List UInt8} {deliveries : List (List UInt8)}
    (resumes : Resumes (taken ++ later) pending (delivery :: deliveries))
    (content : pending ++ delivery = taken.flatMap Chunk.encode ++ partly) : Resumes later partly deliveries := by
  intro delivered initial
  have whole := resumes (delivery :: delivered) (List.cons_prefix_cons.2 ⟨rfl, initial⟩)
  rw [List.flatten_cons, ← List.append_assoc, content, List.append_assoc] at whole
  rcases whole with all | resumable
  · rw [encodeChunks_append] at all
    exact .inl (List.append_cancel_left all)
  · exact .inr resumable.later

/-- As many copies of its length as it is long, in one digit: such a chunk comes through. -/
def Plain (chunk : Chunk) : Prop :=
  chunk.data.length ≤ 9 ∧ chunk.data = List.replicate chunk.data.length (UInt8.ofNat chunk.data.length)

theorem Plain.first {chunk : Chunk} (plain : Plain chunk) : (chunk.data.headD 0).toNat = chunk.data.length := by
  obtain ⟨byte, tail, data⟩ := List.exists_cons_of_ne_nil chunk.nonempty
  have same : byte = UInt8.ofNat chunk.data.length := by
    have member : byte ∈ List.replicate chunk.data.length (UInt8.ofNat chunk.data.length) := by
      rw [← plain.2, data]
      exact List.mem_cons_self
    exact List.eq_of_mem_replicate member
  have small := plain.1
  rw [show chunk.data.headD 0 = byte by rw [data]; rfl, same, UInt8.toNat_ofNat']
  exact Nat.mod_eq_of_lt (by omega)

theorem Plain.short {chunk : Chunk} (plain : Plain chunk) : Short chunk := by
  refine ⟨plain.1, ?_⟩
  have small := plain.1
  rw [UInt8.le_iff_toNat_le, plain.first]
  simp
  omega

theorem Plain.made {chunk : Chunk} (plain : Plain chunk) : Proofs.made chunk = chunk.data := by
  rw [Proofs.made, plain.first]
  exact plain.2.symm

/-- Chunks that come through together come through one by one. -/
theorem plain_of_made {chunks : List Chunk} (short : ∀ chunk ∈ chunks, Short chunk)
    (same : chunks.flatMap made = chunks.flatMap Chunk.data) : ∀ chunk ∈ chunks, Plain chunk := by
  induction chunks with
  | nil => simp
  | cons chunk chunks ih =>
    have small := (short chunk (by simp)).1
    have positive : 0 < chunk.data.length := List.length_pos_iff.2 chunk.nonempty
    have value : (UInt8.ofNat chunk.data.length).toNat = chunk.data.length := by
      rw [UInt8.toNat_ofNat']
      exact Nat.mod_eq_of_lt (by omega)
    rw [List.flatMap_cons, List.flatMap_cons] at same
    obtain ⟨byte, tail, data⟩ := List.exists_cons_of_ne_nil chunk.nonempty
    have first : chunk.data.headD 0 = byte := by
      rw [data]
      rfl
    have count : byte.toNat = chunk.data.length := by
      cases times : byte.toNat with
      | zero =>
        -- nothing is made of the chunk, and nothing that is made of the others begins with its zero
        rw [made, first, times, List.replicate_zero, List.nil_append, data] at same
        have member : byte ∈ chunks.flatMap made := by
          rw [same]
          exact List.mem_cons_self
        obtain ⟨other, among, here⟩ := List.mem_flatMap.1 member
        have other_small := (short other (by simp [among])).1
        have other_positive : 0 < other.data.length := List.length_pos_iff.2 other.nonempty
        rw [List.eq_of_mem_replicate here, UInt8.toNat_ofNat', Nat.mod_eq_of_lt (by omega)] at times
        omega
      | succ count =>
        rw [made, first, times, List.replicate_succ, data, List.cons_append, List.cons_append] at same
        have head := (List.cons.inj same).1
        rw [← data] at head
        rw [← times, ← head, value]
    have lengths : (made chunk).length = chunk.data.length := by
      rw [made, first, List.length_replicate, count]
    obtain ⟨here, rest⟩ := List.append_inj same lengths
    intro other member
    rcases List.mem_cons.1 member with rfl | member
    · refine ⟨small, ?_⟩
      nth_rewrite 1 [← here]
      rw [made, first, count]
    · exact ih (fun other member => short other (by simp [member])) rest other member

section Deliveries
variable {getline : HttpM (Option (List UInt8))} {parse after : HttpParse} {body pending : List UInt8} {fuel : Nat}
  {delivery : List UInt8} {deliveries : List (List UInt8)}

theorem append_unread {os : Octetsstream} {data : Octets} (content : data.bytes = os.bytes ++ delivery)
    (valid : os.data.Valid) (inside : os.pos ≤ os.size) :
    ({ os with data } : Octetsstream).unread = os.unread ++ delivery := by
  rw [Octetsstream.unread, content, List.drop_append_of_le_length]
  · rfl
  · rw [Octetsstream.bytes, length_bytes valid]
    exact inside

theorem delivery_appended {room : Nat} (ready : Ready (delivery.length + room) body pending parse) :
    ∃ after, ofStream (appendData delivery) parse = .ok () after ∧ Ready room body (pending ++ delivery) after := by
  have fits := ready.room
  obtain ⟨data, appended, valid, content⟩ := appendData_appends delivery parse.os ready.valid (by omega)
  have size := appended_size ready.valid valid content
  refine ⟨{ parse with os := { parse.os with data } }, ?_, valid, ?_, ?_, ready.state, ready.body, ?_⟩
  · rw [ofStream, appended]
  · have inside := ready.inside
    simp only [Octetsstream.size] at size inside ⊢
    omega
  · simp only [Octetsstream.size] at size fits ⊢
    omega
  · rw [append_unread content ready.valid ready.inside, ready.unread]

theorem unpackDeliveries_complete {middle : HttpParse} (appended : ofStream (appendData delivery) parse = .ok () middle)
    (complete : middle.message.parseState = .complete) :
    unpackDeliveries getline fuel (delivery :: deliveries) parse = unpackDeliveries getline fuel deliveries middle := by
  rw [unpackDeliveries, run_bind appended, run_bind (get_run middle), if_neg (not_not.2 complete)]

theorem unpackDeliveries_incomplete {middle next : HttpParse} (appended : ofStream (appendData delivery) parse = .ok () middle)
    (incomplete : middle.message.parseState ≠ .complete) (called : unpackLinesWith getline fuel middle = .ok () next) :
    unpackDeliveries getline fuel (delivery :: deliveries) parse = unpackDeliveries getline fuel deliveries next := by
  rw [unpackDeliveries, run_bind appended, run_bind (get_run middle), if_pos incomplete, run_bind called]

/-- What a run that returns has done with its first delivery. -/
theorem unpackDeliveries_returned (returned : unpackDeliveries getline fuel (delivery :: deliveries) parse = .ok () after) :
    ∃ middle next, ofStream (appendData delivery) parse = .ok () middle ∧
      (middle.message.parseState = .complete ∧ next = middle ∨
        middle.message.parseState ≠ .complete ∧ unpackLinesWith getline fuel middle = .ok () next) ∧
      unpackDeliveries getline fuel deliveries next = .ok () after := by
  rw [unpackDeliveries] at returned
  obtain ⟨_, middle, appended, returned⟩ := ok_of_bind returned
  rw [run_bind (get_run middle)] at returned
  split at returned
  next incomplete =>
    obtain ⟨_, next, unpacked, rest⟩ := ok_of_bind returned
    exact ⟨middle, next, appended, .inr ⟨incomplete, unpacked⟩, rest⟩
  next complete => exact ⟨middle, middle, appended, .inl ⟨not_not.1 complete, rfl⟩, returned⟩

/-- A message that is complete is left alone. -/
theorem deliveries_ignored (nothing : deliveries.flatten = []) (decoded : Decoded 0 body parse) :
    ∃ after, unpackDeliveries getline fuel deliveries parse = .ok () after ∧ Decoded 0 body after := by
  induction deliveries generalizing parse with
  | nil => exact ⟨parse, rfl, decoded⟩
  | cons delivery deliveries ih =>
    obtain ⟨rfl, nothing⟩ := List.append_eq_nil_iff.1 nothing
    obtain ⟨data, appended, valid, content⟩ := appendData_appends [] parse.os decoded.valid decoded.room
    have size := appended_size decoded.valid valid content
    have called : ofStream (appendData []) parse = .ok () { parse with os := { parse.os with data } } := by
      rw [ofStream, appended]
    have next : Decoded 0 body { parse with os := { parse.os with data } } := by
      refine ⟨valid, ?_, decoded.state, decoded.body, ?_⟩
      · exact Nat.le_trans (Nat.le_of_eq (by simpa [Octetsstream.size] using size)) decoded.room
      · exact decoded.finished.trans (by simpa [Octetsstream.size] using size.symm)
    obtain ⟨after, rest, done⟩ := ih nothing next
    refine ⟨after, ?_, done⟩
    rw [unpackDeliveries_complete called decoded.state]
    exact rest

/-- The calls of `unpack` for one delivery after the other. -/
theorem deliveries_unpacked (splits : SplitsLines getline) {chunks : List Chunk} (short : ∀ chunk ∈ chunks, Short chunk)
    (ready : Ready deliveries.flatten.length body pending parse) (partly : 10 ∉ pending)
    (whole : pending ++ deliveries.flatten = encodeChunks chunks) (resumes : Resumes chunks pending deliveries)
    (enough : 2 * chunks.length + 3 ≤ fuel) :
    ∃ after, unpackDeliveries getline fuel deliveries parse = .ok () after ∧ Decoded 0 (body ++ chunks.flatMap made) after := by
  induction deliveries generalizing parse body pending chunks with
  | nil =>
    rw [List.flatten_nil, List.append_nil] at whole
    exact absurd (by rw [whole]; exact mem_encodeChunks chunks) partly
  | cons delivery deliveries ih =>
    rw [List.flatten_cons, List.length_append] at ready
    obtain ⟨middle, appended, next⟩ := delivery_appended ready
    have incomplete : middle.message.parseState ≠ .complete := by simp [next.state]
    have cut := resumes [delivery] (List.cons_prefix_cons.2 ⟨rfl, List.nil_prefix⟩)
    rw [List.flatten_singleton] at cut
    rcases cut with all | ⟨taken, later, partly', rfl, content, clean⟩
    · -- this delivery is the last one that is not empty
      have nothing : deliveries.flatten = [] := by
        rw [List.flatten_cons, ← List.append_assoc, all] at whole
        exact List.append_right_eq_self.1 whole
      rw [all, encodeChunks, List.append_assoc, List.append_assoc, nothing] at next
      obtain ⟨between, chunks_called, last⟩ := chunks_taken splits short next
      rw [← List.append_assoc] at last
      obtain ⟨after, called, decoded⟩ := last_taken splits last
      obtain ⟨final, ignored, done⟩ : ∃ final, unpackDeliveries getline fuel deliveries after = .ok () final ∧ _ :=
        deliveries_ignored nothing decoded
      refine ⟨final, (unpackDeliveries_incomplete appended incomplete ?_).trans ignored, done⟩
      rw [← called (fuel - 2 * chunks.length - 3), ← chunks_called]
      congr 1
      omega
    · rw [content] at next
      obtain ⟨between, chunks_called, waiting⟩ := chunks_taken splits (fun chunk member => short chunk (by simp [member])) next
      obtain ⟨after, called, again⟩ := line_awaited splits waiting clean
      rw [List.flatten_cons, ← List.append_assoc, content, List.append_assoc, encodeChunks_append] at whole
      rw [List.length_append] at enough
      obtain ⟨final, rest, done⟩ := ih (fun chunk member => short chunk (by simp [member])) again clean
        (List.append_cancel_left whole) (resumes.later content) (by omega)
      refine ⟨final, (unpackDeliveries_incomplete appended incomplete ?_).trans rest, by simpa using done⟩
      rw [← called (fuel - 2 * taken.length - 1), ← chunks_called]
      congr 1
      omega

/-- More fuel makes no difference to a loop that has come to its end. -/
theorem unpackLines_more (returned : unpackLinesWith getline fuel parse = .ok () after) (more : Nat) :
    unpackLinesWith getline (fuel + more) parse = .ok () after := by
  induction fuel generalizing parse with
  | zero => cases returned
  | succ fuel ih =>
    rw [Nat.succ_add]
    cases next : nextLineWith getline parse with
    | error thrown stopped =>
      rw [unpackLines_throws fuel next] at returned
      cases returned
    | ok line middle =>
      cases line with
      | none =>
        rw [unpackLines_nothing fuel next] at returned
        rw [unpackLines_nothing _ next, returned]
      | some line =>
        cases unpacked : unpackLine line middle with
        | error thrown stopped =>
          rw [unpackLines_line_throws fuel next unpacked] at returned
          cases returned
        | ok value middle' =>
          rw [unpackLines_line fuel next unpacked] at returned
          rw [unpackLines_line _ next unpacked]
          exact ih returned

theorem unpackDeliveries_more (returned : unpackDeliveries getline fuel deliveries parse = .ok () after) (more : Nat) :
    unpackDeliveries getline (fuel + more) deliveries parse = .ok () after := by
  induction deliveries generalizing parse with
  | nil => exact returned
  | cons delivery deliveries ih =>
    obtain ⟨middle, next, appended, ⟨complete, rfl⟩ | ⟨incomplete, unpacked⟩, rest⟩ := unpackDeliveries_returned returned
    · rw [unpackDeliveries_complete appended complete]
      exact ih rest
    · rw [unpackDeliveries_incomplete appended incomplete (unpackLines_more unpacked more)]
      exact ih rest

/-- The chunks are put together in the body, and the cursor stands behind the last of them. -/
def Decodes (getline : HttpM (Option (List UInt8))) (parse : HttpParse) (chunks : List Chunk) (deliveries : List (List UInt8)) : Prop :=
  ∃ fuel after, unpackDeliveries getline fuel deliveries parse = .ok () after ∧ after.message.parseState = .complete ∧
    after.message.body = parse.message.body ++ chunks.flatMap Chunk.data ∧ after.os.pos = after.os.size

/-- What becomes of chunks with sizes of one digit, however they are delivered. -/
theorem short_decodes_iff (splits : SplitsLines getline) (valid : parse.os.data.Valid)
    (state : parse.message.parseState = .chunkedSize) (consumed : parse.os.pos = parse.os.size) {chunks : List Chunk}
    (delivered : deliveries.flatten = encodeChunks chunks) (room : parse.os.size + deliveries.flatten.length ≤ 2 ^ 63)
    (short : ∀ chunk ∈ chunks, Short chunk) (resumes : Resumes chunks [] deliveries) :
    Decodes getline parse chunks deliveries ↔ ∀ chunk ∈ chunks, Plain chunk := by
  have ready : Ready deliveries.flatten.length parse.message.body [] parse :=
    ⟨valid, Nat.le_of_eq consumed, room, state, rfl, unread_nil valid consumed⟩
  obtain ⟨after, unpacked, decoded⟩ := deliveries_unpacked splits short ready (by simp) delivered resumes (Nat.le_refl _)
  constructor
  · rintro ⟨fuel, after', unpacked', -, body, -⟩
    have same := unpackDeliveries_more unpacked fuel
    rw [Nat.add_comm, unpackDeliveries_more unpacked'] at same
    cases same
    rw [decoded.body] at body
    exact plain_of_made short (List.append_cancel_left body)
  · intro plain
    refine ⟨_, after, unpacked, decoded.state, ?_, decoded.finished⟩
    rw [decoded.body, List.flatMap_congr fun chunk member => (plain chunk member).made]

end Deliveries

end Proofs
end Cassobee
