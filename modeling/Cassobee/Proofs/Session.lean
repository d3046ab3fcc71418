import Cassobee.Session
import Cassobee.Proofs.Messages

/-! A session that receives frames in pieces. However the bytes are cut, every message is dispatched
once and in order. A piece that ends inside a header is taken for a malformed one, though, and
closes the session; no other piece does. -/

namespace Cassobee
variable {μ : Type} {methods : ProtocolMethods μ} {stubs : Stubs μ}

open Proofs

/-- The offset is behind the first byte of a frame and before the first byte of its payload. -/
def InsideHeader : List (Registered methods stubs) → Nat → Prop
  | [], _ => False
  | sent :: others, offset =>
    0 < offset ∧ offset < sent.header.length ∨
      sent.frame.length ≤ offset ∧ InsideHeader others (offset - sent.frame.length)

instance : (sent : List (Registered methods stubs)) → (offset : Nat) → Decidable (InsideHeader sent offset)
  | [], _ => inferInstanceAs (Decidable False)
  | sent :: others, offset =>
    have := instDecidableInsideHeader others (offset - sent.frame.length)
    inferInstanceAs (Decidable (_ ∨ _))

/-- Where the chunks end. -/
def boundaries (start : Nat) : List (List UInt8) → List Nat
  | [] => []
  | chunk :: chunks => (start + chunk.length) :: boundaries (start + chunk.length) chunks

namespace Proofs

/-! ## Whole frames and the beginning of one -/

/-- The beginning of the first frame, or nothing where there is no frame. -/
def Beginning (part : List UInt8) : List (Registered methods stubs) → Prop
  | [] => part = []
  | sent :: _ => part <+: sent.frame ∧ part.length < sent.frame.length

private theorem header_le_frame (sent : Registered methods stubs) : sent.header.length ≤ sent.frame.length := by
  simp [Registered.header, Registered.frame, frame_eq]

theorem frame_pos (sent : Registered methods stubs) : 0 < sent.frame.length :=
  Nat.lt_of_lt_of_le (List.length_pos_of_ne_nil (header_ne_nil _ _)) (header_le_frame sent)

/-- Every prefix of a sequence of frames is some whole frames and the beginning of the next. -/
theorem prefix_splits (sent : List (Registered methods stubs)) {bytes : List UInt8}
    (cut : bytes <+: sent.flatMap (·.frame)) :
    ∃ done rest part, sent = done ++ rest ∧ bytes = done.flatMap (·.frame) ++ part ∧ Beginning part rest := by
  induction sent generalizing bytes with
  | nil => exact ⟨[], [], [], rfl, by simpa using cut, rfl⟩
  | cons one others ih =>
    rw [List.flatMap_cons] at cut
    rcases Nat.lt_or_ge bytes.length one.frame.length with short | long
    · exact ⟨[], one :: others, bytes, rfl, by simp,
        List.prefix_of_prefix_length_le cut (List.prefix_append ..) (Nat.le_of_lt short), short⟩
    · obtain ⟨later, rfl⟩ := List.prefix_of_prefix_length_le (List.prefix_append ..) cut long
      obtain ⟨done, rest, part, rfl, rfl, begun⟩ := ih ((List.prefix_append_right_inj _).mp cut)
      exact ⟨one :: done, rest, part, rfl, by simp, begun⟩

theorem insideHeader_behind (done rest : List (Registered methods stubs)) (offset : Nat) :
    InsideHeader (done ++ rest) ((done.flatMap (·.frame)).length + offset) ↔ InsideHeader rest offset := by
  induction done with
  | nil => simp
  | cons one others ih =>
    have short := header_le_frame one
    rw [List.cons_append, InsideHeader, List.flatMap_cons, List.length_append, Nat.add_assoc,
      Nat.add_sub_cancel_left, ih]
    simp only [Nat.le_add_right, true_and, or_iff_right_iff_imp]
    omega

theorem insideHeader_of_beginning {part : List UInt8} {one : Registered methods stubs}
    {others : List (Registered methods stubs)} (begun : Beginning part (one :: others)) :
    InsideHeader (one :: others) part.length ↔ part ≠ [] ∧ part.length < one.header.length := by
  have short := begun.2
  rw [InsideHeader, List.length_pos_iff]
  simp only [show ¬ one.frame.length ≤ part.length by omega, false_and, or_false]

/-- What the decoding loop makes of a beginning: it closes the session inside a header and waits
elsewhere. -/
theorem decodeLoop_beginning {rest : List (Registered methods stubs)} {os : Octetsstream} (valid : os.data.Valid)
    (bound : os.size ≤ 2 ^ 63) (inside : os.pos ≤ os.size) (begun : Beginning os.unread rest)
    (word : ∀ sent ∈ rest, sent.payload.length < wordSize) (fuel : Nat) (status : SessionStatus) :
    ∃ transpos, decodeLoop methods stubs (fuel + 1) status os =
      .ok (some ([], if InsideHeader rest os.unread.length then status.setClose .exception else status))
        ⟨os.data, os.pos, transpos⟩ := by
  cases rest with
  | nil => exact ⟨os.transpos, decodeLoop_nothing valid bound inside begun fuel status⟩
  | cons one others =>
    by_cases nothing : os.unread = []
    · rw [if_neg (by rw [insideHeader_of_beginning begun]; exact fun within => within.1 nothing)]
      exact ⟨os.transpos, decodeLoop_nothing valid bound inside nothing fuel status⟩
    refine ⟨os.pos, ?_⟩
    rcases Nat.lt_or_ge os.unread.length one.header.length with short | long
    · have partly : os.unread <+: one.header :=
        List.prefix_of_prefix_length_le begun.1 (List.prefix_append one.header one.payload) (Nat.le_of_lt short)
      have missing : os.unread ≠ one.header := fun same => by simp [same] at short
      rw [if_pos ((insideHeader_of_beginning begun).mpr ⟨nothing, short⟩), decodeLoop,
        run_bind (decode_cut_header valid bound inside nothing partly missing status)]
      rfl
    · obtain ⟨part, content⟩ := List.prefix_of_prefix_length_le (List.prefix_append one.header one.payload) begun.1 long
      have few : part.length < one.payload.length := by
        have total := begun.2
        rw [← content, Registered.frame, frame_eq, List.length_append, List.length_append] at total
        exact Nat.lt_of_add_lt_add_left total
      rw [if_neg (by rw [insideHeader_of_beginning begun]; omega), decodeLoop,
        run_bind (decode_wait (word one (by simp)) valid bound inside content.symm few status)]
      rfl

/-! ## One call -/

/-- Between two calls the session has moved everything into the stream and waits for the rest of a
frame, with room for what is still to come. -/
structure Receiving (session : Session) (part : List UInt8) (coming : Nat) : Prop where
  reados : session.reados.data.Valid
  readbuf : session.readbuf.Valid
  moved : session.readbuf.len = 0
  inside : session.reados.pos ≤ session.reados.size
  unread : session.reados.unread = part
  room : session.reados.size + coming ≤ session.reados.data.cap
  buffer : coming ≤ session.readbuf.cap
  bound : session.reados.size + coming ≤ 2 ^ 63

private theorem arrive_spec {session : Session} {chunk : List UInt8} (moved : session.readbuf.len = 0)
    (fits : chunk.length ≤ session.readbuf.cap) (word : chunk.length < wordSize) :
    (session.arrive chunk).readbuf.len = chunk.length ∧
      (session.arrive chunk).readbuf.buf.take chunk.length = chunk ∧
      (session.arrive chunk).readbuf.cap = session.readbuf.cap := by
  simp only [Session.arrive, Octets.fastResize, Octets.cap, moved, Nat.zero_add, Nat.mod_eq_of_lt word, true_and]
  have start : (overwrite session.readbuf.buf 0 chunk).take (0 + chunk.length) = [] ++ chunk :=
    take_overwrite (Nat.zero_le _)
  exact ⟨by simpa using start, overwrite_length (by simpa [Octets.cap] using fits)⟩

theorem onRecv_of_decodeLoop {session : Session} {count fuel : Nat} {data : Octets} {messages : List μ}
    {status : SessionStatus} {reados : Octetsstream}
    (moving : min session.readbuf.len session.reados.data.freeSpace = count)
    (appended : session.reados.data.append (session.readbuf.buf.take count) = .ok data)
    (looped : decodeLoop methods stubs fuel { session.status with state := .recving } { session.reados with data } =
      .ok (some (messages, status)) reados) :
    session.onRecv methods stubs fuel =
      .ok (some (messages, ⟨status, reados.tryShrink, session.readbuf.erase 0 count⟩)) := by
  simp only [Session.onRecv, moving, appended, bind, Except.bind, looped]
  rfl

/-- One call dispatches the frames that the chunk completes and keeps the beginning of the next. -/
theorem onRecv_spec {session : Session} {part chunk : List UInt8} {coming fuel : Nat}
    {todo : List (Registered methods stubs)} (receiving : Receiving session part coming)
    (fits : chunk.length ≤ coming) (cut : part ++ chunk <+: todo.flatMap (·.frame))
    (word : ∀ sent ∈ todo, sent.payload.length < wordSize) (enough : todo.length < fuel) :
    ∃ done rest part' session', todo = done ++ rest ∧ part ++ chunk = done.flatMap (·.frame) ++ part' ∧
      Beginning part' rest ∧
      (session.arrive chunk).onRecv methods stubs fuel = .ok (some (done.map (·.message), session')) ∧
      Receiving session' part' (coming - chunk.length) ∧
      (session'.status.isClose = true ↔ InsideHeader rest part'.length) := by
  obtain ⟨valid, -, moved, inside, unread, room, buffer, bound⟩ := receiving
  have small : chunk.length < wordSize := by simp only [wordSize]; omega
  obtain ⟨length, stored, block⟩ := arrive_spec moved (fits.trans buffer) small
  obtain ⟨data, appended, kept, bytes, size, same⟩ := append_of_fits valid
    (show session.reados.data.len + chunk.length ≤ session.reados.data.cap by
      simp only [Octetsstream.size] at room; omega)
    (by simp only [wordSize, Octetsstream.size] at bound ⊢; omega)
  let os : Octetsstream := { session.reados with data }
  have moving : min (session.arrive chunk).readbuf.len (session.arrive chunk).reados.data.freeSpace = chunk.length := by
    rw [length]
    simp only [Session.arrive, Octets.freeSpace, Octetsstream.size] at room ⊢
    omega
  have capacity : os.size ≤ 2 ^ 63 := by
    simp only [os, Octetsstream.size] at bound ⊢
    omega
  have within : os.pos ≤ os.size := by
    simp only [os, Octetsstream.size] at inside ⊢
    omega
  have content : os.unread = part ++ chunk := by
    have front : session.reados.pos ≤ session.reados.data.bytes.length := by
      rw [length_bytes valid]
      exact inside
    rw [← unread, Octetsstream.unread, Octetsstream.unread, bytes, List.drop_append_of_le_length front]
  obtain ⟨done, rest, part', rfl, whole, begun⟩ := prefix_splits todo cut
  rw [whole] at content
  obtain ⟨spare, rfl⟩ : ∃ spare, fuel = done.length + (spare + 1) :=
    ⟨fuel - done.length - 1, by rw [List.length_append] at enough; omega⟩
  let status : SessionStatus := { session.status with state := .recving }
  let final := if InsideHeader rest part'.length then status.setClose .exception else status
  let behind := os.pos + (done.flatMap (·.frame)).length
  have next (transpos : Nat) : ∃ transpos', decodeLoop methods stubs (spare + 1) status ⟨data, behind, transpos⟩ =
      .ok (some ([], final)) ⟨data, behind, transpos'⟩ := by
    have left : Octetsstream.unread ⟨data, behind, transpos⟩ = part' := unread_behind content transpos
    have looped := @decodeLoop_beginning _ _ _ rest ⟨data, behind, transpos⟩ kept capacity
      (pos_behind kept within content) (by rw [left]; exact begun) (fun sent member => word sent (by simp [member]))
      spare status
    rwa [left] at looped
  obtain ⟨transpos, looped⟩ := decodeLoop_frames done kept capacity within content next
  let after : Octetsstream := ⟨data, behind, transpos⟩
  have stays : after.pos ≤ after.size := pos_behind kept within content
  obtain ⟨shrunk, lower, still, less, unchanged⟩ := tryShrink_spec (show after.data.Valid from kept) stays
  have emptied : (session.arrive chunk).readbuf.Valid := by
    simp only [Octets.Valid, length, block]
    exact fits.trans buffer
  obtain ⟨valid', -, length', cap'⟩ := erase_front emptied (Nat.le_of_eq length.symm)
  refine ⟨done, rest, part', ⟨final, after.tryShrink, (session.arrive chunk).readbuf.erase 0 chunk.length⟩,
    rfl, whole, begun, ?_, ?_, ?_⟩
  · rw [← stored] at appended
    rw [List.append_nil] at looped
    exact onRecv_of_decodeLoop moving appended looped
  · refine ⟨shrunk, valid', ?_, lower, still.trans (unread_behind content transpos), ?_, ?_, ?_⟩
    · simp only [length', length, Nat.sub_self]
    · simp only [unchanged, after, Octetsstream.size] at less room ⊢
      omega
    · simp only [cap', block]
      omega
    · simp only [after, Octetsstream.size] at less bound ⊢
      omega
  · simp only [final]
    split
    next inHeader => simp [SessionStatus.setClose, SessionStatus.isClose, inHeader]
    next outside => simp [status, SessionStatus.isClose, outside]

/-- A fresh session is ready for as much as its buffers have been made for. -/
theorem create_receiving {readBufferSize coming : Nat} (bound : readBufferSize ≤ 2 ^ 63) (fits : coming ≤ readBufferSize) :
    ∃ session, Session.create readBufferSize = .ok session ∧ Receiving session [] coming := by
  obtain ⟨block, reserved, valid, bytes, length, large⟩ := reserve_spec new_valid bound
  have empty : block.len = 0 := length
  refine ⟨⟨⟨.none, .none⟩, ⟨block, 0, 0⟩, block⟩, by simp [Session.create, reserved, bind, Except.bind, pure, Except.pure], ?_⟩
  refine ⟨valid, valid, empty, Nat.zero_le _, ?_, ?_, fits.trans large, ?_⟩
  · simp [Octetsstream.unread, bytes]
  · simp only [Octetsstream.size, empty]
    omega
  · simp only [Octetsstream.size, empty]
    omega

/-! ## Whole runs -/

private theorem boundaries_shift (offset start : Nat) (chunks : List (List UInt8)) :
    boundaries (offset + start) chunks = (boundaries start chunks).map (offset + ·) := by
  induction chunks generalizing start with
  | nil => rfl
  | cons chunk chunks ih => simp only [boundaries, List.map_cons, Nat.add_assoc, ih]

private theorem nothing_left {part : List UInt8} {todo : List (Registered methods stubs)} (begun : Beginning part todo)
    (whole : part = todo.flatMap (·.frame)) : todo = [] := by
  cases todo with
  | nil => rfl
  | cons one others =>
    have short := begun.2
    rw [whole, List.flatMap_cons, List.length_append] at short
    omega

theorem receive_spec (chunks : List (List UInt8)) {session : Session} {part : List UInt8} {coming fuel : Nat}
    {todo : List (Registered methods stubs)} (receiving : Receiving session part coming)
    (begun : Beginning part todo) (whole : part ++ chunks.flatten = todo.flatMap (·.frame))
    (fits : chunks.flatten.length ≤ coming) (word : ∀ sent ∈ todo, sent.payload.length < wordSize)
    (enough : todo.length < fuel) :
    ∃ steps final, session.receive methods stubs fuel chunks = .ok (some (steps, final)) ∧
      steps.flatMap (·.1) = todo.map (·.message) ∧
      ((∀ step ∈ steps, step.2.isClose = false) ↔
        ∀ cut ∈ boundaries part.length chunks, ¬ InsideHeader todo cut) := by
  induction chunks generalizing session part coming todo with
  | nil =>
    rw [List.flatten_nil, List.append_nil] at whole
    rw [nothing_left begun whole]
    exact ⟨[], session, rfl, rfl, by simp [boundaries]⟩
  | cons chunk chunks ih =>
    rw [List.flatten_cons, List.length_append] at fits
    rw [List.flatten_cons, ← List.append_assoc] at whole
    obtain ⟨done, rest, part', session', rfl, split, begun', called, receiving', closed⟩ :=
      onRecv_spec receiving (by omega) ⟨_, whole⟩ word enough
    rw [split, List.flatMap_append, List.append_assoc] at whole
    obtain ⟨steps, final, run, dispatched, opened⟩ := ih receiving' begun' (List.append_cancel_left whole) (by omega)
      (fun sent member => word sent (by simp [member])) (by rw [List.length_append] at enough; omega)
    refine ⟨(done.map (·.message), session'.status) :: steps, final, ?_, ?_, ?_⟩
    · simp only [Session.receive, called, run, bind, Except.bind, pure, Except.pure]
    · rw [List.flatMap_cons, dispatched, List.map_append]
    · have offset : part.length + chunk.length = (done.flatMap (·.frame)).length + part'.length := by
        rw [← List.length_append, split, List.length_append]
      rw [List.forall_mem_cons, opened, boundaries, offset, boundaries_shift, List.forall_mem_cons, List.forall_mem_map,
        insideHeader_behind]
      simp only [insideHeader_behind, ← closed, Bool.not_eq_true]

/-- The run dispatches exactly these messages, and no call leaves the session closing. -/
def ReceivesAll (sent : List (Registered methods stubs)) (session : Session) (fuel : Nat) (chunks : List (List UInt8)) :
    Prop :=
  ∃ steps final, session.receive methods stubs fuel chunks = .ok (some (steps, final)) ∧
    steps.flatMap (·.1) = sent.map (·.message) ∧ ∀ step ∈ steps, step.2.isClose = false

private theorem receive_frames {sent : List (Registered methods stubs)} {chunks : List (List UInt8)}
    (whole : chunks.flatten = sent.flatMap (·.frame)) {session : Session}
    (ready : Receiving session [] (sent.flatMap (·.frame)).length) {fuel : Nat} (enough : sent.length < fuel) :
    ∃ steps final, session.receive methods stubs fuel chunks = .ok (some (steps, final)) ∧
      steps.flatMap (·.1) = sent.map (·.message) ∧
      ((∀ step ∈ steps, step.2.isClose = false) ↔ ∀ cut ∈ boundaries 0 chunks, ¬ InsideHeader sent cut) := by
  have word (one : Registered methods stubs) (member : one ∈ sent) : one.payload.length < wordSize := by
    have bound := ready.bound
    have within : one.frame.length ≤ (sent.flatMap (·.frame)).length :=
      (List.sublist_flatten_of_mem (List.mem_map_of_mem member)).length_le
    have part : one.payload.length ≤ one.frame.length := by
      simp only [Registered.frame, frame_eq, List.length_append, Nat.le_add_left]
    simp only [wordSize]
    omega
  have begun : Beginning [] sent := by
    cases sent with
    | nil => rfl
    | cons one others => exact ⟨List.nil_prefix, frame_pos one⟩
  exact receive_spec chunks ready begun whole (Nat.le_of_eq (congrArg _ whole)) word enough

private theorem uncut_of_receivesAll {sent : List (Registered methods stubs)} {chunks : List (List UInt8)}
    (whole : chunks.flatten = sent.flatMap (·.frame)) {session : Session}
    (ready : Receiving session [] (sent.flatMap (·.frame)).length) {fuel : Nat} (enough : sent.length < fuel)
    (received : ReceivesAll sent session fuel chunks) : ∀ cut ∈ boundaries 0 chunks, ¬ InsideHeader sent cut := by
  obtain ⟨steps, final, run, -, opened⟩ := receive_frames whole ready enough
  obtain ⟨steps', final', run', -, opened'⟩ := received
  simp only [run, Except.ok.injEq, Option.some.injEq, Prod.mk.injEq] at run'
  obtain ⟨rfl, -⟩ := run'
  exact opened.mp opened'

/-- A run comes out right exactly when no chunk ends inside the header of a frame. -/
theorem receivesAll_iff_headers_uncut (sent : List (Registered methods stubs)) {chunks : List (List UInt8)}
    (whole : chunks.flatten = sent.flatMap (·.frame)) {session : Session}
    (ready : Receiving session [] (sent.flatMap (·.frame)).length) {fuel : Nat} (enough : sent.length < fuel) :
    ReceivesAll sent session fuel chunks ↔ ∀ cut ∈ boundaries 0 chunks, ¬ InsideHeader sent cut := by
  refine ⟨uncut_of_receivesAll whole ready enough, fun uncut => ?_⟩
  obtain ⟨steps, final, run, dispatched, opened⟩ := receive_frames whole ready enough
  exact ⟨steps, final, run, dispatched, opened.mpr uncut⟩

/-- The empty `octets` as a message: the bytes 1, 1, 0, of which the first two are the header. -/
def shortFrame : Registered octetsRegistry.methods octetsRegistry.stubs := (octetsOutgoing [] (by decide)).toRegistered

private theorem shortFrame_bytes : [shortFrame].flatMap (·.frame) = [1, 1, 0] := by decide +kernel

/-- A session whose buffers have just been made for 16 bytes. -/
def smallSession : Session := ⟨⟨.active, .none⟩, Octetsstream.new, Octets.new⟩

private theorem smallSession_ready : Receiving smallSession [] ([shortFrame].flatMap (·.frame)).length := by
  rw [shortFrame_bytes]
  exact ⟨new_valid, new_valid, rfl, Nat.zero_le _, rfl, by decide, by decide, by decide⟩

theorem receivesAll_of_header_and_payload : ReceivesAll [shortFrame] smallSession 2 [[1, 1], [0]] :=
  (receivesAll_iff_headers_uncut [shortFrame] (show [[1, 1], [0]].flatten = _ from shortFrame_bytes.symm)
    smallSession_ready (by decide)).mpr (by decide +kernel)

/-- The id alone closes the session. -/
theorem not_receivesAll_of_cut_header :
    [[1], [1, 0]].flatten = [shortFrame].flatMap (·.frame) ∧
      Receiving smallSession [] ([shortFrame].flatMap (·.frame)).length ∧
      ¬ ReceivesAll [shortFrame] smallSession 2 [[1], [1, 0]] := by
  refine ⟨shortFrame_bytes.symm, smallSession_ready, fun received => ?_⟩
  have uncut := uncut_of_receivesAll (show [[1], [1, 0]].flatten = _ from shortFrame_bytes.symm) smallSession_ready (by decide) received
  exact uncut 1 (by decide) (by decide +kernel)

end Proofs
end Cassobee
