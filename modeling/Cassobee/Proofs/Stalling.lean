import Cassobee.Proofs.Session
import Cassobee.Support.Run

/-! When the receiving side gets stuck. Bytes that have been decoded stay in `_reados` until the
cursor is behind the first mebibyte, so the block can be full with nothing in it left to decode. -/

namespace Cassobee
open Support
variable {μ : Type} (methods : ProtocolMethods μ) (stubs : Stubs μ)

/-- `on_recv` takes a byte over, dispatches a message or closes the session. -/
def Session.Advances (fuel : Nat) (session : Session) : Prop :=
  ∃ messages after, session.onRecv methods stubs fuel = .ok (some (messages, after)) ∧
    (after.readbuf.len < session.readbuf.len ∨ messages ≠ [] ∨ after.status.isClose = true)

/-- The unread bytes end inside a header. -/
def Octetsstream.HeaderCut (os : Octetsstream) : Prop :=
  os.unread ≠ [] ∧ ∀ answer after, popHeader os ≠ .ok answer after

/-- The bytes that arrive in a run. -/
def arrivals : List ReadAction → List UInt8
  | [] => []
  | .arrive chunk :: actions => chunk ++ arrivals actions
  | .onRecv :: actions => arrivals actions

namespace Proofs
open Octets
variable {methods : ProtocolMethods μ} {stubs : Stubs μ}

/-- The stream holds the beginning of the first frame to come, and the buffer what follows. -/
structure Buffered (session : Session) (todo : List (Registered methods stubs)) : Prop where
  reados : session.reados.data.Valid
  readbuf : session.readbuf.Valid
  small : session.reados.data.cap ≤ 2 ^ 63 ∧ session.readbuf.cap ≤ 2 ^ 63
  inside : session.reados.pos ≤ session.reados.size
  begun : Beginning session.reados.unread todo

theorem arrive_buffered {session : Session} {todo : List (Registered methods stubs)} {chunk : List UInt8}
    (buffered : Buffered session todo) (fits : chunk.length ≤ session.readbuf.freeSpace) :
    Buffered (session.arrive chunk) todo ∧ (session.arrive chunk).readbuf.bytes = session.readbuf.bytes ++ chunk := by
  obtain ⟨valid, valid', small, inside, begun⟩ := buffered
  have room : session.readbuf.len + chunk.length ≤ session.readbuf.cap := by
    simp only [Octets.freeSpace, Octets.Valid] at fits valid'
    omega
  have word : (session.readbuf.len + chunk.length) % wordSize = session.readbuf.len + chunk.length := by
    apply Nat.mod_eq_of_lt
    simp only [wordSize]
    omega
  have block : (overwrite session.readbuf.buf session.readbuf.len chunk).length = session.readbuf.buf.length :=
    overwrite_length room
  refine ⟨⟨valid, ?_, ⟨small.1, ?_⟩, inside, begun⟩, ?_⟩
  · simp only [Session.arrive, Octets.fastResize, Octets.Valid, Octets.cap, word, block]
    exact room
  · simp only [Session.arrive, Octets.fastResize, Octets.cap, block]
    exact small.2
  · simp only [Session.arrive, Octets.fastResize, Octets.bytes, word]
    exact take_overwrite valid'

/-- One call, whatever part of the buffer it can take over. -/
theorem onRecv_buffered {session : Session} {todo : List (Registered methods stubs)} {fuel : Nat}
    (buffered : Buffered session todo) (cut : session.reados.unread ++ session.readbuf.bytes <+: todo.flatMap (·.frame))
    (word : ∀ sent ∈ todo, sent.payload.length < wordSize) (enough : todo.length < fuel) :
    ∃ done rest after, todo = done ++ rest ∧ session.onRecv methods stubs fuel = .ok (some (done.map (·.message), after)) ∧
      Buffered after rest ∧
      session.reados.unread ++ session.readbuf.bytes.take (min session.readbuf.len session.reados.data.freeSpace) =
        done.flatMap (·.frame) ++ after.reados.unread ∧
      after.readbuf.bytes = session.readbuf.bytes.drop (min session.readbuf.len session.reados.data.freeSpace) ∧
      after.readbuf.len = session.readbuf.len - min session.readbuf.len session.reados.data.freeSpace ∧
      (after.status.isClose = true ↔ InsideHeader rest after.reados.unread.length) := by
  obtain ⟨valid, valid', small, inside, begun⟩ := buffered
  obtain ⟨count, moving⟩ : ∃ count, min session.readbuf.len session.reados.data.freeSpace = count := ⟨_, rfl⟩
  rw [moving]
  have few : count ≤ session.readbuf.len ∧ count ≤ session.reados.data.freeSpace := by omega
  have chunk : session.readbuf.buf.take count = session.readbuf.bytes.take count := by
    rw [Octets.bytes, List.take_take, Nat.min_eq_left few.1]
  have length : (session.readbuf.buf.take count).length = count := by
    rw [chunk, List.length_take, length_bytes valid', Nat.min_eq_left few.1]
  have room : session.reados.data.len + (session.readbuf.buf.take count).length ≤ session.reados.data.cap := by
    simp only [Octets.freeSpace, Octets.Valid] at few valid
    omega
  obtain ⟨data, appended, kept, bytes, size, same⟩ := append_of_fits valid room
    (Nat.lt_of_le_of_lt room (Nat.lt_of_le_of_lt small.1 (by decide)))
  have capacity : Octetsstream.size ⟨data, session.reados.pos, session.reados.transpos⟩ ≤ 2 ^ 63 := by
    simp only [Octetsstream.size, size]
    omega
  have within : session.reados.pos ≤ Octetsstream.size ⟨data, session.reados.pos, session.reados.transpos⟩ := by
    simp only [Octetsstream.size] at inside ⊢
    omega
  have content : Octetsstream.unread ⟨data, session.reados.pos, session.reados.transpos⟩ =
      session.reados.unread ++ session.readbuf.bytes.take count := by
    have front : session.reados.pos ≤ session.reados.data.bytes.length := by
      rw [length_bytes valid]
      exact inside
    rw [Octetsstream.unread, Octetsstream.unread, bytes, chunk, List.drop_append_of_le_length front]
  have partly : session.reados.unread ++ session.readbuf.bytes.take count <+: todo.flatMap (·.frame) :=
    ((List.prefix_append_right_inj _).mpr (List.take_prefix ..)).trans cut
  obtain ⟨done, rest, part, rfl, whole, begun'⟩ := prefix_splits todo partly
  rw [whole] at content
  obtain ⟨spare, rfl⟩ : ∃ spare, fuel = done.length + (spare + 1) :=
    ⟨fuel - done.length - 1, by rw [List.length_append] at enough; omega⟩
  have next (transpos : Nat) := @decodeLoop_beginning _ _ _ rest
    ⟨data, session.reados.pos + (done.flatMap (·.frame)).length, transpos⟩ kept capacity
    (pos_behind kept within content) (by rw [unread_behind content]; exact begun')
    (fun sent member => word sent (by simp [member])) spare ⟨.recving, session.status.closeReason⟩
  simp only [unread_behind content] at next
  obtain ⟨transpos, looped⟩ := decodeLoop_frames done kept capacity within content next
  rw [List.append_nil] at looped
  obtain ⟨shrunk, lower, still, less, unchanged⟩ := tryShrink_spec
    (show Octets.Valid (Octetsstream.data ⟨data, session.reados.pos + (done.flatMap (·.frame)).length, transpos⟩) from kept)
    (pos_behind kept within content)
  rw [unread_behind content] at still
  obtain ⟨erased, left, shorter, block⟩ := erase_front valid' few.1
  refine ⟨done, rest, _, rfl, onRecv_of_decodeLoop moving appended looped, ⟨shrunk, erased, ⟨?_, ?_⟩, lower, ?_⟩, ?_, left,
    shorter, ?_⟩
  · rw [unchanged, same]
    exact small.1
  · rw [block]
    exact small.2
  · rw [still]
    exact begun'
  · rw [still]
    exact whole
  · rw [still]
    split
    next inHeader => simp [SessionStatus.setClose, SessionStatus.isClose, inHeader]
    next outside => simp [SessionStatus.isClose, outside]

/-- A beginning that stands inside a header is one whose header does not pop. -/
theorem headerCut_iff {todo : List (Registered methods stubs)} {os : Octetsstream} (valid : os.data.Valid)
    (bound : os.size ≤ 2 ^ 63) (inside : os.pos ≤ os.size) (begun : Beginning os.unread todo)
    (word : ∀ sent ∈ todo, sent.payload.length < wordSize) : InsideHeader todo os.unread.length ↔ os.HeaderCut := by
  cases todo with
  | nil =>
    simp only [InsideHeader, Octetsstream.HeaderCut, false_iff, not_and]
    exact fun some => absurd begun some
  | cons one others =>
    rw [insideHeader_of_beginning begun]
    refine and_congr_right fun some => ⟨fun short => ?_, fun cut => ?_⟩
    · have partly : os.unread <+: one.header :=
        List.prefix_of_prefix_length_le begun.1 (List.prefix_append one.header one.payload) (Nat.le_of_lt short)
      have missing : os.unread ≠ one.header := fun same => by simp [same] at short
      obtain ⟨after, thrown, -⟩ := popHeader_throws valid bound inside partly missing
      intro answer stopped popped
      rw [thrown] at popped
      cases popped
    · by_contra long
      obtain ⟨part, content⟩ := List.prefix_of_prefix_length_le (List.prefix_append one.header one.payload) begun.1
        (Nat.le_of_not_lt long)
      exact cut _ _ (popHeader_reads _ (word one (by simp)) os part valid bound inside content.symm)

/-- Where something waits in the buffer, a call advances exactly when the stream has room, or when
what it holds ends inside a header. -/
theorem Buffered.advances_iff {session : Session} {todo : List (Registered methods stubs)} {fuel : Nat}
    (buffered : Buffered session todo) (cut : session.reados.unread ++ session.readbuf.bytes <+: todo.flatMap (·.frame))
    (word : ∀ sent ∈ todo, sent.payload.length < wordSize) (enough : todo.length < fuel) (waiting : 0 < session.readbuf.len) :
    session.Advances methods stubs fuel ↔ 0 < session.reados.data.freeSpace ∨ session.reados.HeaderCut := by
  obtain ⟨done, rest, after, rfl, called, -, moved, -, shorter, closes⟩ := onRecv_buffered buffered cut word enough
  by_cases room : 0 < session.reados.data.freeSpace
  · refine ⟨fun _ => .inl room, fun _ => ⟨_, after, called, .inl ?_⟩⟩
    omega
  · have full : min session.readbuf.len session.reados.data.freeSpace = 0 := by omega
    rw [full, List.take_zero, List.append_nil] at moved
    rw [full] at shorter
    -- nothing was taken over, so the frame at the cursor is still incomplete
    have none_done : done = [] := by
      cases done with
      | nil => rfl
      | cons one others =>
        have short := buffered.begun.2
        rw [moved, List.flatMap_cons, List.append_assoc, List.length_append] at short
        omega
    subst none_done
    rw [List.flatMap_nil, List.nil_append] at moved
    have bound : session.reados.size ≤ 2 ^ 63 := Nat.le_trans buffered.reados buffered.small.1
    have header := headerCut_iff buffered.reados bound buffered.inside buffered.begun word
    rw [List.nil_append] at header
    rw [← moved, header] at closes
    constructor
    · rintro ⟨messages, after', called', progress⟩
      rw [called] at called'
      cases called'
      rcases progress with taken | dispatched | closing
      · omega
      · exact absurd rfl dispatched
      · exact .inr (closes.1 closing)
    · intro condition
      exact ⟨[], after, called, .inr (.inr (closes.2 (condition.resolve_left room)))⟩

/-- Along a run, with what is still to arrive. -/
private def Following (sent : List (Registered methods stubs)) (session : Session) (actions : List ReadAction) : Prop :=
  ∃ todo : List (Registered methods stubs), Buffered session todo ∧ todo <:+ sent ∧
    session.reados.unread ++ session.readbuf.bytes ++ arrivals actions <+: todo.flatMap (·.frame)

private theorem following_step {sent : List (Registered methods stubs)} {fuel : Nat} {session after : Session}
    {action : ReadAction} {rest : List ReadAction} (word : ∀ one ∈ sent, one.payload.length < wordSize)
    (enough : sent.length < fuel) (following : Following sent session (action :: rest))
    (stepped : session.readStep methods stubs fuel action = some after) : Following sent after rest := by
  obtain ⟨todo, buffered, suffix, cut⟩ := following
  cases action with
  | arrive chunk =>
    simp only [Session.readStep, Option.ite_none_right_eq_some, Option.some.injEq] at stepped
    obtain ⟨fits, rfl⟩ := stepped
    obtain ⟨kept, bytes⟩ := arrive_buffered buffered fits
    refine ⟨todo, kept, suffix, ?_⟩
    rw [bytes]
    simpa [arrivals, Session.arrive] using cut
  | onRecv =>
    have whole : session.reados.unread ++ session.readbuf.bytes <+: todo.flatMap (·.frame) :=
      (List.prefix_append ..).trans cut
    obtain ⟨done, left, after', rfl, called, kept, moved, bytes, -⟩ := onRecv_buffered buffered whole
      (fun one member => word one (suffix.subset member)) (Nat.lt_of_le_of_lt suffix.length_le enough)
    simp only [Session.readStep, called, Option.some.injEq] at stepped
    subst stepped
    refine ⟨left, kept, (List.suffix_append ..).trans suffix, ?_⟩
    rw [bytes]
    rw [← List.take_append_drop (min session.readbuf.len session.reados.data.freeSpace) session.readbuf.bytes,
      ← List.append_assoc session.reados.unread, moved, List.flatMap_append, List.append_assoc, List.append_assoc,
      List.prefix_append_right_inj] at cut
    simpa [arrivals] using cut

private theorem create_following {readBufferSize : Nat} {session : Session} {sent : List (Registered methods stubs)}
    {actions : List ReadAction} (created : Session.create readBufferSize = .ok session)
    (stream : arrivals actions <+: sent.flatMap (·.frame)) :
    Following sent session actions ∧ readBufferSize ≤ 2 ^ 63 := by
  unfold Session.create at created
  cases reserved : Octets.new.reserve readBufferSize with
  | error thrown => simp [reserved, bind, Except.bind] at created
  | ok block =>
    simp only [reserved, bind, Except.bind, pure, Except.pure, Except.ok.injEq] at created
    subst created
    obtain ⟨valid, empty, small, large⟩ := reserve_new reserved
    have nothing : block.bytes = [] := by simp [Octets.bytes, empty]
    have unread : Octetsstream.unread ⟨block, 0, 0⟩ = [] := by simp [Octetsstream.unread, nothing]
    refine ⟨⟨sent, ⟨valid, valid, ⟨small, small⟩, Nat.zero_le _, ?_⟩, List.suffix_rfl, ?_⟩, Nat.le_trans large small⟩
    · rw [unread]
      cases sent with
      | nil => rfl
      | cons one others => exact ⟨List.nil_prefix, frame_pos one⟩
    · rw [unread, nothing]
      exact stream

/-- In every state that a stream of frames can lead to, with something left in `_readbuf`, `on_recv`
advances exactly when `_reados` has room or ends inside a header. -/
theorem advances_iff_room_or_headerCut (methods : ProtocolMethods μ) (stubs : Stubs μ) (readBufferSize fuel : Nat)
    (sent : List (Registered methods stubs)) (fits : ∀ one ∈ sent, one.frame.length ≤ readBufferSize)
    (enough : sent.length < fuel) (start : Session) (created : Session.create readBufferSize = .ok start)
    (actions : List ReadAction) (stream : arrivals actions <+: sent.flatMap (·.frame)) (session : Session)
    (ran : actions.foldlM (Session.readStep methods stubs fuel) start = some session) (waiting : 0 < session.readbuf.len) :
    session.Advances methods stubs fuel ↔ 0 < session.reados.data.freeSpace ∨ session.reados.HeaderCut := by
  obtain ⟨following, small⟩ := create_following created stream
  have word (one : Registered methods stubs) (member : one ∈ sent) : one.payload.length < wordSize := by
    have short := fits one member
    rw [Registered.frame, frame_eq, List.length_append] at short
    simp only [wordSize]
    omega
  obtain ⟨todo, buffered, suffix, cut⟩ := (Run.of_foldlM ran).invariant_of_rest (Following sent)
    (fun before stepped => following_step word enough before stepped) following
  rw [arrivals, List.append_nil] at cut
  exact buffered.advances_iff cut (fun one member => word one (suffix.subset member))
    (Nat.lt_of_le_of_lt suffix.length_le enough) waiting

/-- A frame of four bytes. -/
def fourBytes : Registered octetsRegistry.methods octetsRegistry.stubs := (octetsOutgoing [7] (by decide)).toRegistered

private theorem fourBytes_frame : fourBytes.frame = [1, 2, 1, 7] := by decide +kernel

def sixteenBytes : List UInt8 := [1, 2, 1, 7, 1, 2, 1, 7, 1, 2, 1, 7, 1, 2, 1, 7]

def emptySession : Session := ⟨⟨.none, .none⟩, ⟨Octets.new, 0, 0⟩, Octets.new⟩

/-- The first frame has arrived and has not been looked at. -/
def waitingSession : Session :=
  ⟨⟨.none, .none⟩, ⟨Octets.new, 0, 0⟩, ⟨[1, 2, 1, 7] ++ List.replicate 12 0, 4⟩⟩

theorem advances_of_first_frame :
    List.foldlM (Session.readStep octetsRegistry.methods octetsRegistry.stubs 2) emptySession [.arrive [1, 2, 1, 7]] =
        some waitingSession ∧ waitingSession.Advances octetsRegistry.methods octetsRegistry.stubs 2 := by
  have ran : List.foldlM (Session.readStep octetsRegistry.methods octetsRegistry.stubs 2) emptySession
      [.arrive [1, 2, 1, 7]] = some waitingSession := by decide +kernel
  refine ⟨ran, (advances_iff_room_or_headerCut octetsRegistry.methods octetsRegistry.stubs 16 2 [fourBytes] ?_ (by decide)
    emptySession rfl _ ?_ waitingSession ran (by decide)).2 (.inl (by decide))⟩
  · intro one member
    rw [List.mem_singleton.1 member, fourBytes_frame]
    decide
  · rw [List.flatMap_singleton, fourBytes_frame]
    exact List.prefix_rfl

/-- Four frames have filled the block and have been decoded, and a fifth has arrived. -/
def stalledSession : Session :=
  ⟨⟨.recving, .none⟩, ⟨⟨sixteenBytes, 16⟩, 16, 12⟩, ⟨[1, 2, 1, 7] ++ sixteenBytes.drop 4, 4⟩⟩

theorem fifth_frame_stalls :
    Session.create 16 = .ok emptySession ∧ sixteenBytes ++ [1, 2, 1, 7] = (List.replicate 5 fourBytes).flatMap (·.frame) ∧
      List.foldlM (Session.readStep octetsRegistry.methods octetsRegistry.stubs 6) emptySession
          [.arrive sixteenBytes, .onRecv, .arrive [1, 2, 1, 7]] = some stalledSession ∧
      0 < stalledSession.readbuf.len ∧ ¬ stalledSession.Advances octetsRegistry.methods octetsRegistry.stubs 6 := by
  have frames : sixteenBytes ++ [1, 2, 1, 7] = (List.replicate 5 fourBytes).flatMap (·.frame) := by
    simp only [List.replicate, List.flatMap_cons, List.flatMap_nil, fourBytes_frame]
    decide
  refine ⟨rfl, frames, by decide +kernel, by decide, fun advances => ?_⟩
  have unread : stalledSession.reados.unread = [] := by decide
  have buffered : Buffered stalledSession [fourBytes] := by
    refine ⟨Nat.le_refl 16, Nat.le_of_ble_eq_true rfl, by decide, by decide, ?_⟩
    rw [unread]
    exact ⟨List.nil_prefix, frame_pos fourBytes⟩
  have cut : stalledSession.reados.unread ++ stalledSession.readbuf.bytes <+: [fourBytes].flatMap (·.frame) := by
    rw [unread, List.flatMap_singleton, fourBytes_frame]
    decide
  have word (one) (member : one ∈ [fourBytes]) : one.payload.length < wordSize := by
    rw [List.mem_singleton.1 member]
    decide +kernel
  rcases (buffered.advances_iff cut word (by decide) (by decide)).1 advances with room | header
  · revert room
    decide
  · exact header.1 unread

end Proofs
end Cassobee
