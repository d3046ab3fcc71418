import Cassobee.Proofs.Decode

/-! Whole sequences of messages through one stream. Encoding one after another leaves their frames
and the decoding loop returns them, exactly when the table has the right row for every payload. -/

namespace Cassobee
variable {μ : Type}

namespace Proofs
variable {methods : ProtocolMethods μ} {stubs : Stubs μ}

/-- A message with the payload that its class writes and reads. -/
structure Registered (methods : ProtocolMethods μ) (stubs : Stubs μ) where
  message : μ
  payload : List UInt8
  carried : Carries methods stubs message payload

/-- A message on its way out, with the size guessed for it and what the storage of the emptied
vector holds at that moment. -/
structure Outgoing (methods : ProtocolMethods μ) (stubs : Stubs μ) extends Registered methods stubs where
  guessSize : Nat
  guessWord : guessSize < wordSize
  stale : Nat → UInt8

def Registered.header (sent : Registered methods stubs) : List UInt8 :=
  Cassobee.header (methods.getType sent.message) sent.payload

def Registered.frame (sent : Registered methods stubs) : List UInt8 :=
  Cassobee.frame (methods.getType sent.message) sent.payload

def encodeEach : List (Outgoing methods stubs) → StreamM Unit
  | [] => pure ()
  | sent :: others => do
    encodeGuess methods sent.guessSize sent.stale sent.message
    encodeEach others

/-! ## Encoding -/

/-- What `protocol::encode` really appends. -/
private def written (sent : Outgoing methods stubs) : List UInt8 :=
  writeVarint (methods.getType sent.message).toNat ++
    (writeVarint sent.payload.length).take (getCompactIntSize sent.payload.length) ++ sent.payload

private theorem length_written_eq_iff (sent : Outgoing methods stubs) (word : sent.payload.length < wordSize) :
    (written sent).length = sent.frame.length ↔ TableRowExact sent.payload.length := by
  obtain ⟨-, short, -⟩ := getCompactIntSize_bounds word
  rw [tableRowExact_iff word]
  simp only [written, Registered.frame, Cassobee.frame, List.length_append, List.length_take]
  omega

private theorem written_eq_frame (sent : Outgoing methods stubs) (word : sent.payload.length < wordSize)
    (exact : TableRowExact sent.payload.length) : written sent = sent.frame := by
  rw [tableRowExact_iff word] at exact
  rw [written, exact, List.take_length]
  rfl

/-- Headers take at most twenty bytes; the guessed field is there for a moment too. -/
def roomFor (outgoing : List (Outgoing methods stubs)) : Nat :=
  (outgoing.map fun sent => sent.payload.length + 32).sum

private theorem roomFor_cons (sent : Outgoing methods stubs) (others : List (Outgoing methods stubs)) :
    roomFor (sent :: others) = sent.payload.length + 32 + roomFor others := by
  simp [roomFor]

private theorem written_short (sent : Outgoing methods stubs) (word : sent.payload.length < wordSize) :
    (written sent).length ≤ sent.frame.length ∧ (written sent).length ≤ sent.payload.length + 32 := by
  obtain ⟨-, short, narrow⟩ := getCompactIntSize_bounds word
  have idBytes : (writeVarint (methods.getType sent.message).toNat).length ≤ 10 :=
    length_writeVarint_le (Nat.lt_trans (methods.getType sent.message).isLt (by decide))
  simp only [written, Registered.frame, Cassobee.frame, List.length_append, List.length_take]
  omega

private theorem encodeEach_layout (outgoing : List (Outgoing methods stubs)) {os : Octetsstream} (valid : os.data.Valid)
    (room : os.size + roomFor outgoing ≤ 2 ^ 63) :
    ∃ data, encodeEach outgoing os = .ok () { os with data } ∧ data.Valid ∧
      data.bytes = os.bytes ++ outgoing.flatMap written ∧ data.len ≤ os.size + roomFor outgoing := by
  induction outgoing generalizing os with
  | nil => exact ⟨os.data, rfl, valid, by simp [Octetsstream.bytes], by simp [Octetsstream.size]⟩
  | cons sent others ih =>
    rw [roomFor_cons] at room ⊢
    obtain ⟨data, encoded, kept, content⟩ :=
      encodeGuess_layout sent.carried.packs valid (by omega) sent.guessWord sent.stale
    have content : data.bytes = os.bytes ++ written sent := by simpa [written] using content
    have size := appended_size valid kept content
    obtain ⟨-, small⟩ := written_short sent (by simp only [wordSize]; omega)
    obtain ⟨final, rest, still, result, total⟩ := ih (show Octets.Valid (Octetsstream.data { os with data }) from kept)
      (by simp only [Octetsstream.size] at size room ⊢; omega)
    refine ⟨final, ?_, still, ?_, ?_⟩
    · rw [encodeEach, run_bind encoded]
      exact rest
    · rw [result, Octetsstream.bytes, content, List.flatMap_cons, List.append_assoc]
    · simp only [Octetsstream.size] at size total ⊢
      omega

/-- Too short a field anywhere makes the whole stream too short. -/
private theorem written_eq_frames_iff (outgoing : List (Outgoing methods stubs)) (room : roomFor outgoing ≤ 2 ^ 63) :
    outgoing.flatMap written = outgoing.flatMap (·.frame) ↔
      ∀ sent ∈ outgoing, TableRowExact sent.payload.length := by
  have lengths : (outgoing.flatMap written).length ≤ (outgoing.flatMap (·.frame)).length ∧
      ((outgoing.flatMap written).length = (outgoing.flatMap (·.frame)).length →
        ∀ sent ∈ outgoing, TableRowExact sent.payload.length) ∧
      ((∀ sent ∈ outgoing, TableRowExact sent.payload.length) →
        outgoing.flatMap written = outgoing.flatMap (·.frame)) := by
    induction outgoing with
    | nil => simp
    | cons sent others ih =>
      rw [roomFor_cons] at room
      have word : sent.payload.length < wordSize := by simp only [wordSize]; omega
      obtain ⟨less, equal, same⟩ := ih (by omega)
      obtain ⟨short, -⟩ := written_short sent word
      simp only [List.flatMap_cons, List.length_append, List.forall_mem_cons]
      refine ⟨by omega, fun total => ⟨(length_written_eq_iff sent word).mp (by omega), equal (by omega)⟩, ?_⟩
      rintro ⟨exact, rest⟩
      rw [written_eq_frame sent word exact, same rest]
  exact ⟨fun same => lengths.2.1 (congrArg List.length same), lengths.2.2⟩

/-! ## Decoding -/

theorem decodeLoop_nothing {os : Octetsstream} (valid : os.data.Valid) (bound : os.size ≤ 2 ^ 63)
    (inside : os.pos ≤ os.size) (nothing : os.unread = []) (fuel : Nat) (status : SessionStatus) :
    decodeLoop methods stubs (fuel + 1) status os = .ok (some ([], status)) os := by
  rw [decodeLoop, run_bind (decode_nothing valid bound inside nothing status)]
  rfl

/-- The loop returns the messages of whole frames, and then whatever it makes of the rest. -/
theorem decodeLoop_frames (sent : List (Registered methods stubs)) {os : Octetsstream} {rest : List UInt8}
    {status final : SessionStatus} {later : List μ} {fuel : Nat} (valid : os.data.Valid) (bound : os.size ≤ 2 ^ 63)
    (inside : os.pos ≤ os.size) (content : os.unread = sent.flatMap (·.frame) ++ rest)
    (next : ∀ transpos, ∃ transpos', decodeLoop methods stubs fuel status
        ⟨os.data, os.pos + (sent.flatMap (·.frame)).length, transpos⟩ =
      .ok (some (later, final)) ⟨os.data, os.pos + (sent.flatMap (·.frame)).length, transpos'⟩) :
    ∃ transpos', decodeLoop methods stubs (sent.length + fuel) status os =
      .ok (some (sent.map (·.message) ++ later, final))
        ⟨os.data, os.pos + (sent.flatMap (·.frame)).length, transpos'⟩ := by
  induction sent generalizing os with
  | nil => simpa using next os.transpos
  | cons one others ih =>
    rw [List.flatMap_cons, List.append_assoc] at content
    rw [List.flatMap_cons, List.length_append, ← Nat.add_assoc] at next ⊢
    have decoded := decode_frame one.carried valid bound inside content status
    obtain ⟨transpos', looped⟩ := ih (show Octets.Valid (Octetsstream.data ⟨os.data, os.pos + one.frame.length, os.pos⟩) from valid) bound
      (pos_behind valid inside content) (unread_behind content os.pos) next
    refine ⟨transpos', ?_⟩
    rw [List.length_cons, Nat.add_right_comm, decodeLoop, run_bind decoded]
    exact run_bind looped

/-! ## Both -/

/-- Encoding leaves the frames behind the earlier content, and decoding from there returns the
messages in their order and stops at the last byte. -/
def FramesRoundTrip (outgoing : List (Outgoing methods stubs)) (os : Octetsstream) (status : SessionStatus) : Prop :=
  ∃ encoded, encodeEach outgoing os = .ok () encoded ∧
    encoded.bytes = os.bytes ++ outgoing.flatMap (·.frame) ∧
    ∀ fuel > outgoing.length, ∃ after,
      decodeLoop methods stubs fuel status { encoded with pos := os.size } =
        .ok (some (outgoing.map (·.message), status)) after ∧
      after.data = encoded.data ∧ after.pos = encoded.size

private theorem framesRoundTrip_forward {outgoing : List (Outgoing methods stubs)} {os : Octetsstream}
    (valid : os.data.Valid) (room : os.size + roomFor outgoing ≤ 2 ^ 63) {status : SessionStatus}
    (trip : FramesRoundTrip outgoing os status) : ∀ sent ∈ outgoing, TableRowExact sent.payload.length := by
  obtain ⟨data, encoded, -, content, -⟩ := encodeEach_layout outgoing valid room
  obtain ⟨other, again, frames, -⟩ := trip
  obtain rfl : other = { os with data } := by simpa using again.symm.trans encoded
  exact (written_eq_frames_iff outgoing (by omega)).mp (List.append_cancel_left (content.symm.trans frames))

/-- The stream is right for exactly those messages whose payload size has its row in the table. -/
theorem framesRoundTrip_iff_tableRowExact (outgoing : List (Outgoing methods stubs)) {os : Octetsstream}
    (valid : os.data.Valid) (room : os.size + roomFor outgoing ≤ 2 ^ 63) (status : SessionStatus) :
    FramesRoundTrip outgoing os status ↔ ∀ sent ∈ outgoing, TableRowExact sent.payload.length := by
  refine ⟨framesRoundTrip_forward valid room, fun exact => ?_⟩
  obtain ⟨data, encoded, kept, content, total⟩ := encodeEach_layout outgoing valid room
  rw [(written_eq_frames_iff outgoing (by omega)).mpr exact] at content
  refine ⟨{ os with data }, encoded, content, fun fuel enough => ?_⟩
  let start : Octetsstream := { os with data, pos := os.size }
  have size : data.len = os.size + (outgoing.flatMap (·.frame)).length := appended_size valid kept content
  have frames : (outgoing.map (·.toRegistered)).flatMap (·.frame) = outgoing.flatMap (·.frame) := List.flatMap_map ..
  have inside : start.pos ≤ start.size := by simp only [start, Octetsstream.size] at size ⊢; omega
  have unread : start.unread = (outgoing.map (·.toRegistered)).flatMap (·.frame) ++ [] := by
    have front : os.bytes.length = os.size := length_bytes valid
    rw [frames, List.append_nil, Octetsstream.unread, content, List.drop_left' front]
  obtain ⟨spare, rfl⟩ : ∃ spare, fuel = (outgoing.map (·.toRegistered)).length + (spare + 1) :=
    ⟨fuel - outgoing.length - 1, by rw [List.length_map]; omega⟩
  have bound : start.size ≤ 2 ^ 63 := Nat.le_trans total room
  have finish (transpos : Nat) :=
    @decodeLoop_nothing _ methods stubs ⟨data, _, transpos⟩ kept bound (pos_behind kept inside unread)
      (unread_behind unread transpos) spare status
  obtain ⟨transpos, looped⟩ := decodeLoop_frames _ kept bound inside unread fun transpos => ⟨transpos, finish transpos⟩
  rw [List.map_map, List.append_nil, frames] at looped
  exact ⟨_, looped, rfl, size.symm⟩

/-- One class, number 1, that marshals an `octets`. -/
def octetsRegistry : Registry := ⟨fun _ => List UInt8, fun _ => .octets, fun id => id = 1⟩

private theorem octetsRegistry_carries {value : List UInt8} (fits : value.length < 2 ^ 63) :
    Carries octetsRegistry.methods octetsRegistry.stubs ⟨1, value⟩ (writeVarint value.length ++ value) :=
  registry_carries octetsRegistry rfl ⟨rfl, trivial⟩ fits

/-- A message of that class, guessed as `protocol::encode` guesses. -/
def octetsOutgoing (value : List UInt8) (fits : value.length < 2 ^ 63) :
    Outgoing octetsRegistry.methods octetsRegistry.stubs where
  message := ⟨1, value⟩
  payload := writeVarint value.length ++ value
  carried := octetsRegistry_carries fits
  guessSize := getProtocolGuessSize 1
  guessWord := by decide
  stale := fun _ => 0

theorem framesRoundTrip_of_three_octets :
    FramesRoundTrip [octetsOutgoing [7, 8, 9] (by decide)] Octetsstream.new ⟨.active, .none⟩ :=
  (framesRoundTrip_iff_tableRowExact _ new_valid (by decide +kernel) _).mpr (by decide +kernel)

/-- Two bytes of count and 16382 of content are 16384, whose varint takes three bytes. The table
has two for its 15 bits. -/
def longOutgoing : Outgoing octetsRegistry.methods octetsRegistry.stubs :=
  octetsOutgoing (List.replicate 16382 0) (by rw [List.length_replicate]; decide)

theorem framesRoundTrip_fails_at_16384 :
    longOutgoing.payload.length = 16384 ∧ ¬ FramesRoundTrip [longOutgoing] Octetsstream.new ⟨.active, .none⟩ := by
  have size : longOutgoing.payload.length = 16384 := by
    rw [longOutgoing, octetsOutgoing, List.length_append, List.length_replicate, length_writeVarint]
    decide
  refine ⟨size, fun trip => ?_⟩
  have room : Octetsstream.new.size + roomFor [longOutgoing] ≤ 2 ^ 63 := by
    rw [roomFor, List.map_singleton, List.sum_singleton, size]
    decide
  have exact := framesRoundTrip_forward new_valid room trip longOutgoing (by simp)
  rw [size] at exact
  exact absurd exact (by decide)

end Proofs
end Cassobee
