import Cassobee.Proofs.Framing

/-! What `protocol::decode` makes of the bytes at the cursor: a whole frame, a frame whose payload
is still on its way, or a frame cut inside its header. Only the last one closes the session. -/

namespace Cassobee

/-- The id and the size of the payload. -/
def header (id : ProtocolId) (payload : List UInt8) : List UInt8 :=
  writeVarint id.toNat ++ writeVarint payload.length

namespace Proofs
variable {μ : Type} {methods : ProtocolMethods μ} {stubs : Stubs μ}

/-- The message's class is registered, and its `unpack` reads back what its `pack` appends. -/
structure Carries (methods : ProtocolMethods μ) (stubs : Stubs μ) (message : μ) (payload : List UInt8) : Prop where
  packs : Appends (methods.pack message) payload
  unpacks : ∃ stub, stubs (methods.getType message) = some stub ∧ Reads (methods.unpack stub) payload message

/-- The messages of a registered class are carried as soon as its type round-trips. -/
theorem registry_carries (registry : Registry) {message : registry.Message} (known : registry.registered message.1)
    (clean : (registry.type message.1).Clean) (fits : (registry.type message.1).Fits message.2) :
    Carries registry.methods registry.stubs message ((registry.type message.1).encode message.2) where
  packs := push_appends _ fits
  unpacks := by
    refine ⟨⟨message.1, (registry.type message.1).default⟩, by simp [Registry.stubs, Registry.methods, known], ?_⟩
    have read := (pop_reads _ fits (registry.type message.1).default).map (Sigma.mk (β := registry.Fields) message.1)
    rwa [merge_fresh _ clean.2 clean.1] at read

theorem frame_eq (id : ProtocolId) (payload : List UInt8) : frame id payload = header id payload ++ payload := rfl

theorem header_ne_nil (id : ProtocolId) (payload : List UInt8) : header id payload ≠ [] := by
  simp [header, writeVarint_ne_nil]

theorem dataReady_iff {os : Octetsstream} (valid : os.data.Valid) (bound : os.size ≤ 2 ^ 63) (inside : os.pos ≤ os.size)
    (len : Nat) : os.dataReady len = true ↔ len ≤ os.unread.length := by
  have difference : (os.data.len + wordSize - os.pos) % wordSize = os.size - os.pos := by
    simp only [Octetsstream.size, wordSize] at *
    omega
  simp only [Octetsstream.dataReady, difference, unread_length valid, decide_eq_true_eq]

/-- Nothing at the cursor: `decode` returns at once. -/
theorem decode_nothing {os : Octetsstream} (valid : os.data.Valid) (bound : os.size ≤ 2 ^ 63) (inside : os.pos ≤ os.size)
    (nothing : os.unread = []) (status : SessionStatus) :
    decode methods stubs status os = .ok (none, status) os := by
  have empty : os.dataReady 1 = false := by
    rw [Bool.eq_false_iff, ne_eq, dataReady_iff valid bound inside, nothing]
    simp
  simp [decode, empty]

private theorem ready_of_ne_nil {os : Octetsstream} (valid : os.data.Valid) (bound : os.size ≤ 2 ^ 63)
    (inside : os.pos ≤ os.size) (some : os.unread ≠ []) : os.dataReady 1 = true := by
  rw [dataReady_iff valid bound inside]
  exact List.length_pos_of_ne_nil some

theorem popHeader_reads (id : ProtocolId) {payload : List UInt8} (word : payload.length < wordSize) :
    Reads popHeader (header id payload) (id, payload.length) :=
  (popCompactu32_reads id).bind ((popSize_reads word).map fun size => (id, size))

/-- A header that is not all there makes one of the two pops throw. -/
theorem popHeader_throws {id : ProtocolId} {payload : List UInt8} {os : Octetsstream} (valid : os.data.Valid)
    (bound : os.size ≤ 2 ^ 63) (inside : os.pos ≤ os.size) (partly : os.unread <+: header id payload)
    (missing : os.unread ≠ header id payload) :
    ∃ after, popHeader os = .error (.exception "varint decode failed") after ∧ after.data = os.data ∧
      after.transpos = os.transpos := by
  by_cases cut : os.unread <+: writeVarint id.toNat ∧ os.unread ≠ writeVarint id.toNat
  · refine ⟨os, ?_, rfl, rfl⟩
    rw [popHeader, popCompactu32]
    exact run_bind_error (run_bind_error (popCompact_throws cut.1 cut.2))
  · -- the id is all there, so the size is not
    obtain ⟨part, content⟩ : ∃ part, os.unread = writeVarint id.toNat ++ part := by
      rcases List.prefix_or_prefix_of_prefix partly (List.prefix_append _ (writeVarint payload.length)) with
        shorter | longer
      · exact ⟨[], by simpa using Classical.not_not.mp fun different => cut ⟨shorter, different⟩⟩
      · obtain ⟨part, same⟩ := longer
        exact ⟨part, same.symm⟩
    let read : Octetsstream := { os with pos := os.pos + (writeVarint id.toNat).length }
    have behind : read.unread = part := unread_behind content os.transpos
    rw [content, header] at partly missing
    have thrown : popCompact read = .error (.exception "varint decode failed") read := by
      refine popCompact_throws (show read.unread <+: writeVarint payload.length from ?_) ?_
      · rw [behind]
        exact (List.prefix_append_right_inj _).mp partly
      · rw [behind]
        exact fun same => missing (by rw [same])
    refine ⟨read, ?_, rfl, rfl⟩
    rw [popHeader, run_bind (popCompactu32_reads id os part valid bound inside content), popSize, popCompactu64]
    exact run_bind_error (run_bind_error (run_bind_error thrown))

private theorem payload_word {os : Octetsstream} {id : ProtocolId} {payload rest : List UInt8}
    (valid : os.data.Valid) (bound : os.size ≤ 2 ^ 63) (content : os.unread = header id payload ++ rest)
    (whole : payload.length ≤ rest.length) : payload.length < wordSize := by
  have total := unread_length valid
  rw [content, List.length_append] at total
  simp only [wordSize]
  omega

/-- A whole frame of a registered message is returned, and the cursor moves behind it. -/
theorem decode_frame {message : μ} {payload : List UInt8} (carried : Carries methods stubs message payload)
    {os : Octetsstream} {rest : List UInt8} (valid : os.data.Valid) (bound : os.size ≤ 2 ^ 63)
    (inside : os.pos ≤ os.size) (content : os.unread = frame (methods.getType message) payload ++ rest)
    (status : SessionStatus) :
    decode methods stubs status os = .ok (some message, status)
      { os with pos := os.pos + (frame (methods.getType message) payload).length, transpos := os.pos } := by
  obtain ⟨stub, known, unpacks⟩ := carried.unpacks
  rw [frame_eq, List.append_assoc] at content
  have ready := ready_of_ne_nil valid bound inside (by simp [content, header_ne_nil])
  let begun : Octetsstream := { os with transpos := os.pos }
  have word := payload_word valid bound content (by simp)
  have popped := popHeader_reads (methods.getType message) word begun (payload ++ rest) valid bound inside content
  let headed : Octetsstream := { begun with pos := os.pos + (header (methods.getType message) payload).length }
  have stays : headed.pos ≤ headed.size := pos_behind valid inside content
  have behind : headed.unread = payload ++ rest := unread_behind content _
  have here : headed.dataReady payload.length = true := by
    rw [dataReady_iff (show headed.data.Valid from valid) bound stays, behind]
    simp
  have unpacked := (unpacks.map DecodeStep.message) headed rest valid bound stays behind
  have body : decodeBody methods stubs os = .ok (.message message)
      { os with pos := os.pos + (frame (methods.getType message) payload).length, transpos := os.pos } := by
    rw [decodeBody, run_bind (show popTransaction .begin os = .ok () begun from rfl), run_bind popped]
    simp only [decodePayload]
    rw [show ({ begun with pos := begun.pos + (header (methods.getType message) payload).length } : Octetsstream) =
      headed from rfl, if_pos here, known]
    simp only
    rw [unpacked, frame_eq, List.length_append, ← Nat.add_assoc]
  simp only [decode, ready, if_true, body]

/-- The header is there but not the payload: the cursor goes back and nothing else happens. -/
theorem decode_wait {id : ProtocolId} {payload part : List UInt8} (word : payload.length < wordSize)
    {os : Octetsstream} (valid : os.data.Valid) (bound : os.size ≤ 2 ^ 63) (inside : os.pos ≤ os.size)
    (content : os.unread = header id payload ++ part) (short : part.length < payload.length)
    (status : SessionStatus) :
    decode methods stubs status os = .ok (none, status) { os with transpos := os.pos } := by
  have ready := ready_of_ne_nil valid bound inside (by simp [content, header_ne_nil])
  let begun : Octetsstream := { os with transpos := os.pos }
  have popped := popHeader_reads id word begun part valid bound inside content
  let headed : Octetsstream := { begun with pos := os.pos + (header id payload).length }
  have stays : headed.pos ≤ headed.size := pos_behind valid inside content
  have behind : headed.unread = part := unread_behind content _
  have absent : ¬ headed.dataReady payload.length = true := by
    rw [dataReady_iff (show headed.data.Valid from valid) bound stays, behind]
    omega
  have back : popTransaction .rollback headed = .ok () begun := by
    simp only [popTransaction]
    rw [if_neg (by simp only [headed, begun, Octetsstream.size] at stays inside ⊢; omega)]
  have body : decodeBody methods stubs os = .ok .wait begun := by
    rw [decodeBody, run_bind (show popTransaction .begin os = .ok () begun from rfl), run_bind popped]
    simp only [decodePayload]
    rw [show ({ begun with pos := begun.pos + (header id payload).length } : Octetsstream) = headed from rfl,
      if_neg absent, run_bind back]
    rfl
  simp only [decode, ready, if_true, body]
  rfl

/-- A frame cut inside its header looks malformed: the session is closed. -/
theorem decode_cut_header {id : ProtocolId} {payload : List UInt8} {os : Octetsstream} (valid : os.data.Valid)
    (bound : os.size ≤ 2 ^ 63) (inside : os.pos ≤ os.size) (some : os.unread ≠ [])
    (partly : os.unread <+: header id payload) (missing : os.unread ≠ header id payload) (status : SessionStatus) :
    decode methods stubs status os = .ok (none, status.setClose .exception) { os with transpos := os.pos } := by
  have ready := ready_of_ne_nil valid bound inside some
  let begun : Octetsstream := { os with transpos := os.pos }
  obtain ⟨after, thrown, data, transpos⟩ := popHeader_throws (show begun.data.Valid from valid) bound inside partly missing
  have body : decodeBody methods stubs os = .error (.exception "varint decode failed") after := by
    rw [decodeBody, run_bind (show popTransaction .begin os = .ok () begun from rfl), run_bind_error thrown]
  have back : popTransaction .rollback after = .ok () { after with pos := os.pos } := by
    simp only [popTransaction, transpos, data, begun]
    rw [if_neg (by simp only [Octetsstream.size] at inside; omega)]
  simp only [decode, ready, if_true, body]
  rw [run_bind back]
  obtain ⟨afterData, afterPos, afterTranspos⟩ := after
  simp only [begun] at data transpos
  simp only [data, transpos]
  rfl

end Proofs
end Cassobee
