import Cassobee.Proofs.Decode
import Cassobee.Proofs.Grammar

/-! What `protocol::decode` does with a complete frame. Whether it gets past the frame depends on the
id alone; where it stops depends on what `unpack` finds, not on the size in the header. -/

namespace Cassobee
open Support Support.Form

/-- One class, of id 1, that holds octets. -/
def octetsSchema : Schema := ⟨fun _ => List UInt8, fun _ => .protocol (.plain .octets), fun id => id = 1⟩

def Octetsstream.ofBytes (bytes : List UInt8) : Octetsstream := ⟨⟨bytes, bytes.length⟩, 0, 0⟩

/-- `decode` has returned a message, or the session is closing. -/
def Progresses {μ : Type} (result : EStateM.Result Thrown Octetsstream (Option μ × SessionStatus)) : Prop :=
  ∃ answer status after, result = .ok (answer, status) after ∧ (answer.isSome = true ∨ status.isClose = true)

namespace Proofs
variable {μ : Type} {methods : ProtocolMethods μ} {stubs : Stubs μ}

/-- The stream at the header of a frame, and behind it. -/
structure Headed (os headed : Octetsstream) (id : ProtocolId) (size : Nat) : Prop where
  valid : os.data.Valid
  bound : os.size ≤ 2 ^ 63
  inside : os.pos ≤ os.size
  popped : popHeader { os with transpos := os.pos } = .ok (id, size) headed

private def headerForm : Form UInt8 Unit :=
  (Scalar.int false .w32).form.then fun _ => sizeForm.then fun _ => done ()

private theorem popHeader_parses : Parses popHeader headerForm fun _ => () := by
  refine (compactIntUnpack_parses false .w32).seq fun id => ?_
  exact popSize_parses.seq fun size => pure_parses (id, size) fun _ => ()

variable {os headed : Octetsstream} {id : ProtocolId} {size : Nat}

theorem Headed.behind (here : Headed os headed id size) : ∃ bytes rest, bytes ≠ [] ∧ os.unread = bytes ++ rest ∧
    headed = { os with pos := os.pos + bytes.length, transpos := os.pos } := by
  have parsed := popHeader_parses { os with transpos := os.pos } here.valid here.bound here.inside
  rw [here.popped] at parsed
  obtain ⟨bytes, rest, content, ⟨one, two, middle, rfl, ⟨id', none', value, rfl, first, -⟩, -⟩, moved⟩ := parsed
  refine ⟨_, rest, ?_, content, moved⟩
  rintro empty
  simp only [List.append_eq_nil_iff] at empty
  rw [empty.1.1] at first
  cases first

theorem Headed.ready (here : Headed os headed id size) : os.dataReady 1 = true := by
  obtain ⟨bytes, rest, some, content, -⟩ := here.behind
  rw [dataReady_iff here.valid here.bound here.inside, content, List.length_append]
  have := List.length_pos_iff.2 some
  omega

theorem Headed.after (here : Headed os headed id size) :
    headed.data = os.data ∧ headed.transpos = os.pos ∧ headed.pos ≤ headed.size := by
  obtain ⟨bytes, rest, -, content, rfl⟩ := here.behind
  exact ⟨rfl, rfl, pos_behind here.valid here.inside content⟩

theorem Headed.enough (here : Headed os headed id size) : headed.dataReady size = true ↔ size ≤ headed.unread.length := by
  obtain ⟨data, -, stays⟩ := here.after
  exact dataReady_iff (data ▸ here.valid) (by simpa [Octetsstream.size, data] using here.bound) stays size

theorem Headed.body (here : Headed os headed id size) : decodeBody methods stubs os = decodePayload methods stubs id size headed := by
  have began : popTransaction .begin os = .ok () { os with transpos := os.pos } := rfl
  rw [decodeBody, run_bind began, run_bind here.popped]

private theorem rollback_ok {after : Octetsstream} (data : after.data = os.data) (transpos : after.transpos = os.pos)
    (inside : os.pos ≤ os.size) : popTransaction .rollback after = .ok () { after with pos := os.pos } := by
  simp only [popTransaction, transpos, data]
  rw [if_neg (by simpa [Octetsstream.size] using inside)]

/-- A complete frame of an id that no class has: the cursor goes back and nothing else happens. -/
theorem decode_unknown (here : Headed os headed id size) (complete : headed.dataReady size = true)
    (unknown : stubs id = none) (status : SessionStatus) :
    ∃ after, decode methods stubs status os = .ok (none, status) after ∧ after.pos = os.pos := by
  obtain ⟨data, transpos, -⟩ := here.after
  have body : decodeBody methods stubs os = .ok .unknown headed := by
    rw [here.body, decodePayload, if_pos complete, unknown]
  refine ⟨{ headed with pos := os.pos }, ?_, rfl⟩
  simp only [decode, here.ready, if_true, body]
  rw [run_bind (rollback_ok data transpos here.inside)]
  rfl

theorem decode_unpacked (here : Headed os headed id size) (complete : headed.dataReady size = true) {stub message : μ}
    (known : stubs id = some stub) {after : Octetsstream} (run : methods.unpack stub headed = .ok message after)
    (status : SessionStatus) : decode methods stubs status os = .ok (some message, status) after := by
  have body : decodeBody methods stubs os = .ok (.message message) after := by
    rw [here.body, decodePayload, if_pos complete, known]
    exact run_bind run
  simp only [decode, here.ready, if_true, body]

/-- A complete frame of a known class: a message, or an exception that closes the session. -/
theorem decode_known (here : Headed os headed id size) (complete : headed.dataReady size = true) {stub : μ}
    (known : stubs id = some stub) {form : Form UInt8 Unit} (parses : Parses (methods.unpack stub) form fun _ => ())
    (spares : Spares (methods.unpack stub)) (status : SessionStatus) : Progresses (decode methods stubs status os) := by
  obtain ⟨data, transpos, stays⟩ := here.after
  have unpacked := parses headed (data ▸ here.valid) (by simpa [Octetsstream.size, data] using here.bound) stays
  cases run : methods.unpack stub headed with
  | ok message after => exact ⟨some message, status, after, decode_unpacked here complete known run status, .inl rfl⟩
  | error thrown after =>
    have body : decodeBody methods stubs os = .error thrown after := by
      rw [here.body, decodePayload, if_pos complete, known]
      exact run_bind_error run
    rw [run] at unpacked
    have back := rollback_ok (unpacked.1.trans data) (unpacked.2.trans transpos) here.inside
    refine ⟨none, status.setClose .exception, { after with pos := os.pos }, ?_, .inr rfl⟩
    simp only [decode, here.ready, if_true, body]
    cases thrown with
    | abort => exact absurd run (spares headed after)
    | exception | overflowError | lengthError | badAlloc =>
      change (popTransaction .rollback >>= fun _ => pure (none, status.setClose .exception) : StreamM _) after = _
      rw [run_bind back]
      rfl

private theorem unpack_stub_parses (schema : Schema) (id : ProtocolId) :
    Parses (schema.methods.unpack ⟨id, (schema.cls id).default⟩) (schema.cls id).form fun _ => () :=
  (unpack_parses (schema.cls id)).map (Sigma.mk id) fun _ _ spelled => spelled

/-- A complete frame is left behind exactly when its id is registered, unless the session is closing
anyway. -/
theorem progresses_iff_registered (schema : Schema) {os headed : Octetsstream} {id : ProtocolId} {size : Nat}
    (here : Headed os headed id size) (complete : headed.dataReady size = true) (unfilled : (schema.cls id).Unfilled)
    (status : SessionStatus) :
    Progresses (decode schema.methods schema.stubs status os) ↔ schema.registered id = true ∨ status.isClose = true := by
  by_cases known : schema.registered id = true
  · have found : schema.stubs id = some ⟨id, (schema.cls id).default⟩ := if_pos known
    have spares : Spares (schema.methods.unpack ⟨id, (schema.cls id).default⟩) :=
      (unpack_spares (schema.cls id) unfilled).map (Sigma.mk id)
    exact ⟨fun _ => .inl known, fun _ => decode_known here complete found (unpack_stub_parses schema id) spares status⟩
  · have missing : schema.stubs id = none := if_neg known
    obtain ⟨after, waits, -⟩ := decode_unknown here complete missing status
    constructor
    · rintro ⟨answer, status', stopped, same, moved⟩
      rw [waits] at same
      cases same
      exact .inr (moved.resolve_left (by simp))
    · intro closing
      exact ⟨none, status, after, waits, .inr (closing.resolve_left known)⟩

/-- The stream behind the two bytes of a header. -/
def behindHeader (bytes : List UInt8) : Octetsstream := ⟨⟨bytes, bytes.length⟩, 2, 0⟩

private theorem headed_of_two {bytes : List UInt8} {id : ProtocolId} {size : Nat} (short : bytes.length ≤ 2 ^ 63)
    (popped : popHeader (.ofBytes bytes) = .ok (id, size) (behindHeader bytes)) :
    Headed (.ofBytes bytes) (behindHeader bytes) id size :=
  ⟨Nat.le_refl _, short, Nat.zero_le _, popped⟩

theorem progresses_of_empty_octets :
    Progresses (decode octetsSchema.methods octetsSchema.stubs ⟨.active, .none⟩ (.ofBytes [1, 1, 0])) :=
  (progresses_iff_registered octetsSchema (headed_of_two (by decide) rfl) (by decide) (by rfl) ⟨.active, .none⟩).2
    (.inl (by decide))

/-- A frame of an unknown id with nothing in it: the session stays open and the cursor stays there. -/
theorem unknown_frame_blocks :
    ∃ after, decode octetsSchema.methods octetsSchema.stubs ⟨.active, .none⟩ (.ofBytes [2, 0]) =
        .ok (none, ⟨.active, .none⟩) after ∧ after.pos = 0 ∧
      ¬ Progresses (decode octetsSchema.methods octetsSchema.stubs ⟨.active, .none⟩ (.ofBytes [2, 0])) := by
  have here : Headed (.ofBytes [2, 0]) (behindHeader [2, 0]) 2 0 := headed_of_two (by decide) rfl
  obtain ⟨after, waits, back⟩ : ∃ after, decode octetsSchema.methods octetsSchema.stubs ⟨.active, .none⟩ (.ofBytes [2, 0]) =
      .ok (none, ⟨.active, .none⟩) after ∧ after.pos = 0 := decode_unknown here (by decide) rfl ⟨.active, .none⟩
  refine ⟨after, waits, back, ?_⟩
  rintro ⟨answer, status, stopped, same, moved⟩
  rw [waits] at same
  cases same
  simp [SessionStatus.isClose] at moved

private theorem rollback_answers {answer : Option μ × SessionStatus} {os after : Octetsstream} {message : μ}
    {status : SessionStatus} (none_found : answer.1 = none) :
    (popTransaction .rollback >>= fun _ => pure answer : StreamM _) os ≠ .ok (some message, status) after := by
  intro same
  obtain ⟨_, stopped, -, same⟩ := ok_of_bind same
  cases same
  cases none_found

private theorem decodeBody_of_returned {status status' : SessionStatus} {message : μ} {os after : Octetsstream}
    (returned : decode methods stubs status os = .ok (some message, status') after) :
    decodeBody methods stubs os = .ok (.message message) after := by
  unfold decode at returned
  by_cases ready : os.dataReady 1 = true
  · rw [if_pos ready] at returned
    cases body : decodeBody methods stubs os with
    | ok step stopped =>
      rw [body] at returned
      cases step with
      | wait => cases returned
      | message found =>
        cases returned
        rfl
      | unknown => exact absurd returned (rollback_answers rfl)
    | error thrown stopped =>
      rw [body] at returned
      cases thrown with
      | abort => cases returned
      | exception | overflowError | lengthError | badAlloc => exact absurd returned (rollback_answers rfl)
  · rw [if_neg ready] at returned
    cases returned

/-- `decode` returns a message only from a complete frame of a registered class. -/
theorem decode_returned {schema : Schema} (here : Headed os headed id size) {status status' : SessionStatus}
    {message : schema.Message} {after : Octetsstream}
    (returned : decode schema.methods schema.stubs status os = .ok (some message, status') after) :
    headed.dataReady size = true ∧ schema.methods.unpack ⟨id, (schema.cls id).default⟩ headed = .ok message after := by
  have body := decodeBody_of_returned returned
  rw [here.body, decodePayload] at body
  by_cases complete : headed.dataReady size = true
  · refine ⟨complete, ?_⟩
    rw [if_pos complete] at body
    by_cases known : schema.registered id = true
    · have found : schema.stubs id = some ⟨id, (schema.cls id).default⟩ := if_pos known
      simp only [found] at body
      obtain ⟨message', after', run, found⟩ := ok_of_bind body
      cases found
      exact run
    · have missing : schema.stubs id = none := if_neg known
      simp only [missing] at body
      cases body
  · rw [if_neg complete] at body
    obtain ⟨_, stopped, -, waits⟩ := ok_of_bind body
    cases waits

/-- `decode` stops at the end of the frame exactly when the payload is one wire form of the class. -/
theorem stops_at_end_iff_spelled (schema : Schema) {os headed : Octetsstream} {id : ProtocolId} {size : Nat}
    (here : Headed os headed id size) {status status' : SessionStatus} {message : schema.Message} {after : Octetsstream}
    (returned : decode schema.methods schema.stubs status os = .ok (some message, status') after) :
    after.pos = headed.pos + size ↔ (schema.cls id).form (headed.unread.take size) () := by
  obtain ⟨data, -, stays⟩ := here.after
  obtain ⟨complete, unpacked⟩ := decode_returned here returned
  rw [here.enough] at complete
  have parsed := unpack_stub_parses schema id headed (data ▸ here.valid)
    (by simpa [Octetsstream.size, data] using here.bound) stays
  rw [unpacked] at parsed
  obtain ⟨bytes, rest, content, spelled, rfl⟩ := parsed
  constructor
  · intro stopped
    have length : bytes.length = size := Nat.add_left_cancel stopped
    rw [content, ← length, List.take_left]
    exact spelled
  · intro payload
    have split : bytes ++ rest = headed.unread.take size ++ headed.unread.drop size := by
      rw [List.take_append_drop, content]
    obtain ⟨rfl, -⟩ := messageClass_separate (schema.cls id) spelled payload split
    rw [List.length_take, Nat.min_eq_left complete]

theorem stops_at_end_of_empty_octets :
    ∃ after, decode octetsSchema.methods octetsSchema.stubs ⟨.active, .none⟩ (.ofBytes [1, 1, 0]) =
        .ok (some ⟨1, []⟩, ⟨.active, .none⟩) after ∧ after.pos = 2 + 1 := by
  have here : Headed (.ofBytes [1, 1, 0]) (behindHeader [1, 1, 0]) 1 1 := headed_of_two (by decide) rfl
  have decoded := @decode_unpacked _ octetsSchema.methods octetsSchema.stubs _ _ _ _ here (by decide) _ _ rfl _ rfl
    ⟨.active, .none⟩
  refine ⟨_, decoded, (stops_at_end_iff_spelled octetsSchema here decoded).2 ?_⟩
  exact ⟨[0], [], 0, rfl, ⟨[0], [], 0, rfl, rfl, rfl, rfl⟩, rfl⟩

/-- A payload of two bytes of which `unpack` reads one: the next call starts at the other. -/
theorem stops_inside_frame :
    ∃ after, decode octetsSchema.methods octetsSchema.stubs ⟨.active, .none⟩ (.ofBytes [1, 2, 0, 9]) =
        .ok (some ⟨1, []⟩, ⟨.active, .none⟩) after ∧
      popHeader (.ofBytes [1, 2, 0, 9]) = .ok (1, 2) (behindHeader [1, 2, 0, 9]) ∧ after.pos = 3 ∧
      after.pos ≠ (behindHeader [1, 2, 0, 9]).pos + 2 := by
  have here : Headed (.ofBytes [1, 2, 0, 9]) (behindHeader [1, 2, 0, 9]) 1 2 := headed_of_two (by decide) rfl
  have decoded := @decode_unpacked _ octetsSchema.methods octetsSchema.stubs _ _ _ _ here (by decide) _ _ rfl _ rfl
    ⟨.active, .none⟩
  exact ⟨_, decoded, rfl, rfl, by decide⟩

end Proofs
end Cassobee
