import Cassobee.Proofs.Decode
import Cassobee.Proofs.Grammar
import Cassobee.Transactions

/-! What a pop can do to a stream: it moves the cursor forward, within the content, and touches nothing
else. A failed `decode` therefore ends where it began. -/

namespace Cassobee

/-- No buffer is longer than `frob_size` allows, and the cursor is no further than that. -/
structure Octetsstream.Bounded (os : Octetsstream) : Prop where
  valid : os.data.Valid
  bound : os.size ≤ 2 ^ 63
  cursor : os.pos ≤ 2 ^ 63

namespace Proofs
open Octetsstream

variable {α β γ : Type}

/-- Only the cursor moves, and it moves forward as long as there is something to read. -/
def Moves (call : StreamM α) : Prop :=
  ∀ os, ∃ pos, left (call os) = { os with pos } ∧ (os.Bounded → os.pos ≤ pos ∧ pos ≤ max os.pos os.size)

theorem Bounded.moved {os : Octetsstream} {pos : Nat} (bounded : os.Bounded) (within : pos ≤ max os.pos os.size) :
    Octetsstream.Bounded { os with pos } :=
  ⟨bounded.valid, bounded.bound, Nat.le_trans within (Nat.max_le.2 ⟨bounded.cursor, bounded.bound⟩)⟩

theorem pure_moves (value : α) : Moves (pure value : StreamM α) :=
  fun os => ⟨os.pos, rfl, fun _ => ⟨Nat.le_refl _, Nat.le_max_left ..⟩⟩

theorem throw_moves (thrown : Thrown) : Moves (throw thrown : StreamM α) :=
  fun os => ⟨os.pos, rfl, fun _ => ⟨Nat.le_refl _, Nat.le_max_left ..⟩⟩

theorem Moves.bind {first : StreamM α} {next : α → StreamM β} (start : Moves first) (rest : ∀ value, Moves (next value)) :
    Moves (first >>= next) := by
  intro os
  obtain ⟨middle, moved, within⟩ := start os
  cases run : first os with
  | error thrown stopped =>
    rw [run_bind_error run]
    rw [run] at moved
    exact ⟨middle, moved, within⟩
  | ok value stopped =>
    rw [run] at moved
    obtain rfl : stopped = { os with pos := middle } := moved
    obtain ⟨final, last, ends⟩ := rest value { os with pos := middle }
    refine ⟨final, by rw [run_bind run, last], fun bounded => ?_⟩
    obtain ⟨low, high⟩ := within bounded
    obtain ⟨low', high'⟩ := ends (Bounded.moved bounded high)
    simp only [Octetsstream.size] at high low' high' ⊢
    omega

theorem Moves.map {call : StreamM α} (f : α → β) (moves : Moves call) : Moves (do return f (← call)) :=
  moves.bind fun value => pure_moves (f value)

theorem popCompact_moves : Moves popCompact := by
  intro os
  cases found : readVarint os.unread with
  | none =>
    refine ⟨os.pos, by simp only [popCompact, found, left], fun _ => ⟨Nat.le_refl _, Nat.le_max_left ..⟩⟩
  | some read =>
    obtain ⟨value, count⟩ := read
    refine ⟨os.pos + count, by simp only [popCompact, found, left], fun bounded => ?_⟩
    obtain ⟨one, rest, content, rfl, -⟩ := readVarint_splits found
    have total := unread_length bounded.valid
    rw [content, List.length_append] at total
    omega

theorem popRaw_moves {len : Nat} (small : len < 2 ^ 63) : Moves (popRaw len) := by
  intro os
  rw [popRaw]
  split
  next => exact ⟨os.pos, rfl, fun _ => ⟨Nat.le_refl _, Nat.le_max_left ..⟩⟩
  next passes =>
    refine ⟨_, rfl, fun bounded => ?_⟩
    have nowrap : (os.pos + len) % wordSize = os.pos + len := by
      have := bounded.cursor
      exact Nat.mod_eq_of_lt (by simp only [wordSize]; omega)
    rw [nowrap] at passes ⊢
    simp only [Octetsstream.size]
    omega

theorem popAppend_moves (value : List UInt8) (size : Nat) : Moves (popAppend value size) := by
  intro os
  rw [popAppend]
  split
  next => exact ⟨os.pos, rfl, fun _ => ⟨Nat.le_refl _, Nat.le_max_left ..⟩⟩
  next passes =>
    split
    next => exact ⟨os.pos, rfl, fun _ => ⟨Nat.le_refl _, Nat.le_max_left ..⟩⟩
    next nowrap =>
      refine ⟨_, rfl, fun _ => ?_⟩
      rw [Nat.mod_eq_of_lt (Nat.lt_of_not_le nowrap)] at passes
      simp only [Octetsstream.size]
      omega

theorem popSize_moves : Moves popSize := (popCompact_moves.map _).map _

theorem popPod_moves (pod : Pod α) : Moves (popPod pod) := (popRaw_moves pod.bounded).map _

theorem popScalar_moves (kind : Scalar α) : Moves (popScalar kind) := by
  cases kind with
  | int signed w =>
    cases signed <;> cases w
    · exact popCompact_moves.map _
    · exact popCompact_moves.map _
    · exact popCompact_moves.map _
    · exact (popCompact_moves.map _).map _
    · exact (popCompact_moves.map _).map _
    · exact (popCompact_moves.map _).map _
  | raw pod => exact popPod_moves pod

theorem popEach_moves {pop : StreamM α} (insert : γ → α → γ) (each : Moves pop) (count : Nat) (content : γ) :
    Moves (popEach pop insert count content) := by
  induction count generalizing content with
  | zero => exact pure_moves content
  | succ count ih => exact each.bind fun element => ih (insert content element)

theorem popContainer_moves (kind : Container α) {pop : StreamM α} (each : Moves pop) (content : kind.Content) :
    Moves (popContainer kind pop content) := by
  refine popSize_moves.bind fun size => ?_
  by_cases large : kind.canReserve = true ∧ size > kind.maxSize.room
  · obtain ⟨thrown, -, refused⟩ := reserve_refuses large
    rw [refused]
    exact throw_moves thrown
  · rw [reserve_accepts large, pure_bind]
    exact popEach_moves kind.insert each size content

theorem popContiguous_moves (kind : Contiguous α) : Moves (popContiguous kind) := by
  refine popSize_moves.bind fun size => ?_
  by_cases large : size > kind.maxSize.room
  · obtain ⟨thrown, -, refused⟩ := reserve_refuses ⟨rfl, large⟩
    rw [refused]
    exact throw_moves thrown
  · rw [reserve_accepts fun refused => large refused.2, pure_bind]
    have small := kind.bytes_lt (Nat.le_of_not_lt large)
    rw [Nat.mod_eq_of_lt (Nat.lt_trans small (by decide))]
    exact (popRaw_moves small).map _

theorem pop_moves {b : Bool} (type : Ty b α) (destination : α) : Moves (type.pop destination) := by
  induction type with
  | bool => exact popPod_moves Pod.bool
  | scalar kind => exact popScalar_moves kind
  | octets => exact popSize_moves.bind fun size => popAppend_moves destination size
  | pair first second one two => exact (one destination.1).bind fun found => (two destination.2).map _
  | contiguous kind => exact popContiguous_moves kind
  | vector maxSize element ih => exact popContainer_moves (.vector maxSize) (ih element.default) destination
  | container kind element ih => exact popContainer_moves kind (ih element.default) destination
  | struct => exact pure_moves ()
  | field type init rest one others => exact (one destination.1).bind fun found => (others destination.2).map _

theorem PopsOnly.moves {call : StreamM α} (pops : PopsOnly call) : Moves call := by
  induction pops with
  | pure value => exact pure_moves value
  | throw thrown => exact throw_moves thrown
  | pop type destination => exact pop_moves type destination
  | bind start rest one others => exact one.bind others

theorem PopsOnly.map {call : StreamM α} (f : α → β) (pops : PopsOnly call) : PopsOnly (do return f (← call)) :=
  pops.bind fun value => .pure (f value)

/-! ## The generated classes only pop -/

theorem members_popsOnly {n : Nat} (code : BitVec n) (members : Members n γ) (destination : γ) :
    PopsOnly (members.pop code destination) := by
  induction members with
  | none => exact .pure ()
  | field mask type init rest ih =>
    rw [Members.pop]
    split
    · exact (PopsOnly.pop type destination.1).bind fun found => PopsOnly.map _ (ih destination.2)
    · exact (PopsOnly.pure destination.1).bind fun found => PopsOnly.map _ (ih destination.2)

theorem layout_popsOnly (layout : Layout α) (destination : α) : PopsOnly (layout.pop destination) := by
  cases layout with
  | plain type => exact .pop type destination
  | coded code members =>
    exact (PopsOnly.pop (.scalar code) destination.1).bind fun found =>
      PopsOnly.map _ (members_popsOnly found members destination.2)

theorem dereference_popsOnly (pointer : Option α) : PopsOnly (dereference pointer) := by
  cases pointer with
  | none => exact .throw _
  | some value => exact .pure value

theorem unpack_popsOnly (cls : MessageClass α) (stub : α) : PopsOnly (cls.unpack stub) := by
  cases cls with
  | protocol layout => exact layout_popsOnly layout stub
  | rpc argument result =>
    refine (PopsOnly.pop (.scalar (.int false .w64)) 0).bind fun traceid => (PopsOnly.pop .bool false).bind fun isServer => ?_
    cases isServer with
    | false =>
      refine (dereference_popsOnly stub.argument).bind fun found => (layout_popsOnly argument found).bind fun read => ?_
      exact PopsOnly.map _ (dereference_popsOnly stub.result)
    | true => exact (dereference_popsOnly stub.result).bind fun found => PopsOnly.map _ (layout_popsOnly result found)

theorem schema_popsOnly (schema : Schema) (stub : schema.Message) : PopsOnly (schema.methods.unpack stub) :=
  PopsOnly.map _ (unpack_popsOnly (schema.cls stub.1) stub.2)

/-! ## A failed `decode` -/

theorem popHeader_moves : Moves popHeader :=
  (popCompact_moves.map _).bind fun _ => popSize_moves.map _

variable {μ : Type} {methods : ProtocolMethods μ} {stubs : Stubs μ}

/-- What the rollback of `decode` finds: the transaction that it began. -/
def Begun (os after : Octetsstream) : Prop := after.data = os.data ∧ after.transpos = os.pos

theorem rollback_eq (os : Octetsstream) : popTransaction .rollback os =
    if os.transpos > os.size then .error (.exception "invalid transaction rollback position") os
    else .ok () { os with pos := os.transpos } := rfl

theorem Begun.rollback {os begun after : Octetsstream} {value found : α} (started : Begun os begun)
    (returned : (do popTransaction .rollback; return value : StreamM α) begun = .ok found after) :
    found = value ∧ after.data = os.data ∧ after.pos = os.pos := by
  by_cases outside : begun.transpos > begun.size
  · have thrown := rollback_eq begun
    rw [if_pos outside] at thrown
    rw [run_bind_error thrown] at returned
    cases returned
  · have back := rollback_eq begun
    rw [if_neg outside] at back
    rw [run_bind back] at returned
    cases returned
    exact ⟨rfl, started.1, started.2⟩

/-- A rollback that throws has changed nothing. -/
theorem Begun.rollback_error {os begun after : Octetsstream} {value : α} {thrown : Thrown} (started : Begun os begun)
    (failed : (do popTransaction .rollback; return value : StreamM α) begun = .error thrown after) : Begun os after := by
  by_cases outside : begun.transpos > begun.size
  · have back := rollback_eq begun
    rw [if_pos outside] at back
    rw [run_bind_error back] at failed
    cases failed
    exact started
  · have back := rollback_eq begun
    rw [if_neg outside] at back
    rw [run_bind back] at failed
    cases failed

/-- The `try` block has rolled back by itself, or it has moved nothing but the cursor. -/
def Undone (os : Octetsstream) : EStateM.Result Thrown Octetsstream (DecodeStep μ) → Prop
  | .ok .wait after => after.data = os.data ∧ after.pos = os.pos
  | .ok (.message _) _ => True
  | .ok .unknown after => Begun os after
  | .error _ after => Begun os after

theorem decodePayload_undone (pops : ∀ id stub, stubs id = some stub → PopsOnly (methods.unpack stub)) {os begun : Octetsstream}
    (started : Begun os begun) (id : ProtocolId) (size : Nat) : Undone os (decodePayload methods stubs id size begun) := by
  rw [decodePayload]
  by_cases ready : begun.dataReady size = true
  · rw [if_pos ready]
    cases known : stubs id with
    | none => exact started
    | some stub =>
      obtain ⟨pos, moved, -⟩ := PopsOnly.moves (pops id stub known) begun
      dsimp only
      cases unpacked : methods.unpack stub begun with
      | error thrown stopped =>
        rw [run_bind_error unpacked]
        rw [unpacked] at moved
        obtain rfl : stopped = { begun with pos } := moved
        exact started
      | ok message stopped =>
        rw [run_bind unpacked]
        trivial
  · rw [if_neg ready]
    cases back : (do popTransaction .rollback; return DecodeStep.wait : StreamM (DecodeStep μ)) begun with
    | error thrown stopped => exact started.rollback_error back
    | ok step stopped =>
      obtain ⟨rfl, data, cursor⟩ := started.rollback back
      exact ⟨data, cursor⟩

theorem decodeBody_undone (pops : ∀ id stub, stubs id = some stub → PopsOnly (methods.unpack stub)) (os : Octetsstream) :
    Undone os (decodeBody methods stubs os) := by
  let begun : Octetsstream := { os with transpos := os.pos }
  rw [decodeBody, run_bind (show popTransaction .begin os = .ok () begun from rfl)]
  obtain ⟨pos, moved, -⟩ := popHeader_moves begun
  have started : Begun os { begun with pos } := ⟨rfl, rfl⟩
  cases header : popHeader begun with
  | error thrown stopped =>
    rw [run_bind_error header]
    rw [header] at moved
    obtain rfl : stopped = { begun with pos } := moved
    exact started
  | ok found stopped =>
    rw [run_bind header]
    rw [header] at moved
    obtain rfl : stopped = { begun with pos } := moved
    exact decodePayload_undone pops started found.1 found.2

/-- Whenever `decode` returns no message, the stream's bytes and its cursor are as before. -/
theorem decode_atomic (pops : ∀ id stub, stubs id = some stub → PopsOnly (methods.unpack stub)) {status status' : SessionStatus}
    {os after : Octetsstream} (returned : decode methods stubs status os = .ok (none, status') after) :
    after.data = os.data ∧ after.pos = os.pos := by
  have undone := decodeBody_undone pops os
  rw [decode] at returned
  split at returned
  next =>
    split at returned
    next stopped body =>
      rw [body] at undone
      cases returned
      exact undone
    next => cases returned
    next stopped body =>
      rw [body] at undone
      exact (Begun.rollback undone returned).2
    next => cases returned
    next thrown stopped _ body =>
      rw [body] at undone
      exact (Begun.rollback undone returned).2
  next =>
    cases returned
    exact ⟨rfl, rfl⟩

/-- One class, whose only field are octets. -/
def octetsSchema : Schema := ⟨fun _ => List UInt8, fun _ => .protocol (.plain .octets), fun id => id = 7#32⟩

/-- A frame whose payload announces more octets than there are. -/
def shortOctets : Octetsstream := ⟨⟨[7, 1, 5], 3⟩, 0, 0⟩

theorem decode_atomic_of_short : ∃ status after,
    decode octetsSchema.methods octetsSchema.stubs ⟨.recving, .none⟩ shortOctets = .ok (none, status) after ∧
      after.data = shortOctets.data ∧ after.pos = shortOctets.pos := by
  have refused : (match decode octetsSchema.methods octetsSchema.stubs ⟨.recving, .none⟩ shortOctets with
      | .ok result _ => result.1.isNone
      | .error _ _ => false) = true := by decide +kernel
  split at refused
  next result after returned =>
    obtain ⟨_ | message, status⟩ := result
    · exact ⟨status, after, returned, decode_atomic (fun _ stub _ => schema_popsOnly octetsSchema stub) returned⟩
    · cases refused
  next => cases refused

end Proofs
end Cassobee
