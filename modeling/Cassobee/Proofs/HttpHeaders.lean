import Cassobee.HttpHeaders
import Cassobee.Support.Run

/-! What `set_header` leaves. The lower-case letters are written into strings of size zero, so every
header is entered as the empty name with an empty value, and what is asked for is never found. -/

namespace Cassobee.Proofs
open Support HttpMessage

/-- The call sets or deletes the header. -/
def HeaderCall.about (k : List UInt8) : HeaderCall → Prop
  | .set key .. => key.map toLower = k
  | .del key _ => key = k

/-- The last call that is about the header has set it to the value. -/
def LiveHeader (calls : List HeaderCall) (k v : List UInt8) : Prop :=
  ∃ before key named valued after, calls = before ++ .set key v named valued :: after ∧ key.map toLower = k ∧
    ∀ call ∈ after, ¬ HeaderCall.about k call

/-- Every header is found as it was set last. -/
def HeadersKept (start : HttpMessage) (calls : List HeaderCall) : Prop :=
  ∃ message, calls.foldlM headerCall start = some message ∧ ∀ k, k.map toLower = k →
    (∀ v, LiveHeader calls k v → (message.findHeader k).map toLower = v.map toLower) ∧
      ((∀ v, ¬ LiveHeader calls k v) → message.findHeader k = [])

/-- Keys and values fit into the buffer of a string, and what is set is deleted again. -/
structure NothingStays (calls : List HeaderCall) : Prop where
  short {key value : List UInt8} {named : key ≠ []} {valued : value ≠ []} :
    HeaderCall.set key value named valued ∈ calls → key.length ≤ localBuffer ∧ value.length ≤ localBuffer
  deleted {before after : List HeaderCall} {key value : List UInt8} {named : key ≠ []} {valued : value ≠ []} :
    calls = before ++ .set key value named valued :: after → ∃ lower, HeaderCall.del (key.map toLower) lower ∈ after

/-- All that is there is the empty name with an empty value. -/
def Nameless (message : HttpMessage) : Prop := ∀ header ∈ message.headers, header = ([], [])

theorem toLower_toLower (byte : UInt8) : toLower (toLower byte) = toLower byte := by
  rw [toLower, toLower]
  split
  case isTrue upper =>
    apply if_neg
    simp only [UInt8.le_iff_toNat_le, UInt8.toNat_add] at upper ⊢
    simp at upper ⊢
    omega
  case isFalse => rfl

theorem map_toLower_lower (text : List UInt8) : (text.map toLower).map toLower = text.map toLower := by
  rw [List.map_map]
  exact List.map_congr_left fun byte _ => toLower_toLower byte

/-! ## One call -/

theorem transformInto_empty (src : List UInt8) : transformInto [] src = if src.length ≤ localBuffer then some [] else none := by
  simp [transformInto]

theorem setHeader_short {message : HttpMessage} {key value : List UInt8} (named : key ≠ []) (valued : value ≠ [])
    (short : key.length ≤ localBuffer ∧ value.length ≤ localBuffer) :
    message.setHeader key value = some (message.putHeader [] []) := by
  rw [setHeader, if_neg (by simp [named, valued]), transformInto_empty, transformInto_empty, if_pos short.1, if_pos short.2]
  rfl

theorem setHeader_long {message : HttpMessage} {key value : List UInt8} (named : key ≠ []) (valued : value ≠ [])
    (long : ¬ (key.length ≤ localBuffer ∧ value.length ≤ localBuffer)) : message.setHeader key value = none := by
  rw [setHeader, if_neg (by simp [named, valued]), transformInto_empty, transformInto_empty]
  by_cases fits : key.length ≤ localBuffer
  · have long' : ¬ value.length ≤ localBuffer := fun fits' => long ⟨fits, fits'⟩
    rw [if_pos fits, if_neg long']
    rfl
  · rw [if_neg fits]
    rfl

theorem Nameless.putHeader {message : HttpMessage} (nameless : Nameless message) : Nameless (message.putHeader [] []) := by
  intro header member
  rw [HttpMessage.putHeader] at member
  simp only at member
  split at member
  · obtain ⟨before, inside, rfl⟩ := List.mem_map.1 member
    rw [nameless before inside]
    rfl
  · obtain inside | last := List.mem_append.1 member
    · exact nameless header inside
    · exact List.mem_singleton.1 last

theorem Nameless.headerCall {message next : HttpMessage} (nameless : Nameless message) {call : HeaderCall}
    (called : message.headerCall call = some next) : Nameless next := by
  cases call with
  | set key value named valued =>
    by_cases short : key.length ≤ localBuffer ∧ value.length ≤ localBuffer
    · rw [HttpMessage.headerCall, setHeader_short named valued short] at called
      cases called
      exact nameless.putHeader
    · rw [HttpMessage.headerCall, setHeader_long named valued short] at called
      cases called
  | del key lower =>
    cases called
    exact fun header member => nameless header (List.mem_filter.1 member).1

theorem Nameless.findHeader {message : HttpMessage} (nameless : Nameless message) (k : List UInt8) : message.findHeader k = [] := by
  rw [HttpMessage.findHeader]
  split
  case h_1 header found => rw [nameless header (List.mem_of_find?_eq_some found)]
  case h_2 => rfl

/-! ## All calls -/

def CallsShort (calls : List HeaderCall) : Prop :=
  ∀ key value named valued, HeaderCall.set key value named valued ∈ calls → key.length ≤ localBuffer ∧ value.length ≤ localBuffer

theorem callsShort_set {key value : List UInt8} {named : key ≠ []} {valued : value ≠ []} {calls : List HeaderCall} :
    CallsShort (.set key value named valued :: calls) ↔
      (key.length ≤ localBuffer ∧ value.length ≤ localBuffer) ∧ CallsShort calls := by
  constructor
  · intro short
    exact ⟨short key value named valued (by simp), fun _ _ _ _ member => short _ _ _ _ (List.mem_cons_of_mem _ member)⟩
  · rintro ⟨first, rest⟩ key' value' named' valued' member
    obtain same | member := List.mem_cons.1 member
    · cases same
      exact first
    · exact rest key' value' named' valued' member

theorem headerCalls_defined_iff (message : HttpMessage) (calls : List HeaderCall) :
    (∃ final, calls.foldlM headerCall message = some final) ↔ CallsShort calls := by
  induction calls generalizing message with
  | nil => exact ⟨fun _ => by simp [CallsShort], fun _ => ⟨message, rfl⟩⟩
  | cons call calls ih =>
    have first : (∃ final, (call :: calls).foldlM headerCall message = some final) ↔
        ∃ next, message.headerCall call = some next ∧ ∃ final, calls.foldlM headerCall next = some final := by
      simp only [List.foldlM_cons, Option.bind_eq_bind, Option.bind_eq_some_iff]
      exact ⟨fun ⟨final, next, called, rest⟩ => ⟨next, called, final, rest⟩,
        fun ⟨next, called, final, rest⟩ => ⟨final, next, called, rest⟩⟩
    simp only [first, ih]
    cases call with
    | set key value named valued =>
      rw [callsShort_set]
      by_cases short : key.length ≤ localBuffer ∧ value.length ≤ localBuffer
      · simp [HttpMessage.headerCall, setHeader_short named valued short, short]
      · simp [HttpMessage.headerCall, setHeader_long named valued short, short]
    | del key lower => simp [HttpMessage.headerCall, CallsShort]

theorem headerCalls_nameless {message final : HttpMessage} (nameless : Nameless message) {calls : List HeaderCall}
    (ran : calls.foldlM headerCall message = some final) : Nameless final :=
  (Run.of_foldlM ran).invariant Nameless (fun before called => before.headerCall called) nameless

/-- What is set and not deleted is live under some value. -/
theorem exists_liveHeader {before after : List HeaderCall} {key value : List UInt8} {named : key ≠ []} {valued : value ≠ []}
    (kept : ∀ lower, HeaderCall.del (key.map toLower) lower ∉ after) :
    ∃ v, v ≠ [] ∧ LiveHeader (before ++ .set key value named valued :: after) (key.map toLower) v := by
  induction size : after.length using Nat.strong_induction_on generalizing before after key value with
  | _ n ih =>
    by_cases last : ∀ call ∈ after, ¬ HeaderCall.about (key.map toLower) call
    · exact ⟨value, valued, before, key, named, valued, after, rfl, rfl, last⟩
    · push Not at last
      obtain ⟨call, member, same⟩ := last
      obtain ⟨between, rest, rfl⟩ := List.append_of_mem member
      cases call with
      | del key' lower =>
        obtain rfl : key' = key.map toLower := same
        exact absurd member (kept lower)
      | set key' value' named' valued' =>
        have same : key'.map toLower = key.map toLower := same
        have kept' : ∀ lower, HeaderCall.del (key'.map toLower) lower ∉ rest := by
          rw [same]
          exact fun lower inside => kept lower (by simp [inside])
        have shorter : rest.length < n := by
          rw [← size]
          simp
          omega
        obtain ⟨v, some, live⟩ : ∃ v, v ≠ [] ∧ LiveHeader ((before ++ .set key value named valued :: between) ++
            .set key' value' named' valued' :: rest) (key'.map toLower) v := ih rest.length shorter kept' rfl
        refine ⟨v, some, ?_⟩
        rw [same] at live
        simpa using live

theorem headers_kept_iff (message : HttpMessage) (calls : List HeaderCall) :
    HeadersKept { message with headers := [] } calls ↔ NothingStays calls := by
  have nameless : Nameless { message with headers := [] } := by simp [Nameless]
  constructor
  · rintro ⟨final, ran, kept⟩
    refine ⟨fun member => (headerCalls_defined_iff _ _).1 ⟨final, ran⟩ _ _ _ _ member, ?_⟩
    rintro before after key value named valued rfl
    by_contra never
    push Not at never
    obtain ⟨v, some, live⟩ := exists_liveHeader never
    have found := (kept _ (map_toLower_lower key)).1 v live
    rw [(headerCalls_nameless nameless ran).findHeader] at found
    exact some (by simpa using found.symm)
  · intro nothing
    obtain ⟨final, ran⟩ := (headerCalls_defined_iff { message with headers := [] } calls).2 fun _ _ _ _ member => nothing.short member
    refine ⟨final, ran, fun k _ => ⟨?_, fun _ => (headerCalls_nameless nameless ran).findHeader k⟩⟩
    rintro v ⟨before, key, named, valued, after, same, rfl, last⟩
    obtain ⟨lower, member⟩ := nothing.deleted same
    exact absurd rfl (last _ member)

/-- A header that was set is not found. -/
theorem header_lost :
    ¬ HeadersKept { getRequest with headers := [] } [.set (asciiBytes "Host") (asciiBytes "a") (by decide) (by decide)] := by
  rintro ⟨message, ran, kept⟩
  have live : LiveHeader [.set (asciiBytes "Host") (asciiBytes "a") (by decide) (by decide)] (asciiBytes "host") (asciiBytes "a") :=
    ⟨[], asciiBytes "Host", by decide, by decide, [], rfl, by decide, by simp⟩
  have found := (kept (asciiBytes "host") (by decide)).1 _ live
  have nameless : Nameless { getRequest with headers := [] } := by simp [Nameless]
  rw [(headerCalls_nameless nameless ran).findHeader] at found
  exact absurd found (by decide)

end Cassobee.Proofs
