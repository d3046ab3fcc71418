import Cassobee.Ostringstream
import Cassobee.Proofs.Octets
import Cassobee.Support.Run

/-! The stream against the string that it stands for. -/

namespace Cassobee.Proofs
open Support Ostringstream

/-- The string after an action. -/
def followText (content : List UInt8) : TextAction → List UInt8
  | .put value => content ++ value.text
  | .truncate size => if size < content.length then content.take size else content
  | .clear => []
  | .reserve _ => content
  | .cStr => content
  | .str => content

/-- A stream beside its string. -/
def streamBeside (pair : Ostringstream × List UInt8) (action : TextAction) :
    Option (Ostringstream × List UInt8) :=
  (pair.1.step action).map fun next => (next, followText pair.2 action)

/-- What `str()` and `size()` say. -/
structure ShowsText (stream : Ostringstream) (content : List UInt8) : Prop where
  str : stream.toStr = some content
  size : stream.size = content.length
  fits : stream.size ≤ stream.buf.cap

/-- Nothing is to be cut, and `c_str` finds a zero byte at the end. A stream of `2 ^ 63` bytes takes none. -/
def KeepsText (stream : Ostringstream) : TextAction → Prop
  | .truncate size => stream.size ≤ size
  | .cStr => stream.size < 2 ^ 63 → stream.buf.bytes.getLast? = some 0
  | _ => True

structure HoldsText (stream : Ostringstream) (content : List UInt8) : Prop where
  valid : stream.buf.Valid
  block : stream.buf.cap ≤ 2 ^ 63
  bytes : stream.buf.bytes = content

/-- A constructor that is given some bytes or none. -/
def constructed : Option StreamText → Ostringstream × List UInt8
  | none => (create, [])
  | some text => (Ostringstream.ofText text, text.bytes)

variable {stream next : Ostringstream} {content text : List UInt8} {pair after : Ostringstream × List UInt8}
  {action : TextAction}

theorem holdsText_constructed (given : Option StreamText) : HoldsText (constructed given).1 (constructed given).2 := by
  cases given with
  | none => exact ⟨by unfold Octets.Valid; decide, by decide, by decide⟩
  | some text =>
    have bounded := text.bounded
    constructor <;> simp [constructed, Ostringstream.ofText, Octets.Valid, Octets.cap, Octets.create, Octets.bytes]
    omega

theorem HoldsText.size (holds : HoldsText stream content) : stream.size = content.length := by
  rw [← holds.bytes, length_bytes holds.valid, Ostringstream.size]

theorem HoldsText.shows (holds : HoldsText stream content) : ShowsText stream content where
  str := by
    have fits : stream.buf.len ≤ stream.buf.cap := holds.valid
    rw [toStr, if_pos fits, holds.bytes]
  size := holds.size
  fits := holds.valid

theorem text_bounded (value : StreamValue) : value.text.length < 2 ^ 63 := by
  cases value with
  | bool value => cases value <;> decide
  | char value => simp [StreamValue.text]
  | cstr value => exact Nat.lt_of_le_of_lt (List.takeWhile_sublist _).length_le value.bounded
  | string value => exact value.bounded
  | converted value => exact value.bounded
  | endl => decide

theorem HoldsText.append (holds : HoldsText stream content) (bounded : text.length < 2 ^ 63)
    (appended : stream.append text = some next) : HoldsText next (content ++ text) := by
  obtain ⟨buf, ok, rfl⟩ := Option.map_eq_some_iff.1 appended
  cases outcome : stream.buf.append text with
  | error thrown => simp [outcome, Except.toOption] at ok
  | ok grown =>
    obtain rfl : grown = buf := by simpa [outcome, Except.toOption] using ok
    obtain ⟨valid, block, bytes⟩ := append_ok holds.valid holds.block bounded outcome
    exact ⟨valid, block, bytes.trans (congrArg (· ++ text) holds.bytes)⟩

theorem HoldsText.reserve (holds : HoldsText stream content) {cap : Nat}
    (reserved : stream.reserve cap = some next) : HoldsText next content := by
  obtain ⟨buf, ok, rfl⟩ := Option.map_eq_some_iff.1 reserved
  cases outcome : stream.buf.reserve cap with
  | error thrown => simp [outcome, Except.toOption] at ok
  | ok grown =>
    obtain rfl : grown = buf := by simpa [outcome, Except.toOption] using ok
    obtain ⟨valid, -, block, -⟩ := reserve_ok holds.valid holds.block outcome
    exact ⟨valid, block, (reserve_bytes holds.valid holds.block outcome).trans holds.bytes⟩

/-- `c_str` finds a zero byte or adds one. -/
theorem HoldsText.cStr (holds : HoldsText stream content) :
    stream.cStr = if content.getLast? = some 0 then some stream else stream.append [0] := by
  have bytes : stream.buf.bytes = content := holds.bytes
  have fits : stream.buf.len ≤ stream.buf.buf.length := holds.valid
  have last : content.getLast? = if stream.buf.len = 0 then none else stream.buf.buf[stream.buf.len - 1]? := by
    rw [← bytes, List.getLast?_eq_getElem?, length_bytes holds.valid, Octets.bytes]
    split
    case isTrue none => simp [none]
    case isFalse some => exact List.getElem?_take_of_lt (by omega)
  rw [Ostringstream.cStr, Ostringstream.empty, last]
  by_cases none : stream.buf.len = 0
  · simp [none]
  · have present : stream.buf.len - 1 < stream.buf.buf.length := by omega
    rw [if_neg (by simpa using none), if_neg none, List.getElem?_eq_getElem present]
    by_cases zero : stream.buf.buf[stream.buf.len - 1] = 0
    · simp [zero]
    · simp [zero]

theorem HoldsText.step (holds : HoldsText stream content) (keeps : KeepsText stream action)
    (stepped : stream.step action = some next) : HoldsText next (followText content action) := by
  have size := holds.size
  cases action with
  | put value => exact holds.append (text_bounded value) stepped
  | truncate count =>
    have enough : ¬ count < stream.size := Nat.not_lt.2 keeps
    cases stepped
    rw [followText, if_neg (size ▸ enough), truncate, if_neg enough]
    exact holds
  | reserve cap => exact holds.reserve stepped
  | clear =>
    cases stepped
    exact ⟨Nat.zero_le _, holds.block, clear_bytes _⟩
  | cStr =>
    rw [Ostringstream.step, holds.cStr] at stepped
    by_cases last : content.getLast? = some 0
    · rw [if_pos last] at stepped
      cases stepped
      exact holds
    · -- With its `2 ^ 63` bytes the stream takes no other.
      rw [if_neg last] at stepped
      have grown := holds.append (by simp) stepped
      have room : next.size ≤ next.buf.cap := grown.valid
      have block := grown.block
      have longer := grown.size
      rw [List.length_append, List.length_singleton] at longer
      have small : ¬ stream.size < 2 ^ 63 := fun small => last (holds.bytes ▸ keeps small)
      omega
  | str =>
    obtain ⟨-, -, rfl⟩ := Option.map_eq_some_iff.1 stepped
    exact holds

theorem HoldsText.needs (holds : HoldsText stream content)
    (shows_after : ∀ next, stream.step action = some next → ShowsText next (followText content action)) :
    KeepsText stream action := by
  have size := holds.size
  cases action with
  | put | reserve | clear | str => trivial
  | truncate count =>
    by_contra cut
    have less : count < stream.size := Nat.not_le.1 cut
    have after := (shows_after _ rfl).size
    have fits : stream.buf.len ≤ stream.buf.cap := holds.valid
    have block := holds.block
    rw [followText, if_pos (size ▸ less), truncate, if_pos less, List.length_take, Ostringstream.size] at after
    simp only [Octets.fastResize, wordSize, Ostringstream.size] at after less size
    omega
  | cStr =>
    intro small
    by_contra last
    rw [holds.bytes] at last
    have room : stream.buf.len + [(0 : UInt8)].length ≤ 2 ^ 63 := small
    obtain ⟨grown, appended, -, -, longer⟩ := append_spec holds.valid room
    have stepped : stream.step .cStr = some ⟨grown⟩ := by
      rw [Ostringstream.step, holds.cStr, if_neg last, Ostringstream.append, appended]
      rfl
    have after := (shows_after _ stepped).size
    simp only [followText, Ostringstream.size] at after size
    rw [longer, size] at after
    simp at after

/-- The stream shows its string in every state if and only if `truncate` is never asked to cut and `c_str` only
looks at a text that has its zero byte. -/
theorem stream_text_iff (given : Option StreamText) (actions : List TextAction) :
    Throughout streamBeside (fun pair => ShowsText pair.1 pair.2) (constructed given) actions ↔
      EachStep streamBeside (fun pair action => KeepsText pair.1 action) (constructed given) actions := by
  have enough {pair : Ostringstream × List UInt8} (holds : HoldsText pair.1 pair.2) :
      ShowsText pair.1 pair.2 := holds.shows
  have kept {pair after : Ostringstream × List UInt8} {action : TextAction} (holds : HoldsText pair.1 pair.2)
      (keeps : KeepsText pair.1 action) (stepped : streamBeside pair action = some after) :
      HoldsText after.1 after.2 := by
    obtain ⟨next, computed, rfl⟩ := Option.map_eq_some_iff.1 stepped
    exact holds.step keeps computed
  refine throughout_iff_eachStep enough kept (fun holds shows_after => holds.needs fun next computed => ?_)
    (holdsText_constructed given)
  exact shows_after (next, followText _ _) (Option.map_eq_some_iff.2 ⟨next, computed, rfl⟩)

/-- `ab` is cut to its first byte: the length grows to 3. -/
theorem truncate_grows :
    ¬ Throughout streamBeside (fun pair => ShowsText pair.1 pair.2) (constructed none)
      [.put (.string ⟨[97, 98], by decide⟩), .truncate 1] := by
  intro shows_all
  have last := (shows_all.2 _ rfl).2 _ rfl
  have size := last.size
  revert size
  decide

end Cassobee.Proofs
