import Cassobee.HttpProtocol
import Cassobee.Proofs.Stream
import Mathlib.Data.List.TakeWhile

/-! What `httpprotocol::getline` does. It never returns false: without a delimiter it reads behind the
end, and `octets::operator[]` throws. With one it stops before it, and its line is as many copies of the
line's length as its first byte says. -/

namespace Cassobee.Proofs
open HttpM Octetsstream

theorem byteAt_some {parse : HttpParse} {pos : Nat} {byte : UInt8} (found : parse.os.bytes[pos]? = some byte) :
    byteAt pos parse = .ok byte parse := by
  simp only [byteAt, found]

theorem byteAt_none {parse : HttpParse} {pos : Nat} (missing : parse.os.bytes[pos]? = none) :
    byteAt pos parse = .error .outOfRange parse := by
  simp only [byteAt, missing]

theorem takeWhile_of_not_mem {text : List UInt8} {declm : UInt8} (absent : declm ∉ text) :
    text.takeWhile (fun byte => byte ≠ declm) = text := by
  apply List.takeWhile_eq_self_iff.2
  intro byte member
  simpa using ne_of_mem_of_not_mem member absent

theorem takeWhile_of_split {line rest : List UInt8} {declm : UInt8} (clean : declm ∉ line) :
    (line ++ declm :: rest).takeWhile (fun byte => byte ≠ declm) = line := by
  rw [List.takeWhile_append_of_pos]
  · simp
  · intro byte member
    simpa using ne_of_mem_of_not_mem member clean

/-- There is one way to cut at the first delimiter. -/
theorem line_unique {line line' rest rest' : List UInt8} {declm : UInt8} (clean : declm ∉ line) (clean' : declm ∉ line')
    (same : line ++ declm :: rest = line' ++ declm :: rest') : line = line' ∧ rest = rest' := by
  have first := congrArg (List.takeWhile fun byte => byte ≠ declm) same
  rw [takeWhile_of_split clean, takeWhile_of_split clean'] at first
  subst first
  exact ⟨rfl, by simpa using same⟩

/-- The transaction that `getline` begins. -/
def lineBegun (parse : HttpParse) : HttpParse := { parse with os := { parse.os with transpos := parse.os.pos } }

theorem lt_wordSize {size : Nat} (bound : size ≤ 2 ^ 63) : size < wordSize := Nat.lt_of_le_of_lt bound (by decide)

theorem get_run (parse : HttpParse) : (get : HttpM HttpParse) parse = .ok parse parse := rfl

theorem begin_run (parse : HttpParse) : ofStream (popTransaction .begin) parse = .ok () (lineBegun parse) := rfl

theorem lineBegun_unread (parse : HttpParse) : (lineBegun parse).os.unread = parse.os.unread := rfl

theorem getline_missing {parse : HttpParse} {declm : UInt8} (absent : declm ∉ parse.os.unread) :
    getline declm parse = .error .outOfRange (lineBegun parse) := by
  have outside : (lineBegun parse).os.bytes[parse.os.pos + parse.os.unread.length]? = none := by
    rw [List.getElem?_eq_none_iff]
    simp only [Octetsstream.unread, List.length_drop, lineBegun, Octetsstream.bytes]
    omega
  rw [getline, run_bind (begin_run parse),
    run_bind (get_run (lineBegun parse))]
  have length : ((lineBegun parse).os.unread.takeWhile fun byte => byte ≠ declm).length = parse.os.unread.length :=
    congrArg List.length (takeWhile_of_not_mem absent)
  rw [length]
  exact run_bind_error (byteAt_none outside)

section
variable {parse : HttpParse} {declm : UInt8} {line rest : List UInt8}

/-- The cursor moves to the delimiter. -/
def lineEnd (parse : HttpParse) (line : List UInt8) : HttpParse :=
  { parse with os := ⟨parse.os.data, parse.os.pos + line.length, parse.os.pos⟩ }

/-- The first byte of the line, or the delimiter. -/
def lineHead (line : List UInt8) (declm : UInt8) : UInt8 := line.headD declm

/-- A delimiter is found. What is left is to make the line. -/
theorem getline_found (valid : parse.os.data.Valid) (bound : parse.os.size < wordSize)
    (content : parse.os.unread = line ++ declm :: rest) (clean : declm ∉ line) :
    getline declm parse = (do
      let str ← HttpM.ofExcept (stringOf (lineHead line declm) line.length)
      ofStream (popTransaction .commit)
      return some str : HttpM (Option (List UInt8))) (lineEnd parse line) := by
  have total := unread_length valid
  rw [content, List.length_append, List.length_cons] at total
  have length : ((lineBegun parse).os.unread.takeWhile fun byte => byte ≠ declm).length = line.length := by
    rw [lineBegun_unread parse, content, takeWhile_of_split clean]
  have delimiter : (lineBegun parse).os.bytes[parse.os.pos + line.length]? = some declm := by
    have found : parse.os.unread[line.length]? = some declm := by rw [content]; simp
    rwa [Octetsstream.unread, List.getElem?_drop] at found
  have first : (lineEnd parse line).os.bytes[parse.os.pos]? = some (lineHead line declm) := by
    have found : parse.os.unread[0]? = some (lineHead line declm) := by
      rw [content]
      cases line <;> rfl
    rwa [Octetsstream.unread, List.getElem?_drop, Nat.add_zero] at found
  have moved : advance line.length (lineBegun parse) = .ok () (lineEnd parse line) := by
    have nowrap : (parse.os.pos + line.length) % wordSize = parse.os.pos + line.length :=
      Nat.mod_eq_of_lt (by omega)
    simp only [advance, lineBegun, lineEnd, nowrap]
  rw [getline, run_bind (begin_run parse),
    run_bind (get_run (lineBegun parse)), length,
    show (lineBegun parse).os.pos = parse.os.pos from rfl, run_bind (byteAt_some delimiter), if_pos rfl, run_bind moved, Nat.add_sub_cancel, run_bind (byteAt_some first)]

/-- A first byte above 127 is a negative `char`, and so no count. -/
theorem getline_negative (valid : parse.os.data.Valid) (bound : parse.os.size < wordSize)
    (content : parse.os.unread = line ++ declm :: rest) (clean : declm ∉ line) (negative : 128 ≤ lineHead line declm) :
    getline declm parse = .error .lengthError (lineEnd parse line) := by
  have thrown : HttpM.ofExcept (stringOf (lineHead line declm) line.length) (lineEnd parse line) =
      .error .lengthError (lineEnd parse line) := by
    rw [stringOf, if_pos negative]
    rfl
  rw [getline_found valid bound content clean, run_bind_error thrown]

/-- The line that is returned, and the stream that the commit leaves. -/
theorem getline_some (valid : parse.os.data.Valid) (bound : parse.os.size < wordSize)
    (content : parse.os.unread = line ++ declm :: rest) (clean : declm ∉ line) (positive : ¬ 128 ≤ lineHead line declm) :
    getline declm parse = .ok (some (List.replicate (lineHead line declm).toNat (UInt8.ofNat line.length)))
      { parse with os := (lineEnd parse line).os.tryShrink } := by
  have made : HttpM.ofExcept (stringOf (lineHead line declm) line.length) (lineEnd parse line) =
      .ok (List.replicate (lineHead line declm).toNat (UInt8.ofNat line.length)) (lineEnd parse line) := by
    rw [stringOf, if_neg positive]
    rfl
  rw [getline_found valid bound content clean, run_bind made]
  rfl

end

/-! ## Splitting off a line -/

/-- What a call of `getline` should do: a line is taken off together with its delimiter, and without a
delimiter nothing happens. -/
structure LineTaken (declm : UInt8) (parse : HttpParse) : Prop where
  found : ∀ line rest, parse.os.unread = line ++ declm :: rest → declm ∉ line →
    ∃ after, getline declm parse = .ok (some line) after ∧ after.os.unread = rest
  missing : declm ∉ parse.os.unread →
    ∃ after, getline declm parse = .ok none after ∧ after.os.data = parse.os.data ∧ after.os.pos = parse.os.pos

/-- The cursor stops at the delimiter, not behind it. -/
theorem getline_unread {parse after : HttpParse} {declm : UInt8} {line rest str : List UInt8} (valid : parse.os.data.Valid)
    (bound : parse.os.size < wordSize) (content : parse.os.unread = line ++ declm :: rest) (clean : declm ∉ line)
    (returned : getline declm parse = .ok (some str) after) : after.os.unread = declm :: rest := by
  by_cases negative : 128 ≤ lineHead line declm
  · rw [getline_negative valid bound content clean negative] at returned
    cases returned
  · rw [getline_some valid bound content clean negative] at returned
    cases returned
    obtain ⟨-, shrunk, -⟩ := tryShrink_unread (show (lineEnd parse line).os.data.Valid from valid)
    exact shrunk.trans (unread_behind content parse.os.pos)

/-- No content and no cursor gives a line that is taken off. -/
theorem no_line_taken (declm : UInt8) (parse : HttpParse) (valid : parse.os.data.Valid) (bound : parse.os.size < wordSize) :
    ¬ LineTaken declm parse := by
  intro taken
  by_cases present : declm ∈ parse.os.unread
  · obtain ⟨line, rest, content, clean⟩ := List.eq_append_cons_of_mem present
    obtain ⟨after, returned, behind⟩ := taken.found line rest content clean
    rw [getline_unread valid bound content clean returned] at behind
    exact absurd behind (List.cons_ne_self declm rest)
  · obtain ⟨after, returned, -⟩ := taken.missing present
    rw [getline_missing present] at returned
    cases returned

/-- A stream that holds these bytes, with the cursor at its begin. -/
def received (bytes : List UInt8) : HttpParse := ⟨⟨⟨bytes, bytes.length⟩, 0, 0⟩, .getRequest⟩

theorem no_line_taken_of_line : ¬ LineTaken 10 (received [97, 98, 10, 99, 10]) :=
  no_line_taken 10 (received [97, 98, 10, 99, 10]) (Nat.le_refl _) (by decide)

/-- Nothing has come yet, and the scan reads the byte behind the end. -/
theorem line_of_nothing : getline 10 (received []) = .error .outOfRange (received []) ∧ ¬ LineTaken 10 (received []) := by
  have thrown : getline 10 (received []) = .error .outOfRange (received []) := getline_missing (by decide)
  refine ⟨thrown, fun taken => ?_⟩
  obtain ⟨after, returned, -⟩ := taken.missing (by decide)
  rw [thrown] at returned
  cases returned

end Cassobee.Proofs
