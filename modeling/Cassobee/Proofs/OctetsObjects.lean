import Cassobee.OctetsObjects
import Cassobee.Proofs.Octets
import Cassobee.Support.Refinement

/-! `octets` objects are byte lists, whatever is done to them and in whatever order. -/

namespace Cassobee.Proofs
open Support Octets

/-! ## One object -/

section
variable {oct grown : Octets} {data block : List UInt8} {pos size : Nat}

theorem overwrite_take (fits : pos ≤ block.length) : (overwrite block pos data).take pos = block.take pos := by
  rw [overwrite, List.append_assoc, List.take_append_of_le_length (by rw [List.length_take]; omega), List.take_take,
    Nat.min_self]

theorem overwrite_drop (fits : pos ≤ block.length) :
    (overwrite block pos data).drop pos = data ++ block.drop (pos + data.length) := by
  have first : (block.take pos).length = pos := by
    rw [List.length_take]
    omega
  rw [overwrite, List.append_assoc]
  exact (congrArg (fun place => (block.take pos ++ (data ++ block.drop (pos + data.length))).drop place) first.symm).trans
    List.drop_left

theorem create_ok {len : Nat} (fits : len ≤ data.length) (size : Nat) :
    (Octets.create data len size).Valid ∧ (Octets.create data len size).bytes = data.take len ∧
      size ≤ (Octets.create data len size).cap := by
  have copied : (data.take len).length = len := by
    rw [List.length_take]
    omega
  refine ⟨?_, ?_, ?_⟩
  · simp only [Octets.Valid, Octets.create, Octets.cap, List.length_append, copied, List.length_replicate]
    omega
  · rw [Octets.bytes, Octets.create]
    exact (congrArg (fun place => (data.take len ++ List.replicate (max len size - len) 0).take place) copied.symm).trans
      List.take_left
  · simp only [Octets.create, Octets.cap, List.length_append, copied, List.length_replicate]
    omega

/-- The block does not become smaller. -/
theorem reserve_keeps_cap (valid : oct.Valid) (small : size ≤ 2 ^ 63) :
    ∃ grown, oct.reserve size = .ok grown ∧ grown.Valid ∧ grown.bytes = oct.bytes ∧ grown.len = oct.len ∧
      size ≤ grown.cap ∧ oct.cap ≤ grown.cap := by
  obtain ⟨grown, reserved, valid', same, length, large⟩ := reserve_spec valid small
  refine ⟨grown, reserved, valid', same, length, large, ?_⟩
  by_cases fits : size ≤ oct.cap
  · rw [reserve_of_fits fits] at reserved
    cases reserved
    exact Nat.le_refl _
  · omega

/-- Two moves of bytes within a block: the tail of its content up, and the data into the gap. -/
theorem overwrite_gap {len : Nat} (inside : pos ≤ len) (room : len + data.length ≤ block.length) :
    let moved := overwrite block (pos + data.length) ((block.drop pos).take (len - pos))
    (overwrite moved pos data).length = block.length ∧
      (overwrite moved pos data).take (len + data.length) = (block.take len).take pos ++ data ++ (block.take len).drop pos := by
  intro moved
  have tail : ((block.drop pos).take (len - pos)).length = len - pos := by
    rw [List.length_take, List.length_drop]
    omega
  have size : moved.length = block.length := overwrite_length (by omega)
  have first : moved.take pos = block.take pos := by
    have longer : moved.take (pos + data.length) = block.take (pos + data.length) := overwrite_take (by omega)
    have cut := congrArg (List.take pos) longer
    rwa [List.take_take, List.take_take, Nat.min_eq_left (Nat.le_add_right ..)] at cut
  have rest : moved.drop (pos + data.length) = (block.drop pos).take (len - pos) ++ _ := overwrite_drop (by omega)
  refine ⟨(overwrite_length (by omega)).trans size, ?_⟩
  have whole : (block.take pos ++ data ++ (block.drop pos).take (len - pos)).length = len + data.length := by
    rw [List.length_append, List.length_append, List.length_take, tail]
    omega
  rw [overwrite, first, rest, ← List.append_assoc, ← whole, List.take_left, List.take_take, Nat.min_eq_left inside,
    List.drop_take]

/-- The bytes are put at the position, or behind the last byte. -/
theorem insert_spec (valid : oct.Valid) (pos : Nat) (room : oct.len + data.length ≤ 2 ^ 63) :
    ∃ grown, oct.insert pos data = .ok grown ∧ grown.Valid ∧
      grown.bytes = oct.bytes.take pos ++ data ++ oct.bytes.drop pos ∧ oct.cap ≤ grown.cap := by
  obtain ⟨middle, reserved, valid', same, length, large, more⟩ := reserve_keeps_cap valid room
  have word : (oct.len + data.length) % wordSize = oct.len + data.length := Nat.mod_eq_of_lt (by
    simp only [wordSize]
    omega)
  have inside : min oct.len pos ≤ middle.len := by omega
  obtain ⟨size, content⟩ := overwrite_gap inside (show middle.len + data.length ≤ middle.buf.length from length ▸ large)
  have inserted : oct.insert pos data = .ok ⟨overwrite (overwrite middle.buf (min oct.len pos + data.length)
      ((middle.buf.drop (min oct.len pos)).take (middle.len - min oct.len pos))) (min oct.len pos) data,
      middle.len + data.length⟩ := by
    rw [Octets.insert, word, reserved]
    rfl
  refine ⟨_, inserted, ?_, ?_, ?_⟩
  · rw [Octets.Valid, Octets.cap, size, length]
    exact large
  · have whole : oct.bytes.take (min oct.len pos) = oct.bytes.take pos ∧
        oct.bytes.drop (min oct.len pos) = oct.bytes.drop pos := by
      have count := length_bytes valid
      by_cases within : pos ≤ oct.len
      · rw [Nat.min_eq_right within]
        exact ⟨rfl, rfl⟩
      · rw [Nat.min_eq_left (by omega), List.take_of_length_le (by omega), List.take_of_length_le (by omega),
          List.drop_of_length_le (by omega), List.drop_of_length_le (by omega)]
        exact ⟨rfl, rfl⟩
    rw [← whole.1, ← whole.2, ← same]
    exact content
  · rw [Octets.cap, Octets.cap, size]
    exact more

/-- The bytes from the position on are taken out, as many as there are. -/
theorem erase_spec (valid : oct.Valid) (pos count : Nat) : (oct.erase pos count).Valid ∧
    (oct.erase pos count).bytes = oct.bytes.take pos ++ oct.bytes.drop (pos + count) ∧ (oct.erase pos count).cap = oct.cap := by
  have fits : oct.len ≤ oct.buf.length := valid
  let first := min oct.len pos
  let gone := min (oct.len - first) count
  let moved := (oct.buf.drop (first + gone)).take (oct.len - first - gone)
  have length : moved.length = oct.len - first - gone := by
    rw [List.length_take, List.length_drop]
    omega
  have size : (overwrite oct.buf first moved).length = oct.buf.length := overwrite_length (by omega)
  have left : oct.len - gone = first + moved.length := by omega
  refine ⟨?_, ?_, size⟩
  · change oct.len - gone ≤ (overwrite oct.buf first moved).length
    omega
  · change (overwrite oct.buf first moved).take (oct.len - gone) = _
    rw [left, take_overwrite (by omega), Octets.bytes, List.take_take, List.drop_take, Nat.min_comm pos]
    refine congrArg (oct.buf.take first ++ ·) ?_
    by_cases within : pos + count ≤ oct.len
    · have same : first + gone = pos + count := by omega
      change (oct.buf.drop (first + gone)).take (oct.len - first - gone) = _
      rw [same, Nat.sub_sub, same]
    · have nothing : moved = [] := List.eq_nil_of_length_eq_zero (by omega)
      rw [nothing, Nat.sub_eq_zero_of_le (by omega), List.take_zero]

/-- The bytes from the position on are exchanged for as many others. -/
theorem replace_spec (valid : oct.Valid) (small : oct.len ≤ 2 ^ 63) (inside : pos + data.length ≤ oct.len) :
    ∃ after, oct.replace pos data = .ok after ∧ after.Valid ∧
      after.bytes = oct.bytes.take pos ++ data ++ oct.bytes.drop (pos + data.length) ∧ after.cap = oct.cap := by
  by_cases nothing : data.length = 0
  · obtain rfl := List.eq_nil_of_length_eq_zero nothing
    exact ⟨oct, rfl, valid, by simp, rfl⟩
  · have fits : oct.len ≤ oct.buf.length := valid
    have rest : (oct.len + wordSize - pos) % wordSize = oct.len - pos := by
      simp only [wordSize]
      omega
    have word : (pos + data.length) % wordSize = pos + data.length := Nat.mod_eq_of_lt (by
      simp only [wordSize]
      omega)
    have size : (overwrite oct.buf pos data).length = oct.buf.length := overwrite_length (by omega)
    have replaced : oct.replace pos data = .ok ⟨overwrite oct.buf pos data, max oct.len (pos + data.length)⟩ := by
      rw [Octets.replace]
      dsimp only
      rw [rest, if_neg nothing, if_neg (by omega), Nat.min_eq_right (by omega), word,
        reserve_of_fits (Nat.le_trans inside valid), List.take_length]
      rfl
    refine ⟨_, replaced, ?_, ?_, size⟩
    · rw [Octets.Valid, Octets.cap, size, Nat.max_eq_left inside]
      exact fits
    · have first : (oct.buf.take pos ++ data).length = pos + data.length := by
        rw [List.length_append, List.length_take]
        omega
      rw [Octets.bytes, Octets.bytes, Nat.max_eq_left inside, overwrite, List.take_append, first,
        List.take_of_length_le (first ▸ inside), List.take_take, Nat.min_eq_left (by omega), List.drop_take]

/-- The block does not become smaller. -/
theorem append_keeps_cap (valid : oct.Valid) (room : oct.len + data.length ≤ 2 ^ 63) :
    ∃ grown, oct.append data = .ok grown ∧ grown.Valid ∧ grown.bytes = oct.bytes ++ data ∧ oct.cap ≤ grown.cap := by
  obtain ⟨grown, appended, valid', content, -⟩ := append_spec valid room
  refine ⟨grown, appended, valid', content, ?_⟩
  rw [Octets.append] at appended
  split at appended
  next =>
    cases appended
    exact Nat.le_refl _
  next =>
    obtain ⟨middle, reserved, -, -, length, large, more⟩ := reserve_keeps_cap valid room
    rw [Nat.mod_eq_of_lt (by simp only [wordSize]; omega), reserved] at appended
    cases appended
    rw [Octets.cap, Octets.cap, overwrite_length (length ▸ large)]
    exact more

/-- A byte is appended as any other bytes are. -/
theorem appendByte_eq (oct : Octets) (ch : UInt8) : oct.appendByte ch = oct.append [ch] := rfl

end

/-! ## All objects -/

/-- The bytes of an object, and how many were reserved in the block that it has. -/
structure Held where
  content : List UInt8
  reserved : Nat

abbrev HeldLists (ι : Type) := ι → Option Held

section
variable {ι : Type}

/-- The object has the bytes, in a block that is large enough for them and for what was reserved. -/
structure IsList (oct : Octets) (held : Held) : Prop where
  bytes : oct.bytes = held.content
  valid : oct.len ≤ oct.cap
  reserved : held.reserved ≤ oct.cap

def SameObjects (objects : OctetsObjects ι) (lists : HeldLists ι) : Prop :=
  ∀ self, Option.Rel IsList (objects self) (lists self)

/-- The lengths are those that `frob_size` takes. -/
def ShortLists (lists : HeldLists ι) : Prop := ∀ self held, lists self = some held → held.content.length ≤ 2 ^ 63

variable {objects : OctetsObjects ι} {lists : HeldLists ι} {self rhs : ι} {oct : Octets} {held : Held}
  {action : OctetsAction ι}

theorem SameObjects.found (same : SameObjects objects lists) (there : lists self = some held) :
    ∃ oct, objects self = some oct ∧ IsList oct held := by
  have here := same self
  rw [there] at here
  cases found : objects self with
  | none =>
    rw [found] at here
    cases here
  | some oct =>
    rw [found] at here
    cases here with
    | some isList => exact ⟨oct, rfl, isList⟩

theorem SameObjects.missing (same : SameObjects objects lists) (absent : lists self = none) : objects self = none := by
  have here := same self
  rw [absent] at here
  cases found : objects self with
  | none => rfl
  | some oct =>
    rw [found] at here
    cases here

variable [DecidableEq ι]

def HeldLists.alter (lists : HeldLists ι) (self : ι) (change : Held → Held) : HeldLists ι :=
  Function.update lists self ((lists self).map change)

def HeldLists.exchange (lists : HeldLists ι) (self rhs : ι) : HeldLists ι :=
  Function.update (Function.update lists self (lists rhs)) rhs (lists self)

/-- What the calls mean for byte lists. Data that is assigned comes in a block of its own length. What `frob_size` refuses is
not reserved. -/
def HeldLists.perform (lists : HeldLists ι) : OctetsAction ι → Unit × HeldLists ι
  | .construct self => ((), Function.update lists self (some ⟨[], 0⟩))
  | .constructFrom self data => ((), Function.update lists self (some ⟨data.bytes, 0⟩))
  | .constructCopy self oct => ((), Function.update lists self (lists oct))
  | .constructPrefix self oct len => ((), Function.update lists self ((lists oct).map fun held => ⟨held.content.take len, 0⟩))
  | .constructMove self oct => ((), Function.update (Function.update lists self (lists oct)) oct (some ⟨[], 0⟩))
  | .destruct self => ((), Function.update lists self none)
  | .assign self data => ((), Function.update lists self (some ⟨data.bytes, 0⟩))
  | .assignCopy self rhs => ((), Function.update lists self (lists rhs))
  | .assignMove self rhs => ((), lists.exchange self rhs)
  | .swap self rhs => ((), lists.exchange self rhs)
  | .append self data => ((), lists.alter self fun held => { held with content := held.content ++ data.bytes })
  | .appendByte self ch => ((), lists.alter self fun held => { held with content := held.content ++ [ch] })
  | .insert self pos data =>
    ((), lists.alter self fun held => { held with content := held.content.take pos ++ data ++ held.content.drop pos })
  | .replace self pos data =>
    ((), lists.alter self fun held =>
      { held with content := held.content.take pos ++ data ++ held.content.drop (pos + data.length) })
  | .erase self pos len =>
    ((), lists.alter self fun held => { held with content := held.content.take pos ++ held.content.drop (pos + len) })
  | .reserve self cap =>
    ((), lists.alter self fun held => if cap ≤ 2 ^ 63 then { held with reserved := max held.reserved cap } else held)
  | .clear self => ((), lists.alter self fun held => { held with content := [] })

/-- The objects of the call are there or not yet, the lengths stay at most `2 ^ 63`, and what is read or replaced is there. -/
def Permitted (lists : HeldLists ι) : OctetsAction ι → Prop
  | .construct self => lists self = none
  | .constructFrom self data => lists self = none ∧ data.bytes.length ≤ 2 ^ 63
  | .constructCopy self oct => lists self = none ∧ (lists oct).isSome
  | .constructPrefix self oct len => lists self = none ∧ ∃ held ∈ lists oct, len ≤ held.content.length
  | .constructMove self oct => lists self = none ∧ (lists oct).isSome
  | .destruct self => (lists self).isSome
  | .assign self data => (lists self).isSome ∧ data.bytes.length ≤ 2 ^ 63
  | .assignCopy self rhs => (lists self).isSome ∧ (lists rhs).isSome
  | .assignMove self rhs => (lists self).isSome ∧ (lists rhs).isSome
  | .swap self rhs => (lists self).isSome ∧ (lists rhs).isSome
  | .append self data => ∃ held ∈ lists self, held.content.length + data.bytes.length ≤ 2 ^ 63
  | .appendByte self _ => ∃ held ∈ lists self, held.content.length + 1 ≤ 2 ^ 63
  | .insert self _ data => ∃ held ∈ lists self, held.content.length + data.length ≤ 2 ^ 63
  | .replace self pos data => ∃ held ∈ lists self, pos + data.length ≤ held.content.length
  | .erase self _ _ => (lists self).isSome
  | .reserve self _ => (lists self).isSome
  | .clear self => (lists self).isSome

instance Permitted.decidable (lists : HeldLists ι) (action : OctetsAction ι) : Decidable (Permitted lists action) := by
  cases action <;> unfold Permitted <;> infer_instance

theorem SameObjects.update (same : SameObjects objects lists) {left : Option Octets} {right : Option Held}
    (here : Option.Rel IsList left right) :
    SameObjects (Function.update objects self left) (Function.update lists self right) := by
  intro other
  by_cases at' : other = self
  · subst at'
    rwa [Function.update_self, Function.update_self]
  · rw [Function.update_of_ne at', Function.update_of_ne at']
    exact same other

namespace SameObjects

theorem create (same : SameObjects objects lists) (absent : lists self = none) (isList : IsList oct held) :
    ∃ next, objects.create self oct = some next ∧ SameObjects next (Function.update lists self (some held)) := by
  refine ⟨objects.set self oct, ?_, same.update (.some isList)⟩
  rw [OctetsObjects.create, same.missing absent]

theorem modify (same : SameObjects objects lists) {method : Octets → Except Thrown Octets} {change : Held → Held}
    (there : lists self = some held)
    (does : ∀ oct, IsList oct held → ∃ after, method oct = .ok after ∧ IsList after (change held)) :
    ∃ next, objects.modify self method = some next ∧ SameObjects next (lists.alter self change) := by
  obtain ⟨oct, found, isList⟩ := same.found there
  obtain ⟨after, ok, isList'⟩ := does oct isList
  refine ⟨objects.set self after, by rw [OctetsObjects.modify, found]; dsimp only; rw [ok], ?_⟩
  rw [HeldLists.alter, there]
  exact same.update (.some isList')

theorem swap (same : SameObjects objects lists) (one : (lists self).isSome) (two : (lists rhs).isSome) :
    ∃ next, objects.swap self rhs = some next ∧ SameObjects next (lists.exchange self rhs) := by
  obtain ⟨held, there⟩ := Option.isSome_iff_exists.1 one
  obtain ⟨held', there'⟩ := Option.isSome_iff_exists.1 two
  obtain ⟨oct, found, isList⟩ := same.found there
  obtain ⟨oct', found', isList'⟩ := same.found there'
  refine ⟨(objects.set self oct').set rhs oct, by rw [OctetsObjects.swap, found, found']; rfl, ?_⟩
  rw [HeldLists.exchange, there, there']
  exact (same.update (.some isList')).update (.some isList)

end SameObjects

/-! ## Each call -/

theorem isList_create (data : List UInt8) : IsList (.create data data.length data.length) ⟨data, 0⟩ := by
  obtain ⟨valid, bytes, -⟩ := create_ok (Nat.le_refl data.length) data.length
  exact ⟨bytes.trans List.take_length, valid, Nat.zero_le _⟩

theorem IsList.copy (isList : IsList oct held) : IsList (.create oct.buf oct.len oct.cap) held := by
  obtain ⟨valid, bytes, large⟩ := create_ok isList.valid oct.cap
  exact ⟨bytes.trans isList.bytes, valid, Nat.le_trans isList.reserved large⟩

theorem IsList.front (isList : IsList oct held) {len : Nat} (inside : len ≤ oct.len) :
    IsList (.create oct.buf len len) ⟨held.content.take len, 0⟩ := by
  obtain ⟨valid, bytes, -⟩ := create_ok (Nat.le_trans inside isList.valid) len
  refine ⟨?_, valid, Nat.zero_le _⟩
  rw [bytes, ← isList.bytes, Octets.bytes, List.take_take, Nat.min_eq_left inside]

theorem isList_empty : IsList ⟨[], 0⟩ ⟨[], 0⟩ := ⟨rfl, Nat.le_refl _, Nat.le_refl _⟩

theorem IsList.length (isList : IsList oct held) : oct.len = held.content.length := by
  rw [← isList.bytes, length_bytes isList.valid]

theorem IsList.append (isList : IsList oct held) {data : List UInt8} (room : held.content.length + data.length ≤ 2 ^ 63) :
    ∃ after, oct.append data = .ok after ∧ IsList after { held with content := held.content ++ data } := by
  rw [← isList.length] at room
  obtain ⟨after, appended, valid, bytes, more⟩ := append_keeps_cap isList.valid room
  exact ⟨after, appended, bytes.trans (congrArg (· ++ data) isList.bytes), valid, Nat.le_trans isList.reserved more⟩

theorem IsList.insert (isList : IsList oct held) (pos : Nat) {data : List UInt8}
    (room : held.content.length + data.length ≤ 2 ^ 63) : ∃ after, oct.insert pos data = .ok after ∧
      IsList after { held with content := held.content.take pos ++ data ++ held.content.drop pos } := by
  rw [← isList.length] at room
  obtain ⟨after, inserted, valid, bytes, more⟩ := insert_spec isList.valid pos room
  rw [isList.bytes] at bytes
  exact ⟨after, inserted, bytes, valid, Nat.le_trans isList.reserved more⟩

theorem IsList.replace (isList : IsList oct held) (small : held.content.length ≤ 2 ^ 63) {pos : Nat} {data : List UInt8}
    (inside : pos + data.length ≤ held.content.length) : ∃ after, oct.replace pos data = .ok after ∧
      IsList after { held with content := held.content.take pos ++ data ++ held.content.drop (pos + data.length) } := by
  rw [← isList.length] at small inside
  obtain ⟨after, replaced, valid, bytes, more⟩ := replace_spec isList.valid small inside
  rw [isList.bytes] at bytes
  exact ⟨after, replaced, bytes, valid, more ▸ isList.reserved⟩

theorem IsList.erase (isList : IsList oct held) (pos len : Nat) : IsList (oct.erase pos len)
    { held with content := held.content.take pos ++ held.content.drop (pos + len) } := by
  obtain ⟨valid, bytes, same⟩ := erase_spec isList.valid pos len
  rw [isList.bytes] at bytes
  exact ⟨bytes, valid, same ▸ isList.reserved⟩

theorem IsList.reserve (isList : IsList oct held) {cap : Nat} (small : cap ≤ 2 ^ 63) :
    ∃ after, oct.reserve cap = .ok after ∧ IsList after { held with reserved := max held.reserved cap } := by
  obtain ⟨after, reserved, valid, bytes, -, large, more⟩ := reserve_keeps_cap isList.valid small
  exact ⟨after, reserved, bytes.trans isList.bytes, valid, Nat.max_le.2 ⟨Nat.le_trans isList.reserved more, large⟩⟩

/-- Too large a capacity is refused, or was there before. -/
theorem reserve_refused {cap : Nat} (oct : Octets) (large : 2 ^ 63 < cap) :
    oct.reserve cap = .ok oct ∨ ∃ what, oct.reserve cap = .error (.overflowError what) := by
  by_cases fits : cap ≤ oct.cap
  · exact .inl (reserve_of_fits fits)
  · refine .inr ⟨"frob_size: input too large", ?_⟩
    rw [Octets.reserve, if_neg fits, frobSize, if_pos large]
    rfl

namespace SameObjects

theorem constructCopy (same : SameObjects objects lists) {source : ι} (absent : lists self = none)
    (there : (lists source).isSome) : ∃ next, objects.perform (.constructCopy self source) = some next ∧
      SameObjects next (lists.perform (.constructCopy self source)).2 := by
  obtain ⟨held, there⟩ := Option.isSome_iff_exists.1 there
  obtain ⟨oct, found, isList⟩ := same.found there
  rw [OctetsObjects.perform, HeldLists.perform, found, there]
  exact same.create absent isList.copy

theorem constructPrefix (same : SameObjects objects lists) {source : ι} {len : Nat} (absent : lists self = none)
    (there : lists source = some held) (inside : len ≤ held.content.length) :
    ∃ next, objects.perform (.constructPrefix self source len) = some next ∧
      SameObjects next (lists.perform (.constructPrefix self source len)).2 := by
  obtain ⟨oct, found, isList⟩ := same.found there
  rw [← isList.length] at inside
  rw [OctetsObjects.perform, HeldLists.perform, found, there, Option.bind_eq_bind, Option.bind_some, if_pos inside]
  exact same.create absent (isList.front inside)

theorem constructMove (same : SameObjects objects lists) {source : ι} (absent : lists self = none)
    (there : (lists source).isSome) : ∃ next, objects.perform (.constructMove self source) = some next ∧
      SameObjects next (lists.perform (.constructMove self source)).2 := by
  have away : source ≠ self := by
    intro itself
    rw [itself, absent] at there
    cases there
  obtain ⟨middle, created, same'⟩ := same.create absent isList_empty
  have still : Function.update lists self (some ⟨[], 0⟩) source = lists source := Function.update_of_ne away ..
  have fresh : (Function.update lists self (some ⟨[], 0⟩) self).isSome := by
    rw [Function.update_self]
    rfl
  obtain ⟨next, swapped, after⟩ := same'.swap fresh (still ▸ there)
  refine ⟨next, ?_, ?_⟩
  · rw [OctetsObjects.perform, created]
    exact swapped
  · rwa [HeldLists.exchange, still, Function.update_self, Function.update_idem] at after

theorem assign (same : SameObjects objects lists) (data : CharData) (there : (lists self).isSome) :
    ∃ next, objects.perform (.assign self data) = some next ∧ SameObjects next (lists.perform (.assign self data)).2 := by
  obtain ⟨held, there⟩ := Option.isSome_iff_exists.1 there
  let method : Octets → Except Thrown Octets := fun _ => .ok (.create data.bytes data.bytes.length data.bytes.length)
  have assigned : ∃ next, objects.modify self method = some next ∧
      SameObjects next (lists.alter self fun _ => ⟨data.bytes, 0⟩) :=
    same.modify there fun _ _ => ⟨_, rfl, isList_create data.bytes⟩
  rwa [HeldLists.alter, there] at assigned

theorem assignCopy (same : SameObjects objects lists) (one : (lists self).isSome) (two : (lists rhs).isSome) :
    ∃ next, objects.perform (.assignCopy self rhs) = some next ∧ SameObjects next (lists.perform (.assignCopy self rhs)).2 := by
  obtain ⟨held, there⟩ := Option.isSome_iff_exists.1 one
  obtain ⟨held', there'⟩ := Option.isSome_iff_exists.1 two
  obtain ⟨oct, found, isList⟩ := same.found there'
  let method : Octets → Except Thrown Octets := fun lhs => .ok (if rhs = self then lhs else .create oct.buf oct.len oct.cap)
  have assigned : ∃ next, objects.modify self method = some next ∧ SameObjects next (lists.alter self fun _ => held') := by
    apply same.modify there
    intro lhs isList'
    refine ⟨_, rfl, ?_⟩
    split
    next itself =>
      rw [itself, there] at there'
      cases there'
      exact isList'
    next => exact isList.copy
  rw [HeldLists.alter, there] at assigned
  rw [OctetsObjects.perform, HeldLists.perform, found, there']
  exact assigned

theorem assignMove (same : SameObjects objects lists) (one : (lists self).isSome) (two : (lists rhs).isSome) :
    ∃ next, objects.perform (.assignMove self rhs) = some next ∧ SameObjects next (lists.perform (.assignMove self rhs)).2 := by
  rw [OctetsObjects.perform]
  split
  next itself =>
    subst itself
    obtain ⟨held, there⟩ := Option.isSome_iff_exists.1 one
    have kept : ∃ next, objects.modify rhs .ok = some next ∧ SameObjects next (lists.alter rhs fun held => held) :=
      same.modify there fun oct isList => ⟨oct, rfl, isList⟩
    rw [HeldLists.alter, there] at kept
    rwa [HeldLists.perform, HeldLists.exchange, Function.update_idem, there]
  next => exact same.swap one two

/-- What is refused leaves everything as it was. -/
theorem reserve (same : SameObjects objects lists) (cap : Nat) (there : (lists self).isSome) :
    ∃ next, objects.perform (.reserve self cap) = some next ∧ SameObjects next (lists.perform (.reserve self cap)).2 := by
  obtain ⟨held, there⟩ := Option.isSome_iff_exists.1 there
  rw [OctetsObjects.perform, HeldLists.perform]
  by_cases small : cap ≤ 2 ^ 63
  · simp only [if_pos small]
    exact same.modify there fun oct isList => isList.reserve small
  · simp only [if_neg small]
    obtain ⟨oct, found, isList⟩ := same.found there
    obtain kept | ⟨what, thrown⟩ := reserve_refused oct (Nat.lt_of_not_le small)
    · refine ⟨objects.set self oct, by rw [OctetsObjects.modify, found]; dsimp only; rw [kept], ?_⟩
      rw [HeldLists.alter, there]
      exact same.update (.some isList)
    · refine ⟨objects, by rw [OctetsObjects.modify, found]; dsimp only; rw [thrown], ?_⟩
      have unchanged : lists.alter self (fun held => held) = lists := by
        rw [HeldLists.alter, Option.map_id', Function.update_eq_self]
      rwa [unchanged]

theorem perform (same : SameObjects objects lists) (short : ShortLists lists) (allowed : Permitted lists action) :
    ∃ next, objects.perform action = some next ∧ SameObjects next (lists.perform action).2 := by
  cases action with
  | construct self => exact same.create allowed ⟨rfl, new_valid, Nat.zero_le _⟩
  | constructFrom self data => exact same.create allowed.1 (isList_create data.bytes)
  | constructCopy self source => exact same.constructCopy allowed.1 allowed.2
  | constructPrefix self source len =>
    obtain ⟨absent, held, there, inside⟩ := allowed
    exact same.constructPrefix absent there inside
  | constructMove self source => exact same.constructMove allowed.1 allowed.2
  | destruct self =>
    obtain ⟨held, there⟩ := Option.isSome_iff_exists.1 allowed
    obtain ⟨oct, found, -⟩ := same.found there
    refine ⟨Function.update objects self none, ?_, same.update .none⟩
    rw [OctetsObjects.perform, found]
    rfl
  | assign self data => exact same.assign data allowed.1
  | assignCopy self rhs => exact same.assignCopy allowed.1 allowed.2
  | assignMove self rhs => exact same.assignMove allowed.1 allowed.2
  | swap self rhs => exact same.swap allowed.1 allowed.2
  | append self data =>
    obtain ⟨held, there, room⟩ := allowed
    exact same.modify there fun oct isList => isList.append room
  | appendByte self ch =>
    obtain ⟨held, there, room⟩ := allowed
    have room' : held.content.length + [ch].length ≤ 2 ^ 63 := room
    exact same.modify there fun oct isList => appendByte_eq oct ch ▸ isList.append room'
  | insert self pos data =>
    obtain ⟨held, there, room⟩ := allowed
    exact same.modify there fun oct isList => isList.insert pos room
  | replace self pos data =>
    obtain ⟨held, there, inside⟩ := allowed
    exact same.modify there fun oct isList => isList.replace (short self held there) inside
  | erase self pos len =>
    obtain ⟨held, there⟩ := Option.isSome_iff_exists.1 allowed
    exact same.modify there fun oct isList => ⟨_, rfl, isList.erase pos len⟩
  | reserve self cap => exact same.reserve cap allowed
  | clear self =>
    obtain ⟨held, there⟩ := Option.isSome_iff_exists.1 allowed
    exact same.modify there fun oct isList => ⟨_, rfl, clear_bytes oct, Nat.zero_le _, isList.reserved⟩

end SameObjects

/-! ## All calls -/

namespace ShortLists

theorem update (short : ShortLists lists) {right : Option Held}
    (here : ∀ held, right = some held → held.content.length ≤ 2 ^ 63) :
    ShortLists (Function.update lists self right) := by
  intro other held there
  by_cases at' : other = self
  · subst at'
    rw [Function.update_self] at there
    exact here held there
  · rw [Function.update_of_ne at'] at there
    exact short other held there

theorem set (short : ShortLists lists) (few : held.content.length ≤ 2 ^ 63) :
    ShortLists (Function.update lists self (some held)) := by
  apply short.update
  rintro _ ⟨⟩
  exact few

/-- A change of an object that is there. -/
theorem alter (short : ShortLists lists) (there : lists self = some held) {change : Held → Held}
    (few : (change held).content.length ≤ 2 ^ 63) : ShortLists (lists.alter self change) := by
  rw [HeldLists.alter, there]
  exact short.set few

theorem exchange (short : ShortLists lists) : ShortLists (lists.exchange self rhs) :=
  (short.update (short rhs)).update (short self)

theorem perform (short : ShortLists lists) (allowed : Permitted lists action) : ShortLists (lists.perform action).2 := by
  have nothing : ([] : List UInt8).length ≤ 2 ^ 63 := Nat.zero_le _
  cases action with
  | construct self => exact short.set nothing
  | constructFrom self data => exact short.set allowed.2
  | constructCopy self source => exact short.update (short source)
  | constructPrefix self source len =>
    apply short.update
    intro after cut
    obtain ⟨held, there, rfl⟩ := Option.map_eq_some_iff.1 cut
    exact (List.length_take_le' len held.content).trans (short source held there)
  | constructMove self source => exact (short.update (short source)).set nothing
  | destruct self =>
    apply short.update
    rintro _ ⟨⟩
  | assign self data => exact short.set allowed.2
  | assignCopy self rhs => exact short.update (short rhs)
  | assignMove self rhs => exact short.exchange
  | swap self rhs => exact short.exchange
  | append self data =>
    obtain ⟨held, there, room⟩ := allowed
    exact short.alter there (List.length_append.trans_le room)
  | appendByte self ch =>
    obtain ⟨held, there, room⟩ := allowed
    exact short.alter there (List.length_append.trans_le room)
  | insert self pos data =>
    obtain ⟨held, there, room⟩ := allowed
    apply short.alter there
    simp only [List.length_append, List.length_take, List.length_drop]
    omega
  | replace self pos data =>
    obtain ⟨held, there, inside⟩ := allowed
    have before := short self held there
    apply short.alter there
    simp only [List.length_append, List.length_take, List.length_drop]
    omega
  | erase self pos len =>
    obtain ⟨held, there⟩ := Option.isSome_iff_exists.1 allowed
    have before := short self held there
    apply short.alter there
    simp only [List.length_append, List.length_take, List.length_drop]
    omega
  | reserve self cap =>
    obtain ⟨held, there⟩ := Option.isSome_iff_exists.1 allowed
    apply short.alter there
    split <;> exact short self held there
  | clear self =>
    obtain ⟨held, there⟩ := Option.isSome_iff_exists.1 allowed
    exact short.alter there nothing

end ShortLists

/-- The calls as a machine that answers nothing. -/
def octetsMachine (objects : OctetsObjects ι) (action : OctetsAction ι) : Option (Unit × OctetsObjects ι) :=
  (objects.perform action).map fun next => ((), next)

end

def sampleCalls : List (OctetsAction Bool) :=
  [.constructFrom false (.terminated [1, 2, 0, 3]), .reserve false 20, .constructMove true false, .insert true 1 [7],
    .assignCopy false true, .erase true 0 2, .swap true false, .replace true 1 [8, 9], .append false (.sized [4])]

end Cassobee.Proofs
