import Cassobee.Proofs.RoundTrip

/-! Two destinations that the same bytes are popped into. Plain data and contiguous containers are
overwritten; `octets` and every other container keep what they held, so that the results agree only
where the destinations did. -/

namespace Cassobee

/-- The destinations agree wherever popping adds to them. -/
def Ty.Agree {b : Bool} {α : Type} : Ty b α → α → α → Prop
  | .bool, _, _ => True
  | .scalar _, _, _ => True
  | .octets, one, two => one = two
  | .pair first second, one, two => first.Agree one.1 two.1 ∧ second.Agree one.2 two.2
  | .contiguous _, _, _ => True
  | .vector _ _, one, two => one = two
  | .container _ _, one, two => one = two
  | .struct, _, _ => True
  | .field type _ rest, one, two => type.Agree one.1 two.1 ∧ rest.Agree one.2 two.2

namespace Proofs
variable {b : Bool} {α : Type}

/-- Both pops throw, or both leave the same value and the same stream. -/
def Overwrites (type : Ty b α) (one two : α) (os : Octetsstream) : Prop :=
  match type.pop one os, type.pop two os with
  | .error _ _, .error _ _ => True
  | .ok left after, .ok right after' => left = right ∧ after = after'
  | _, _ => False

/-- Destinations that agree are not told apart. -/
theorem pop_of_agree (type : Ty b α) {one two : α} (agree : type.Agree one two) : type.pop one = type.pop two := by
  induction type with
  | bool | scalar _ | contiguous _ | struct => rfl
  | octets | vector _ _ _ | container _ _ _ =>
    obtain rfl : one = two := agree
    rfl
  | pair first second left right | field first _ second left right =>
    simp only [Ty.pop]
    rw [left agree.1, right agree.2]

/-- Two destinations that no value tells apart agree. -/
theorem agree_of_merge (type : Ty b α) {one two : α}
    (same : ∀ value, type.Fits value → type.merge one value = type.merge two value) : type.Agree one two := by
  induction type with
  | bool | scalar _ | contiguous _ | struct => trivial
  | octets =>
    have nothing : one ++ [] = two ++ [] := same [] (by simp [Ty.Fits])
    rwa [List.append_nil, List.append_nil] at nothing
  | vector maxSize element _ => exact same [] (by simp [Ty.Fits])
  | container kind element _ =>
    have nothing := same kind.empty (by simp [Ty.Fits, kind.elements_empty])
    simp only [Ty.merge, kind.elements_empty, List.map_nil, List.foldl_nil] at nothing
    exact nothing
  | pair first second left right | field first _ second left right =>
    obtain ⟨value, fits⟩ := exists_fits first
    obtain ⟨other, fitsOther⟩ := exists_fits second
    constructor
    · exact left fun value fits => congrArg Prod.fst (same (value, other) ⟨fits, fitsOther⟩)
    · exact right fun other fitsOther => congrArg Prod.snd (same (value, other) ⟨fits, fitsOther⟩)

/-- Destinations that agree come out equal from every stream. Any others are told apart by the
encoding of some value, wherever a stream holds it. -/
theorem pops_overwrite_exactly_when_agree (type : Ty b α) (one two : α) :
    (type.Agree one two → ∀ os, Overwrites type one two os) ∧
    (¬ type.Agree one two → ∃ value, type.Fits value ∧ ∀ os rest, os.data.Valid → os.size ≤ 2 ^ 63 → os.pos ≤ os.size →
      os.unread = type.encode value ++ rest → ¬ Overwrites type one two os) := by
  constructor
  · intro agree os
    rw [Overwrites, pop_of_agree type agree]
    cases type.pop two os with
    | error thrown after => trivial
    | ok value after => exact ⟨rfl, rfl⟩
  · intro differ
    obtain ⟨value, fits, apart⟩ : ∃ value, type.Fits value ∧ type.merge one value ≠ type.merge two value := by
      by_contra none
      push Not at none
      exact differ (agree_of_merge type none)
    refine ⟨value, fits, fun os rest valid bound inside content overwrites => ?_⟩
    rw [Overwrites, pop_reads type fits one os rest valid bound inside content,
      pop_reads type fits two os rest valid bound inside content] at overwrites
    exact apart overwrites.1

/-- Empty octets. -/
def noOctets : Octetsstream := ⟨⟨[0], 1⟩, 0, 0⟩

theorem octets_kept : noOctets.data.Valid ∧ ¬ Overwrites .octets [] [1] noOctets := by
  refine ⟨Nat.le_refl 1, fun overwrites => ?_⟩
  have same : ([] : List UInt8) = [1] := overwrites.1
  cases same

end Proofs
end Cassobee
