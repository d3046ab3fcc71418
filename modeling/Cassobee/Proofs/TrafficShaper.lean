import Cassobee.TrafficShaper
import Cassobee.Support.TokenBucket

/-! What the shaper grants at most in a window of time, and for which rates a second fills it. -/

namespace Cassobee.Proofs
open Support TrafficShaper

/-- What each call was granted, with its time. -/
def granted : TrafficShaper → List (Int × UInt64) → List (Int × Nat)
  | _, [] => []
  | shaper, (now, bytes) :: calls =>
    let outcome := shaper.acquire bytes now
    (now, if outcome.1 then bytes.toNat else 0) :: granted outcome.2 calls

/-- The clock does not go back, and starts at `last`. -/
def Forward (last : Int) (calls : List (Int × UInt64)) : Prop := (last :: calls.map Prod.fst).Pairwise (· ≤ ·)

variable {shaper : TrafficShaper} {calls : List (Int × UInt64)} {now last : Int} {bytes : UInt64}

theorem toNat_ofInt {elapsed : Int} (nonneg : 0 ≤ elapsed) : (UInt64.ofInt elapsed).toNat = elapsed.toNat % 2 ^ 64 := by
  rw [UInt64.ofInt, UInt64.toNat_ofNat']
  omega

theorem toNat_min (one two : UInt64) : (min one two).toNat = min one.toNat two.toNat := by
  change (if one ≤ two then one else two).toNat = _
  split
  next less => rw [Nat.min_eq_left (UInt64.le_iff_toNat_le.1 less)]
  next more => rw [Nat.min_eq_right (Nat.le_of_not_le fun less => more (UInt64.le_iff_toNat_le.2 less))]

/-- The tokens before the bytes are taken. -/
def tokensAt (shaper : TrafficShaper) (now : Int) : UInt64 :=
  min shaper.capacity (shaper.tokens + UInt64.ofInt (now - shaper.lastFill) * (shaper.capacity / 1000))

theorem acquire_cases (shaper : TrafficShaper) (bytes : UInt64) (now : Int) :
    bytes ≤ tokensAt shaper now ∧
      shaper.acquire bytes now = (true, { shaper with tokens := tokensAt shaper now - bytes, lastFill := now }) ∨
    ¬ bytes ≤ tokensAt shaper now ∧
      shaper.acquire bytes now = (false, { shaper with tokens := tokensAt shaper now, lastFill := now }) := by
  by_cases enough : bytes ≤ tokensAt shaper now
  · exact .inl ⟨enough, if_pos enough⟩
  · exact .inr ⟨enough, if_neg enough⟩

theorem filled_le (forward : shaper.lastFill ≤ now) :
    (tokensAt shaper now).toNat ≤
      min shaper.capacity.toNat
        (shaper.tokens.toNat + (now - shaper.lastFill).toNat * (shaper.capacity.toNat / 1000)) := by
  have elapsed := toNat_ofInt (Int.sub_nonneg_of_le forward)
  have product : (UInt64.ofInt (now - shaper.lastFill)).toNat * (shaper.capacity.toNat / 1000) ≤
      (now - shaper.lastFill).toNat * (shaper.capacity.toNat / 1000) := by
    apply Nat.mul_le_mul_right
    rw [elapsed]
    exact Nat.mod_le ..
  have wraps := Nat.mod_le ((UInt64.ofInt (now - shaper.lastFill)).toNat * (shaper.capacity.toNat / 1000)) (2 ^ 64)
  have sum : (shaper.tokens + UInt64.ofInt (now - shaper.lastFill) * (shaper.capacity / 1000)).toNat ≤
      shaper.tokens.toNat + (now - shaper.lastFill).toNat * (shaper.capacity.toNat / 1000) := by
    rw [UInt64.toNat_add, UInt64.toNat_mul, UInt64.toNat_div]
    have wraps' := Nat.mod_le (shaper.tokens.toNat +
      (UInt64.ofInt (now - shaper.lastFill)).toNat * (shaper.capacity.toNat / 1000) % 2 ^ 64) (2 ^ 64)
    exact Nat.le_trans wraps' (Nat.add_le_add_left (Nat.le_trans wraps product) _)
  rw [tokensAt, toNat_min]
  omega

theorem forward_cons {call : Int × UInt64} (forward : Forward last (call :: calls)) :
    last ≤ call.1 ∧ Forward call.1 calls := by
  obtain ⟨first, rest⟩ := List.pairwise_cons.1 forward
  exact ⟨first call.1 (by simp), rest⟩

/-! ## The upper bound -/

/-- The shaper is a bucket that may lose what it could have kept. -/
theorem granted_spends (shaper : TrafficShaper) (calls : List (Int × UInt64)) (forward : Forward shaper.lastFill calls) :
    Spends shaper.capacity.toNat (shaper.capacity.toNat / 1000) shaper.lastFill shaper.tokens.toNat (granted shaper calls) := by
  induction calls generalizing shaper with
  | nil => exact .nil
  | cons call calls ih =>
    obtain ⟨now, bytes⟩ := call
    obtain ⟨later, rest⟩ : shaper.lastFill ≤ now ∧ Forward now calls := forward_cons forward
    have bound := filled_le later
    obtain ⟨enough, acquired⟩ | ⟨-, refused⟩ := acquire_cases shaper bytes now
    · have taken := UInt64.toNat_sub_of_le _ _ enough
      have less := UInt64.le_iff_toNat_le.1 enough
      rw [granted, acquired]
      refine .cons later ?_ (ih { shaper with tokens := tokensAt shaper now - bytes, lastFill := now } rest)
      dsimp only
      rw [if_pos rfl, taken]
      omega
    · rw [granted, refused]
      exact .cons later bound (ih { shaper with tokens := tokensAt shaper now, lastFill := now } rest)

theorem granted_within (rateBps : UInt64) (start : Int) (calls : List (Int × UInt64)) (forward : Forward start calls)
    (t₁ t₂ : Int) :
    spentIn t₁ t₂ (granted (.new rateBps start) calls) ≤ rateBps.toNat + (t₂ - t₁).toNat * (rateBps.toNat / 1000) := by
  have spends : Spends rateBps.toNat (rateBps.toNat / 1000) start rateBps.toNat (granted (.new rateBps start) calls) :=
    granted_spends (.new rateBps start) calls forward
  exact spends.bounded (Nat.le_refl _)

theorem granted_within_sample : spentIn 5 7 (granted (.new 2000 0) [(5, 2000), (7, 4)]) ≤ 2000 + 2 * 2 :=
  granted_within 2000 0 [(5, 2000), (7, 4)] (by simp [Forward]) 5 7

/-! ## Availability -/

/-- Whatever was called before, a gap of a second and not more than `longest` milliseconds makes the whole capacity
available. The clock is a signed 64-bit number. -/
def Refillable (capacity : UInt64) (longest : Nat) : Prop :=
  ∀ (start : Int) (calls : List (Int × UInt64)) (gap : Nat) (bytes : UInt64), 0 ≤ start → Forward start calls →
    let shaper := acquireAll (.new capacity start) calls
    1000 ≤ gap → gap ≤ longest → shaper.lastFill + gap < 2 ^ 63 → bytes ≤ capacity →
      (shaper.acquire bytes (shaper.lastFill + gap)).1 = true

theorem acquire_fst : (shaper.acquire bytes now).1 = true ↔ bytes ≤ tokensAt shaper now := by
  obtain ⟨enough, acquired⟩ | ⟨short, refused⟩ := acquire_cases shaper bytes now
  · simp [acquired, enough]
  · simp [refused, short]

theorem tokensAt_le_capacity (shaper : TrafficShaper) (now : Int) : (tokensAt shaper now).toNat ≤ shaper.capacity.toNat := by
  rw [tokensAt, toNat_min]
  exact Nat.min_le_left ..

theorem acquire_kept (shaper : TrafficShaper) (bytes : UInt64) (now : Int) :
    (shaper.acquire bytes now).2.capacity = shaper.capacity ∧
      (shaper.acquire bytes now).2.tokens ≤ shaper.capacity := by
  have full := tokensAt_le_capacity shaper now
  obtain ⟨enough, acquired⟩ | ⟨-, refused⟩ := acquire_cases shaper bytes now
  · have taken := UInt64.toNat_sub_of_le _ _ enough
    rw [acquired]
    refine ⟨rfl, UInt64.le_iff_toNat_le.2 ?_⟩
    dsimp only
    omega
  · rw [refused]
    exact ⟨rfl, UInt64.le_iff_toNat_le.2 full⟩

theorem acquireAll_kept (shaper : TrafficShaper) (calls : List (Int × UInt64)) (fits : shaper.tokens ≤ shaper.capacity) :
    (shaper.acquireAll calls).capacity = shaper.capacity ∧ (shaper.acquireAll calls).tokens ≤ shaper.capacity := by
  induction calls generalizing shaper with
  | nil => exact ⟨rfl, fits⟩
  | cons call calls ih =>
    obtain ⟨same, fits'⟩ := acquire_kept shaper call.2 call.1
    rw [← same] at fits' ⊢
    exact ih (shaper.acquire call.2 call.1).2 fits'

/-- What is there after a gap. The product and the sum wrap. -/
theorem tokensAt_after (shaper : TrafficShaper) (gap : Nat) (short : gap < 2 ^ 64) :
    (tokensAt shaper (shaper.lastFill + gap)).toNat =
      min shaper.capacity.toNat ((shaper.tokens.toNat + gap * (shaper.capacity.toNat / 1000) % 2 ^ 64) % 2 ^ 64) := by
  have elapsed : (UInt64.ofInt (shaper.lastFill + gap - shaper.lastFill)).toNat = gap := by
    rw [toNat_ofInt (by omega)]
    omega
  rw [tokensAt, toNat_min, UInt64.toNat_add, UInt64.toNat_mul, elapsed, UInt64.toNat_div]
  rfl

theorem available_of_divisible {capacity : UInt64} {longest : Nat} (divides : 1000 ∣ capacity.toNat)
    (room : capacity.toNat + longest * (capacity.toNat / 1000) < 2 ^ 64) (range : longest < 2 ^ 63) :
    Refillable capacity longest := by
  intro start calls gap bytes _ _ shaper second upTo _ fits
  obtain ⟨same, tokens⟩ : shaper.capacity = capacity ∧ shaper.tokens ≤ capacity :=
    acquireAll_kept (.new capacity start) calls (Nat.le_refl _)
  have product : gap * (capacity.toNat / 1000) ≤ longest * (capacity.toNat / 1000) := Nat.mul_le_mul_right _ upTo
  have second' : 1000 * (capacity.toNat / 1000) ≤ gap * (capacity.toNat / 1000) := Nat.mul_le_mul_right _ second
  have tokens' := UInt64.le_iff_toNat_le.1 tokens
  apply acquire_fst.2
  apply UInt64.le_iff_toNat_le.2
  rw [tokensAt_after shaper gap (by omega), same, Nat.mod_eq_of_lt (by omega), Nat.mod_eq_of_lt (by omega)]
  have wanted := UInt64.le_iff_toNat_le.1 fits
  omega

/-- The first call leaves so many tokens, the second comes after a gap and asks for everything. -/
theorem emptied {capacity left : UInt64} {longest gap : Nat} (available : Refillable capacity longest) (fits : left ≤ capacity)
    (second : 1000 ≤ gap) (upTo : gap ≤ longest) (range : longest < 2 ^ 63) :
    capacity.toNat ≤ (left.toNat + gap * (capacity.toNat / 1000) % 2 ^ 64) % 2 ^ 64 := by
  have less := UInt64.le_iff_toNat_le.1 fits
  have taken := UInt64.toNat_sub_of_le _ _ fits
  have whole : tokensAt (.new capacity 0) 0 = capacity := by
    have bound := capacity.toNat_lt
    have after : (tokensAt (.new capacity 0) 0).toNat = _ := tokensAt_after (.new capacity 0) 0 (by omega)
    apply UInt64.toNat_inj.1
    rw [after, Nat.zero_mul, Nat.zero_mod, Nat.add_zero, TrafficShaper.new, Nat.mod_eq_of_lt bound, Nat.min_self]
  have rest : capacity - (capacity - left) = left := by
    have more : capacity - left ≤ capacity := UInt64.le_iff_toNat_le.2 (by omega)
    apply UInt64.toNat_inj.1
    rw [UInt64.toNat_sub_of_le _ _ more]
    omega
  have first : acquireAll (.new capacity 0) [(0, capacity - left)] = ⟨capacity, left, 0⟩ := by
    obtain ⟨-, acquired⟩ | ⟨short, -⟩ := acquire_cases (.new capacity 0) (capacity - left) 0
    · rw [acquireAll, List.foldl_cons, acquired, whole, rest]
      rfl
    · rw [whole] at short
      exact absurd (UInt64.le_iff_toNat_le.2 (by omega)) short
  have got := available 0 [(0, capacity - left)] gap capacity (by omega) (by simp [Forward]) second upTo
  rw [first] at got
  have enough := UInt64.le_iff_toNat_le.1 (acquire_fst.1 (got (by dsimp only; omega) (Nat.le_refl _)))
  rw [tokensAt_after _ gap (by omega)] at enough
  exact (Nat.le_min.1 enough).2

theorem available_iff (capacity : UInt64) (longest : Nat) (second : 1000 ≤ longest) (range : longest < 2 ^ 63) :
    Refillable capacity longest ↔ 1000 ∣ capacity.toNat ∧ capacity.toNat + longest * (capacity.toNat / 1000) < 2 ^ 64 := by
  refine ⟨fun available => ?_, fun ⟨divides, room⟩ => available_of_divisible divides room range⟩
  have bound := capacity.toNat_lt
  have divides : 1000 ∣ capacity.toNat := by
    -- An empty bucket gets a thousand times the rounded rate.
    have zero : 0 ≤ capacity := UInt64.le_iff_toNat_le.2 (Nat.zero_le _)
    have refilled := emptied available zero (Nat.le_refl 1000) second range
    rw [UInt64.toNat_zero, Nat.zero_add, Nat.mod_mod, Nat.mod_eq_of_lt (by omega)] at refilled
    omega
  refine ⟨divides, Nat.lt_of_not_le fun wraps => ?_⟩
  obtain ⟨rate, same⟩ := divides
  have quotient : capacity.toNat / 1000 = rate := by omega
  rw [quotient] at wraps
  -- A gap whose product still fits, while the sum with a full bucket does not.
  obtain ⟨gap, least, upTo, product, full⟩ : ∃ gap, 1000 ≤ gap ∧ gap ≤ longest ∧ gap * rate < 2 ^ 64 ∧
      2 ^ 64 ≤ capacity.toNat + gap * rate := by
    by_cases fits : longest * rate < 2 ^ 64
    · exact ⟨longest, second, Nat.le_refl _, fits, wraps⟩
    · have positive : 0 < rate := by
        apply Nat.pos_of_ne_zero
        rintro rfl
        omega
      have below := Nat.div_mul_le_self (2 ^ 64 - 1) rate
      have above : 2 ^ 64 - 1 < (2 ^ 64 - 1) / rate * rate + rate := Nat.lt_div_mul_add positive
      have least : 1000 ≤ (2 ^ 64 - 1) / rate := (Nat.le_div_iff_mul_le positive).2 (by omega)
      have upTo : (2 ^ 64 - 1) / rate < longest := (Nat.div_lt_iff_lt_mul positive).2 (by omega)
      exact ⟨(2 ^ 64 - 1) / rate, least, Nat.le_of_lt upTo, by omega, by omega⟩
  have short : 2 ^ 64 - gap * rate < 2 ^ 64 := by omega
  have left : (UInt64.ofNat (2 ^ 64 - gap * rate)).toNat = 2 ^ 64 - gap * rate := UInt64.toNat_ofNat_of_lt' short
  have fits : UInt64.ofNat (2 ^ 64 - gap * rate) ≤ capacity := by
    apply UInt64.le_iff_toNat_le.2
    rw [left]
    omega
  have refilled := emptied available fits least upTo range
  have sum : 2 ^ 64 - gap * rate + gap * rate = 2 ^ 64 := by omega
  rw [left, quotient, Nat.mod_eq_of_lt product, sum, Nat.mod_self] at refilled
  omega

theorem available_iff_sample : Refillable 2000 600000 :=
  (available_iff 2000 600000 (by decide) (by decide)).2 (by decide)

/-- A rate of 999 bytes in a second is none in a millisecond. -/
theorem never_refilled : ¬ Refillable 999 1000 := by
  intro available
  have got := available 0 [(0, 999)] 1000 999 (by decide) (by simp [Forward]) (by decide) (by decide) (by decide) (by decide)
  exact absurd got (by decide)

end Cassobee.Proofs
