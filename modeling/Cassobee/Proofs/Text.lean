import Cassobee.HttpProtocol
import Cassobee.Support.Cut

/-! `find` at the first occurrence of a byte, and numbers in decimal digits. -/

namespace Cassobee.Proofs
open Support

theorem clean_iff {text : List UInt8} {ch : UInt8} : (∀ c ∈ text, decide (c = ch) = false) ↔ ch ∉ text := by
  constructor
  · intro clean member
    simpa using clean ch member
  · intro absent c member
    simpa using ne_of_mem_of_not_mem member absent

theorem findByte_absent {text : List UInt8} {ch : UInt8} (absent : ch ∉ text) : findByte text ch 0 = none := by
  rw [findByte, List.drop_zero, List.findIdx?_eq_none_iff.2 (clean_iff.2 absent), Option.map_none]

theorem findByte_first {before after : List UInt8} {ch : UInt8} (absent : ch ∉ before) :
    findByte (before ++ ch :: after) ch 0 = some before.length := by
  rw [findByte, List.drop_zero, findIdx?_of_first (clean_iff.2 absent) (by simp)]
  simp

theorem take_first (before after : List UInt8) (ch : UInt8) : (before ++ ch :: after).take before.length = before :=
  List.take_left

theorem drop_first (before after : List UInt8) (ch : UInt8) : (before ++ ch :: after).drop (before.length + 1) = after := by
  rw [← List.drop_drop, List.drop_left, List.drop_one, List.tail_cons]

/-- A text has no such byte, or is cut at the first one. -/
theorem cut_byte (text : List UInt8) (ch : UInt8) : ch ∉ text ∨ ∃ before after, text = before ++ ch :: after ∧ ch ∉ before := by
  by_cases member : ch ∈ text
  · obtain ⟨before, after, same, absent⟩ := List.eq_append_cons_of_mem member
    exact .inr ⟨before, after, same, absent⟩
  · exact .inl member

/-- `find` from behind the first part on. -/
theorem findByte_behind (before after : List UInt8) (ch : UInt8) :
    findByte (before ++ after) ch before.length = (findByte after ch 0).map (before.length + ·) := by
  rw [findByte, findByte, List.drop_left, List.drop_zero, Option.map_map]
  congr 1
  funext index
  simp

/-! ## Numbers -/

def Digit (byte : UInt8) : Prop := 48 ≤ byte ∧ byte ≤ 57

instance (byte : UInt8) : Decidable (Digit byte) := inferInstanceAs (Decidable (_ ∧ _))

def digitsValue (text : List UInt8) : Nat := text.foldl (fun n digit => 10 * n + (digit.toNat - 48)) 0

theorem digit_plain {byte : UInt8} (digit : Digit byte) :
    byte ≠ 0 ∧ byte ≠ 10 ∧ byte ≠ 43 ∧ byte ≠ 45 ∧ ¬ (byte = 32 ∨ 9 ≤ byte ∧ byte ≤ 13) := by
  simp only [Digit, UInt8.le_iff_toNat_le, ne_eq, ← UInt8.toNat_inj] at digit ⊢
  simp at digit ⊢
  omega

section Scanning
variable {text tail : List UInt8} (written : text ≠ []) (digits : ∀ byte ∈ text, Digit byte)
  (ends : ∀ byte ∈ tail.head?, ¬ Digit byte)
include digits

theorem cString_digits : cString (text ++ tail) = text ++ cString tail := by
  rw [cString, List.takeWhile_append_of_pos]
  · rfl
  · intro byte member
    simpa using (digit_plain (digits byte member)).1

include ends

theorem takeWhile_digits : (text ++ cString tail).takeWhile (fun byte => 48 ≤ byte ∧ byte ≤ 57) = text := by
  rw [List.takeWhile_append_of_pos]
  · cases tail with
    | nil => simp [cString]
    | cons byte tail =>
      have other := ends byte rfl
      rw [cString, List.takeWhile_cons]
      split
      · rw [List.takeWhile_cons_of_neg (by simpa [Digit] using other), List.append_nil]
      · simp
  · intro byte member
    simpa [Digit] using digits byte member

include written

theorem scanNumber_digits : scanNumber (text ++ tail) = some (false, digitsValue text) := by
  have scanned := takeWhile_digits digits ends
  rw [scanNumber, cString_digits digits]
  cases text with
  | nil => exact absurd rfl written
  | cons byte text =>
    obtain ⟨-, -, plus, minus, blank⟩ := digit_plain (digits byte (by simp))
    rw [List.cons_append, List.dropWhile_cons_of_neg (by simpa using blank)]
    simp only [List.head?_cons, Option.some.injEq, plus, minus, or_self, if_false, decide_false]
    rw [← List.cons_append, scanned, if_neg (by simp)]
    rfl

theorem scanNumber_minus : scanNumber (45 :: (text ++ tail)) = some (true, digitsValue text) := by
  have scanned := takeWhile_digits digits ends
  have whole : cString (45 :: (text ++ tail)) = 45 :: (text ++ cString tail) := by
    rw [cString, List.takeWhile_cons_of_pos (by decide), ← cString, cString_digits digits]
  rw [scanNumber, whole, List.dropWhile_cons_of_neg (by decide)]
  simp only [List.head?_cons, true_or, if_true, List.tail_cons, decide_true]
  rw [scanned, if_neg written]
  rfl

end Scanning

theorem decimal_eq (n : Nat) : decimal n = (Nat.toDigits 10 n).map fun c => UInt8.ofNat c.toNat := by
  rw [decimal, asciiBytes, Nat.toString_eq_ofList_toDigits, String.toList_ofList]

theorem decimal_ne_nil (n : Nat) : decimal n ≠ [] := by
  rw [decimal_eq]
  simp

theorem isDigit_byte {c : Char} (digit : c.isDigit) : Digit (UInt8.ofNat c.toNat) ∧ (UInt8.ofNat c.toNat).toNat = c.toNat := by
  have range : 48 ≤ c.toNat ∧ c.toNat ≤ 57 := by
    simpa [Char.isDigit, UInt32.le_iff_toNat_le] using digit
  have same : (UInt8.ofNat c.toNat).toNat = c.toNat := by
    rw [UInt8.toNat_ofNat']
    omega
  refine ⟨?_, same⟩
  simpa [Digit, UInt8.le_iff_toNat_le, same] using range

theorem decimal_digits {n : Nat} : ∀ byte ∈ decimal n, Digit byte := by
  intro byte member
  rw [decimal_eq] at member
  obtain ⟨c, inside, rfl⟩ := List.mem_map.1 member
  exact (isDigit_byte (Nat.isDigit_of_mem_toDigits (by decide) (by decide) inside)).1

theorem digitsValue_chars {chars : List Char} (digits : ∀ c ∈ chars, c.isDigit) (value : Nat) :
    (chars.map fun c => UInt8.ofNat c.toNat).foldl (fun n digit => 10 * n + (digit.toNat - 48)) value =
      Nat.ofDigitChars 10 chars value := by
  induction chars generalizing value with
  | nil => rw [Nat.ofDigitChars_nil, List.map_nil, List.foldl_nil]
  | cons c chars ih =>
    rw [List.forall_mem_cons] at digits
    rw [List.map_cons, List.foldl_cons, (isDigit_byte digits.1).2, ih digits.2, Nat.ofDigitChars_cons]
    rfl

theorem digitsValue_decimal (n : Nat) : digitsValue (decimal n) = n := by
  have digits : ∀ c ∈ Nat.toDigits 10 n, c.isDigit := fun c member =>
    Nat.isDigit_of_mem_toDigits (by decide) (by decide) member
  rw [decimal_eq, digitsValue, digitsValue_chars digits, Nat.ofDigitChars_ten_toDigits]

end Cassobee.Proofs
