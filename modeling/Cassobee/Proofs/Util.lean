import Cassobee.Util

/-! Percent coding is lossless: the two tables agree with the hex digits, and no byte that is written
for itself is read as the beginning of something else. -/

namespace Cassobee.Proofs

def UpperHex (h : UInt8) : Prop := 48 ≤ h ∧ h ≤ 57 ∨ 65 ≤ h ∧ h ≤ 70

instance (h : UInt8) : Decidable (UpperHex h) := inferInstanceAs (Decidable (_ ∨ _))

/-- What `url_encode` may write. -/
inductive Encoded (spaceAsPlus : Bool) : List UInt8 → Prop where
  | nil : Encoded spaceAsPlus []
  | unreserved {c : UInt8} {rest : List UInt8} :
      charIsUnreserved c → Encoded spaceAsPlus rest → Encoded spaceAsPlus (c :: rest)
  | plus {rest : List UInt8} : spaceAsPlus → Encoded spaceAsPlus rest → Encoded spaceAsPlus (43 :: rest)
  | escape {h1 h2 : UInt8} {rest : List UInt8} :
      UpperHex h1 → UpperHex h2 → Encoded spaceAsPlus rest → Encoded spaceAsPlus (37 :: h1 :: h2 :: rest)

/-- A table has a row for every byte. -/
theorem forall_byte {P : UInt8 → Prop} (rows : ∀ n < 256, P (UInt8.ofNat n)) (c : UInt8) : P c := by
  have row := rows c.toNat c.toNat_lt
  rwa [UInt8.ofNat_toNat] at row

theorem unreserved_plain {c : UInt8} (unreserved : charIsUnreserved c) : c ≠ 37 ∧ c ≠ 43 := by
  constructor
  · intro same
    subst same
    exact absurd unreserved (by decide)
  · intro same
    subst same
    exact absurd unreserved (by decide)

theorem hexChar_upper (c : UInt8) : UpperHex (hexChar (c >>> 4)) ∧ UpperHex (hexChar (c &&& 0x0F)) := by
  revert c
  apply forall_byte
  decide +kernel

theorem hexChar_xdigit (c : UInt8) : isXdigit (hexChar (c >>> 4)) ∧ isXdigit (hexChar (c &&& 0x0F)) := by
  revert c
  apply forall_byte
  decide +kernel

theorem xdigit_hexChar (c : UInt8) : xdigit (hexChar (c >>> 4)) <<< 4 ||| xdigit (hexChar (c &&& 0x0F)) = c := by
  revert c
  apply forall_byte
  decide +kernel

/-! ## Reading one byte -/

theorem urlDecodeFrom_plain {spaceAsPlus : Bool} {c : UInt8} (plain : c ≠ 37) (rest : List UInt8) :
    urlDecodeFrom spaceAsPlus (c :: rest) = plusToSpace spaceAsPlus c :: urlDecodeFrom spaceAsPlus rest := by
  match rest with
  | [] => rfl
  | [_] => rfl
  | h1 :: h2 :: rest => rw [urlDecodeFrom, if_neg plain]

theorem urlDecodeFrom_escape (spaceAsPlus : Bool) (c : UInt8) (rest : List UInt8) :
    urlDecodeFrom spaceAsPlus (37 :: hexChar (c >>> 4) :: hexChar (c &&& 0x0F) :: rest) =
      c :: urlDecodeFrom spaceAsPlus rest := by
  have digits := hexChar_xdigit c
  rw [urlDecodeFrom, if_pos rfl, if_pos (by simp [digits.1, digits.2]), xdigit_hexChar]

/-- A blank that is written as `+` is read as a blank only under the same flag. -/
theorem urlDecodeFrom_encodeByte {p q : Bool} (implies : p → q) (c : UInt8) (rest : List UInt8) :
    urlDecodeFrom q (urlEncodeByte p c ++ rest) = c :: urlDecodeFrom q rest := by
  rw [urlEncodeByte]
  split
  case isTrue unreserved =>
    have plain := unreserved_plain unreserved
    rw [List.singleton_append, urlDecodeFrom_plain plain.1]
    simp [plusToSpace, plain.2]
  case isFalse =>
    split
    case isTrue blank =>
      simp only [Bool.and_eq_true, decide_eq_true_eq] at blank
      rw [List.singleton_append, urlDecodeFrom_plain (by decide)]
      simp [plusToSpace, implies blank.1, blank.2]
    case isFalse =>
      apply urlDecodeFrom_escape

theorem urlDecode_urlEncode {p q : Bool} (implies : p → q) (str : List UInt8) : urlDecode (urlEncode str p) q = str := by
  rw [urlDecode, urlEncode]
  induction str with
  | nil => rfl
  | cons c str ih => rw [List.flatMap_cons, urlDecodeFrom_encodeByte implies, ih]

/-! ## What is written -/

theorem urlEncodeByte_encoded (p : Bool) (c : UInt8) {rest : List UInt8} (encoded : Encoded p rest) :
    Encoded p (urlEncodeByte p c ++ rest) := by
  rw [urlEncodeByte]
  split
  case isTrue unreserved =>
    apply Encoded.unreserved unreserved encoded
  case isFalse =>
    split
    case isTrue blank =>
      simp only [Bool.and_eq_true] at blank
      apply Encoded.plus blank.1 encoded
    case isFalse =>
      have digits := hexChar_upper c
      apply Encoded.escape digits.1 digits.2 encoded

theorem urlEncode_encoded (p : Bool) (str : List UInt8) : Encoded p (urlEncode str p) := by
  rw [urlEncode]
  induction str with
  | nil => apply Encoded.nil
  | cons c str ih =>
    rw [List.flatMap_cons]
    apply urlEncodeByte_encoded p c ih

/-- What is encoded is read back as it was, whatever it contains, and it is written in the letters of a
URL only. -/
theorem percent_coding (str : List UInt8) (p q : Bool) (implies : p → q) :
    urlDecode (urlEncode str p) q = str ∧ Encoded p (urlEncode str p) :=
  ⟨urlDecode_urlEncode implies str, urlEncode_encoded p str⟩

theorem percent_coding_of_mixed :
    urlDecode (urlEncode (asciiBytes "%4 1+") true) true = asciiBytes "%4 1+" ∧
      Encoded true (urlEncode (asciiBytes "%4 1+") true) :=
  percent_coding (asciiBytes "%4 1+") true true id

end Cassobee.Proofs
