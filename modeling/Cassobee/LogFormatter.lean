import Cassobee.HttpProtocol

/-! The constructor of `log_formatter` in `log/log_formatter.cpp`: the scanner of the pattern and the items
that it makes. -/

namespace Cassobee

/-- Only the items for times and for texts keep the string that they are made with. -/
inductive FormatItem where
  | message | loglevel | elapse | procname | threadid | newline
  | datetime (fmt : List UInt8)
  | filename | line | tab | fiberid
  | string (str : List UInt8)
  deriving DecidableEq, Repr

/-- The keys of `format_items_creators`. -/
inductive DirectiveKey where
  | m | p | r | c | t | n | d | f | l | T | F
  deriving DecidableEq, Repr

namespace DirectiveKey

def byte : DirectiveKey → UInt8
  | m => 109
  | p => 112
  | r => 114
  | c => 99
  | t => 116
  | n => 110
  | d => 100
  | f => 102
  | l => 108
  | T => 84
  | F => 70

def all : List DirectiveKey := [m, p, r, c, t, n, d, f, l, T, F]

def create (fmt : List UInt8) : DirectiveKey → FormatItem
  | m => .message
  | p => .loglevel
  | r => .elapse
  | c => .procname
  | t => .threadid
  | n => .newline
  | d => .datetime fmt
  | f => .filename
  | l => .line
  | T => .tab
  | F => .fiberid

end DirectiveKey

/-- `str`, `format` and whether it is a text. -/
structure PatternPart where
  str : List UInt8
  fmt : List UInt8
  isstr : Bool
  deriving DecidableEq, Repr

def isalpha (char : UInt8) : Bool := (65 ≤ char && char ≤ 90) || (97 ≤ char && char ≤ 122)

/-- What the inner loop leaves: the key, the format, whether the brace is still open, and the pattern from
index `n` on. -/
structure ScannedKey where
  str : List UInt8
  fmt : List UInt8
  parseFmt : Bool
  rest : List UInt8
  deriving DecidableEq, Repr

namespace LogFormatter

/-- The inner loop behind `{`. -/
def scanFmt (str : List UInt8) : (fmt : List UInt8) → List UInt8 → ScannedKey
  | _, [] => ⟨str, [], true, []⟩
  | fmt, char :: rest => if char = 125 then ⟨str, fmt, false, rest⟩ else scanFmt str (fmt ++ [char]) rest

/-- The inner loop before `{`. The end of the pattern ends the key. -/
def scanKey : (str : List UInt8) → List UInt8 → ScannedKey
  | str, [] => ⟨str, [], false, []⟩
  | str, char :: rest =>
    if ¬ isalpha char ∧ char ≠ 123 ∧ char ≠ 125 then ⟨str, [], false, char :: rest⟩
    else if char = 123 then scanFmt str [] rest
    else scanKey (str ++ [char]) rest

theorem scanFmt_rest (str fmt rest : List UInt8) : (scanFmt str fmt rest).rest.length ≤ rest.length := by
  induction rest generalizing fmt with
  | nil => simp [scanFmt]
  | cons char rest ih =>
    rw [scanFmt]
    split
    · simp
    · exact Nat.le_trans (ih _) (Nat.le_succ _)

theorem scanKey_rest (str rest : List UInt8) : (scanKey str rest).rest.length ≤ rest.length := by
  induction rest generalizing str with
  | nil => simp [scanKey]
  | cons char rest ih =>
    rw [scanKey]
    split
    · simp
    · split
      · exact Nat.le_trans (scanFmt_rest str [] rest) (Nat.le_succ _)
      · exact Nat.le_trans (ih _) (Nat.le_succ _)

/-- `nstr` is the text that is not in `vec` yet. -/
structure ScanState where
  nstr : List UInt8
  vec : List PatternPart
  error : Bool
  deriving DecidableEq, Repr

namespace ScanState

def push (state : ScanState) (char : UInt8) : ScanState := { state with nstr := state.nstr ++ [char] }

/-- The text goes to `vec` if there is some. -/
def flush (state : ScanState) : ScanState :=
  if state.nstr = [] then state else { state with vec := state.vec ++ [⟨state.nstr, [], true⟩], nstr := [] }

def directive (state : ScanState) (key : ScannedKey) : ScanState :=
  { state.flush with vec := state.flush.vec ++ [⟨key.str, key.fmt, false⟩] }

def fail (state : ScanState) : ScanState :=
  { state with error := true, vec := state.vec ++ [⟨asciiBytes "<<pattern_error>>", [], true⟩] }

end ScanState

/-- The outer loop. For `"%%"` it goes on with the second `%`, and where the brace stays open, with what stands
behind the `%`. -/
def scan (pattern : List UInt8) (state : ScanState) : ScanState :=
  match pattern with
  | [] => state
  | char :: rest =>
    if char ≠ 37 then scan rest (state.push char)
    else if rest.head? = some 37 then scan rest (state.push 37)
    else if (scanKey [] rest).parseFmt then scan rest state.fail
    else scan (scanKey [] rest).rest (state.directive (scanKey [] rest))
termination_by pattern.length
decreasing_by
  all_goals
    have left := scanKey_rest [] rest
    simp only [List.length_cons]
    omega

/-- The item of a part, and whether its key is known. -/
def createItem (part : PatternPart) : FormatItem × Bool :=
  if part.isstr then (.string part.str, true)
  else
    match DirectiveKey.all.find? fun key => part.str = [key.byte] with
    | some key => (key.create part.fmt, true)
    | none => (.string (asciiBytes "<<error_format %" ++ part.str ++ asciiBytes ">>"), false)

end LogFormatter

structure LogFormatter where
  items : List FormatItem
  error : Bool
  deriving DecidableEq, Repr

namespace LogFormatter

def create (pattern : List UInt8) : LogFormatter :=
  let state := (scan pattern ⟨[], [], false⟩).flush
  { items := state.vec.map fun part => (createItem part).1
    error := state.error || state.vec.any fun part => !(createItem part).2 }

end LogFormatter
end Cassobee
