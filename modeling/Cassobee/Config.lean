import Cassobee.HttpParams

/-! `config::parse` and `config::reload` of `common/config.cpp`. -/

namespace Cassobee

/-- `" \t\n\r"`. -/
def blanks : List UInt8 := [32, 9, 10, 13]

def rtrim (str delim : List UInt8) : List UInt8 := (str.reverse.dropWhile fun c => c ∈ delim).reverse

/-- `line` is what `getline` has so far. Behind the last newline there is a line only if it is not empty. -/
def linesFrom (line : List UInt8) : List UInt8 → List (List UInt8)
  | [] => if line = [] then [] else [line]
  | c :: rest => if c = 10 then line :: linesFrom [] rest else linesFrom (line ++ [c]) rest

def fileLines (content : List UInt8) : List (List UInt8) := linesFrom [] content

/-- What `CHECK_BUG` does when its expression is false: the second argument with `_OPEN_VERSION`, else an
assertion, which is nothing with `NDEBUG`. -/
inductive CheckBug where
  | doSth | asserts | nothing
  deriving DecidableEq, Repr

/-- `SECTION_MAP`. -/
abbrev SectionMap := List UInt8 → Option StringMap

namespace Config

/-- The variables of the loop. -/
structure ParseVars where
  sectionName : List UInt8
  sections : SectionMap

/-- How `parse` ends before the end of the file. -/
inductive ParseEnd where
  | returned | aborted
  deriving DecidableEq, Repr

/-- `_sections[section].emplace(key, value)`. -/
def emplace (sections : SectionMap) (sectionName key value : List UInt8) : Bool × SectionMap :=
  let items := (sections sectionName).getD fun _ => none
  match items key with
  | none => (true, Function.update sections sectionName (some (Function.update items key (some value))))
  | some _ => (false, Function.update sections sectionName (some items))

/-- The value without a comment behind it. -/
def eraseComment (value : List UInt8) : List UInt8 :=
  match findByte value 35 0 with
  | some n => rtrim (value.take n) blanks
  | none => value

/-- `CHECK_BUG(_sections[section].emplace(key, value).second, ...)`. -/
def checkEmplace (check : CheckBug) (vars : ParseVars) (key value : List UInt8) : Except ParseEnd ParseVars :=
  match emplace vars.sections vars.sectionName key value with
  | (true, sections) => .ok { vars with sections }
  | (false, sections) =>
    match check with
    | .doSth => .error .returned
    | .asserts => .error .aborted
    | .nothing => .ok { vars with sections }

/-- `front()` of an empty key is the zero byte behind it. Whichever byte it is, such a line is skipped. -/
def parseItem (check : CheckBug) (vars : ParseVars) (line : List UInt8) (pos : Nat) : Except ParseEnd ParseVars :=
  let key := trim (line.take pos) blanks
  let value := trim (line.drop (pos + 1)) blanks
  if key.headD 0 = 35 then .ok vars
  else
    let value := eraseComment value
    if key = [] ∨ value = [] then .ok vars else checkEmplace check vars key value

def parseLine (check : CheckBug) (vars : ParseVars) (line : List UInt8) : Except ParseEnd ParseVars :=
  if line = [] then .ok vars
  else if line.head? = some 91 ∧ line.getLast? = some 93 then
    .ok { vars with sectionName := (line.drop 1).take (line.length - 2) }
  else
    match findByte line 61 0 with
    | some pos => parseItem check vars line pos
    | none => .ok vars

def parse (check : CheckBug) (content : List UInt8) (sections : SectionMap) : Except ParseEnd ParseVars :=
  (fileLines content).foldlM (parseLine check) ⟨[], sections⟩

/-- What `reload` returns, with `_sections` after it. `file` is `none` where the file cannot be opened, and the
result is `none` where an assertion ends the process. -/
def reload (check : CheckBug) (file : Option (List UInt8)) (sections : SectionMap) : Option (Bool × SectionMap) :=
  match file with
  | none => some (false, sections)
  | some content =>
    let oldConfig := sections
    match parse check content fun _ => none with
    | .ok vars => some (true, vars.sections)
    | .error .returned => some (false, oldConfig)
    | .error .aborted => none

end Config
end Cassobee
