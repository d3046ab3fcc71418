import Cassobee.Config
import Cassobee.Proofs.Text

/-! What `reload` makes of a file in the usual form, and of one in which a key comes twice. -/

namespace Cassobee.Proofs
open Support Config

structure ConfigKey where
  text : List UInt8
  nonempty : text ≠ []
  trimmed : trim text blanks = text
  plain : 61 ∉ text
  first : text.head? ≠ some 35 ∧ text.head? ≠ some 91

structure ConfigValue where
  text : List UInt8
  nonempty : text ≠ []
  trimmed : trim text blanks = text
  plain : 35 ∉ text

/-- A line in the usual form. Behind an item there may be a remark. -/
inductive FileLine where
  | empty
  | comment (text : List UInt8)
  | header (name : List UInt8)
  | item (key : ConfigKey) (value : ConfigValue) (remark : Option (List UInt8))

namespace FileLine

def text : FileLine → List UInt8
  | .empty => []
  | .comment text => 35 :: text
  | .header name => 91 :: name ++ [93]
  | .item key value remark => key.text ++ 61 :: (value.text ++ (remark.map fun text => 32 :: 35 :: text).getD [])

end FileLine

/-- The items of the file, each with the section it stands in. -/
def entriesOf : (name : List UInt8) → List FileLine → List ((List UInt8 × List UInt8) × List UInt8)
  | _, [] => []
  | _, .header name :: lines => entriesOf name lines
  | name, .item key value _ :: lines => ((name, key.text), value.text) :: entriesOf name lines
  | name, _ :: lines => entriesOf name lines

/-- The map has the items, and no section without one. -/
structure Listed (sections : SectionMap) (entries : List ((List UInt8 × List UInt8) × List UInt8)) : Prop where
  has : ∀ name key value, ((name, key), value) ∈ entries ↔ ((sections name).bind fun items => items key) = some value
  occupied : ∀ name items, sections name = some items → ∃ key, items key ≠ none

/-- The name in brackets. -/
def headerName (line : List UInt8) : Option (List UInt8) :=
  match line with
  | 91 :: rest => if rest.getLast? = some 93 then some rest.dropLast else none
  | _ => none

/-- The section in which the line behind these stands. -/
def sectionAfter (name : List UInt8) (lines : List (List UInt8)) : List UInt8 :=
  lines.foldl (fun name line => (headerName line).getD name) name

variable {sections : SectionMap} {entries : List ((List UInt8 × List UInt8) × List UInt8)} {check : CheckBug}
  {vars next : ParseVars} {name line : List UInt8}

/-! ## Trimming -/

section
variable {delim before after text : List UInt8} {c : UInt8}

theorem rtrim_append (other : c ∉ delim) (before after : List UInt8) :
    rtrim (before ++ c :: after) delim = before ++ c :: rtrim after delim := by
  have stays : (c :: before.reverse).dropWhile (· ∈ delim) = c :: before.reverse := by
    rw [List.dropWhile_cons_of_neg (by simpa using other)]
  rw [rtrim, rtrim, List.reverse_append, List.reverse_cons, List.append_assoc, List.singleton_append, List.dropWhile_append]
  split
  next none =>
    rw [stays, List.isEmpty_iff.1 none]
    simp
  next => simp

theorem rtrim_concat (member : c ∈ delim) (text : List UInt8) : rtrim (text ++ [c]) delim = rtrim text delim := by
  rw [rtrim, List.reverse_concat, List.dropWhile_cons_of_pos (by simpa using member), rtrim]

theorem length_rtrim (text delim : List UInt8) : (rtrim text delim).length ≤ text.length := by
  have cut := (List.dropWhile_sublist (l := text.reverse) fun c => decide (c ∈ delim)).length_le
  rw [List.length_reverse] at cut
  rwa [rtrim, List.length_reverse]

theorem trim_eq (text delim : List UInt8) : trim text delim = rtrim (text.dropWhile fun c => c ∈ delim) delim := rfl

/-- A trimmed text does not begin with a blank. -/
theorem first_of_trimmed (trimmed : trim text delim = text) : (text.dropWhile fun c => c ∈ delim) = text := by
  cases text with
  | nil => rfl
  | cons c rest =>
    by_cases member : c ∈ delim
    · have shorter := length_rtrim (rest.dropWhile fun c => c ∈ delim) delim
      have cut := (List.dropWhile_sublist (l := rest) fun c => decide (c ∈ delim)).length_le
      rw [trim_eq, List.dropWhile_cons_of_pos (by simpa using member)] at trimmed
      rw [trimmed, List.length_cons] at shorter
      omega
    · exact List.dropWhile_cons_of_neg (by simpa using member)

theorem rtrim_of_trimmed (trimmed : trim text delim = text) : rtrim text delim = text := by
  rw [trim_eq, first_of_trimmed trimmed] at trimmed
  exact trimmed

theorem trim_append (trimmed : trim text delim = text) (nonempty : text ≠ []) (after : List UInt8) :
    trim (text ++ after) delim = rtrim (text ++ after) delim := by
  have first := first_of_trimmed trimmed
  rw [trim_eq, List.dropWhile_append, first, if_neg (by simpa using nonempty)]

end

/-! ## One line -/

theorem emplace_new {key : List UInt8} (absent : ((sections name).bind fun items => items key) = none) (value : List UInt8) :
    emplace sections name key value =
      (true, Function.update sections name (some (Function.update ((sections name).getD fun _ => none) key (some value)))) := by
  have missing : ((sections name).getD fun _ => none) key = none := by
    cases found : sections name with
    | none => rfl
    | some items => simpa [found] using absent
  unfold emplace
  dsimp only
  rw [missing]

theorem emplace_repeated {key other : List UInt8} (present : ((sections name).bind fun items => items key) = some other)
    (value : List UInt8) : emplace sections name key value = (false, sections) := by
  obtain ⟨items, found, has⟩ := Option.bind_eq_some_iff.1 present
  unfold emplace
  rw [found]
  dsimp only [Option.getD_some]
  rw [has, ← found, Function.update_eq_self]

theorem parseLine_empty (check : CheckBug) (vars : ParseVars) : parseLine check vars [] = .ok vars := if_pos rfl

theorem parseLine_comment (check : CheckBug) (vars : ParseVars) (text : List UInt8) :
    parseLine check vars (35 :: text) = .ok vars := by
  rw [parseLine, if_neg (by simp), if_neg (by simp)]
  rcases cut_byte (35 :: text) 61 with absent | ⟨before, after, same, absent⟩
  · rw [findByte_absent absent]
  · rw [same, findByte_first absent]
    dsimp only
    obtain ⟨rest, rfl⟩ : ∃ rest, before = 35 :: rest := by
      cases before with
      | nil => simp at same
      | cons c rest => exact ⟨rest, by rw [(List.cons.inj same).1]⟩
    have key : trim (35 :: rest) blanks = 35 :: rtrim rest blanks := by
      rw [trim_eq, List.dropWhile_cons_of_neg (by simp [blanks])]
      exact rtrim_append (by simp [blanks]) [] rest
    rw [parseItem, take_first, key]
    exact if_pos rfl

theorem parseLine_header (check : CheckBug) (vars : ParseVars) (name : List UInt8) :
    parseLine check vars (91 :: name ++ [93]) = .ok { vars with sectionName := name } := by
  have inner : ((91 :: name ++ [93]).drop 1).take ((91 :: name ++ [93]).length - 2) = name := by simp
  have last : (91 :: name ++ [93]).getLast? = some 93 := List.getLast?_concat ..
  rw [parseLine, if_neg (by simp), if_pos ⟨by simp, last⟩, inner]

/-- What is left of the text behind the sign once the remark is cut off. -/
theorem eraseComment_item (value : ConfigValue) (remark : Option (List UInt8)) :
    eraseComment (trim (value.text ++ (remark.map fun text => 32 :: 35 :: text).getD []) blanks) = value.text := by
  cases remark with
  | none =>
    have whole : value.text ++ ((none : Option (List UInt8)).map fun text => 32 :: 35 :: text).getD [] = value.text := by
      simp
    rw [whole, value.trimmed, eraseComment, findByte_absent value.plain]
  | some remark =>
    have cut : trim (value.text ++ 32 :: 35 :: remark) blanks = (value.text ++ [32]) ++ 35 :: rtrim remark blanks := by
      rw [trim_append value.trimmed value.nonempty, List.append_cons]
      exact rtrim_append (by simp [blanks]) _ remark
    have plain : 35 ∉ value.text ++ [32] := by simp [value.plain]
    rw [Option.map_some, Option.getD_some, cut, eraseComment, findByte_first plain]
    dsimp only
    rw [take_first, rtrim_concat (by simp [blanks]), rtrim_of_trimmed value.trimmed]

/-- A line of the file is an item that goes into the section, or is refused there. -/
theorem parseLine_item (check : CheckBug) (vars : ParseVars) (key : ConfigKey) (value : ConfigValue)
    (remark : Option (List UInt8)) :
    parseLine check vars (FileLine.item key value remark).text = checkEmplace check vars key.text value.text := by
  obtain ⟨c, rest, same⟩ := List.exists_cons_of_ne_nil key.nonempty
  have first := key.first
  rw [same] at first
  have head : (FileLine.item key value remark).text.head? ≠ some 91 := by
    simpa [FileLine.text, same] using first.2
  have sign : key.text.headD 0 ≠ 35 := by simpa [same] using first.1
  rw [parseLine, if_neg (by simp [FileLine.text]), if_neg (fun bracketed => head bracketed.1), FileLine.text,
    findByte_first key.plain]
  dsimp only
  rw [parseItem, take_first, drop_first, key.trimmed, if_neg sign]
  dsimp only
  rw [eraseComment_item value remark, if_neg (not_or.2 ⟨key.nonempty, value.nonempty⟩)]

/-! ## A file in the usual form -/

theorem Listed.emplace {key : List UInt8} (listed : Listed sections entries) (value : List UInt8)
    (absent : (name, key) ∉ entries.map Prod.fst) :
    ∃ after, Config.emplace sections name key value = (true, after) ∧ Listed after (entries ++ [((name, key), value)]) := by
  have missing : ((sections name).bind fun items => items key) = none := by
    apply Option.eq_none_iff_forall_ne_some.2
    intro other found
    exact absent (List.mem_map_of_mem ((listed.has name key other).2 found))
  refine ⟨_, emplace_new missing value, fun section' key' value' => ?_, fun section' items found => ?_⟩
  · rw [List.mem_append, listed.has, List.mem_singleton]
    by_cases here : section' = name
    · subst here
      rw [Function.update_self, Option.bind_some]
      by_cases same : key' = key
      · subst same
        simp [missing, eq_comm]
      · rw [Function.update_of_ne same]
        cases sections section' <;> simp [same]
    · simp [here]
  · by_cases here : section' = name
    · subst here
      rw [Function.update_self] at found
      refine ⟨key, ?_⟩
      rw [← Option.some.inj found, Function.update_self]
      exact Option.some_ne_none _
    · rw [Function.update_of_ne here] at found
      exact listed.occupied section' items found

theorem Listed.unique {other : SectionMap} (one : Listed sections entries) (two : Listed other entries) : sections = other := by
  have less {one two : SectionMap} (listed : Listed one entries) (also : Listed two entries) {name : List UInt8}
      {items : StringMap} (found : one name = some items) : two name = some items := by
    obtain ⟨key, occupied⟩ := listed.occupied name items found
    obtain ⟨value, has⟩ := Option.ne_none_iff_exists'.1 occupied
    have bound : ((one name).bind fun items => items key) = some value := by rw [found, Option.bind_some, has]
    obtain ⟨items', found', -⟩ := Option.bind_eq_some_iff.1 ((also.has ..).1 ((listed.has ..).2 bound))
    rw [found']
    congr 1
    funext key
    apply Option.ext
    intro value
    have same := (also.has name key value).symm.trans (listed.has name key value)
    rwa [found, found', Option.bind_some, Option.bind_some] at same
  funext name
  apply Option.ext
  intro items
  exact ⟨less one two, less two one⟩

theorem listed_nothing : Listed (fun _ => none) [] := by
  constructor <;> simp

/-- The loop over the lines. The items found so far are listed, and none of those to come is among them. -/
theorem parse_lines (check : CheckBug) (vars : ParseVars) (lines : List FileLine) (listed : Listed vars.sections entries)
    (distinct : ((entries ++ entriesOf vars.sectionName lines).map Prod.fst).Nodup) :
    ∃ final, (lines.map FileLine.text).foldlM (parseLine check) vars = .ok final ∧
      Listed final.sections (entries ++ entriesOf vars.sectionName lines) := by
  induction lines generalizing vars entries with
  | nil => exact ⟨vars, rfl, by simpa [entriesOf] using listed⟩
  | cons line lines ih =>
    rw [List.map_cons, List.foldlM_cons]
    cases line with
    | empty =>
      rw [FileLine.text, parseLine_empty]
      exact ih vars listed distinct
    | comment text =>
      rw [FileLine.text, parseLine_comment]
      exact ih vars listed distinct
    | header name =>
      rw [FileLine.text, parseLine_header]
      exact ih { vars with sectionName := name } listed distinct
    | item key value remark =>
      rw [entriesOf, List.append_cons] at distinct ⊢
      have absent : (vars.sectionName, key.text) ∉ entries.map Prod.fst := by
        intro member
        rw [List.map_append, List.map_append, List.append_assoc] at distinct
        exact (List.nodup_append.1 distinct).2.2 _ member _ (by simp) rfl
      obtain ⟨after, emplaced, listed'⟩ := listed.emplace value.text absent
      rw [parseLine_item, checkEmplace, emplaced]
      exact ih { vars with sections := after } listed' distinct

theorem reload_listed (check : CheckBug) (previous : SectionMap) {m : SectionMap} {lines : List FileLine} {content : List UInt8}
    (written : fileLines content = lines.map FileLine.text) (listed : Listed m (entriesOf [] lines))
    (distinct : ((entriesOf [] lines).map Prod.fst).Nodup) : reload check (some content) previous = some (true, m) := by
  obtain ⟨final, parsed, also⟩ := parse_lines check ⟨[], fun _ => none⟩ lines listed_nothing distinct
  rw [reload, parse, written, parsed]
  dsimp only
  rw [also.unique listed]

/-! ## A key that comes twice -/

def HasKey (vars : ParseVars) (name key : List UInt8) : Prop :=
  ((vars.sections name).bind fun items => items key) ≠ none

/-- What a line can do: it starts a section, it is skipped, or it is an item. -/
theorem parseLine_cases (check : CheckBug) (vars : ParseVars) (line : List UInt8) :
    (∃ name, headerName line = some name ∧ parseLine check vars line = .ok { vars with sectionName := name }) ∨
    headerName line = none ∧ (parseLine check vars line = .ok vars ∨
      ∃ key value, parseLine check vars line = checkEmplace check vars key value) := by
  cases line with
  | nil => exact .inr ⟨rfl, .inl (parseLine_empty check vars)⟩
  | cons c rest =>
    by_cases bracketed : (c :: rest).head? = some 91 ∧ (c :: rest).getLast? = some 93
    · obtain rfl : c = 91 := by simpa using bracketed.1
      have last : rest.getLast? = some 93 := by
        cases rest with
        | nil => simp at bracketed
        | cons => simpa using bracketed.2
      have whole : rest.dropLast ++ [93] = rest := List.dropLast_append_getLast? _ last
      have header := parseLine_header check vars rest.dropLast
      rw [List.cons_append, whole] at header
      exact .inl ⟨rest.dropLast, by simp [headerName, last], header⟩
    · have none : headerName (c :: rest) = none := by
        rw [headerName.eq_def]
        split
        next next same =>
          obtain ⟨rfl, rfl⟩ := List.cons.inj same
          rw [if_neg]
          intro last
          apply bracketed
          cases rest with
          | nil => simp at last
          | cons => exact ⟨rfl, by simpa using last⟩
        next => rfl
      refine .inr ⟨none, ?_⟩
      rw [parseLine, if_neg (by simp), if_neg bracketed]
      split
      next pos _ =>
        rw [parseItem]
        dsimp only
        split
        · exact .inl rfl
        · split
          · exact .inl rfl
          · exact .inr ⟨_, _, rfl⟩
      next => exact .inl rfl

/-- An item goes into its section, or its key is there. -/
theorem checkEmplace_cases (check : CheckBug) (vars : ParseVars) (key value : List UInt8) :
    (∃ after, checkEmplace check vars key value = .ok { vars with sections := after } ∧
      (∀ name other, HasKey vars name other → HasKey { vars with sections := after } name other) ∧
      HasKey { vars with sections := after } vars.sectionName key) ∨
    HasKey vars vars.sectionName key ∧ checkEmplace check vars key value =
      match check with
      | .doSth => .error .returned
      | .asserts => .error .aborted
      | .nothing => .ok vars := by
  cases found : (vars.sections vars.sectionName).bind fun items => items key with
  | some other =>
    refine .inr ⟨by simp [HasKey, found], ?_⟩
    cases check <;> rw [checkEmplace, emplace_repeated found]
  | none =>
    refine .inl ⟨_, by rw [checkEmplace, emplace_new found], fun name other has => ?_, ?_⟩
    · unfold HasKey at has ⊢
      dsimp only
      by_cases here : name = vars.sectionName
      · subst here
        rw [Function.update_self, Option.bind_some]
        by_cases same : other = key
        · rw [same, Function.update_self]
          exact Option.some_ne_none _
        · rw [Function.update_of_ne same]
          cases items : vars.sections vars.sectionName with
          | none => simp [items] at has
          | some items' => simpa [items] using has
      · rwa [Function.update_of_ne here]
    · simp [HasKey]

theorem parseLine_doSth (vars : ParseVars) (line : List UInt8) : parseLine .doSth vars line = .error .returned ∨
    ∃ next, parseLine .doSth vars line = .ok next ∧ next.sectionName = (headerName line).getD vars.sectionName ∧
      ∀ name key, HasKey vars name key → HasKey next name key := by
  obtain ⟨name, header, parsed⟩ | ⟨plain, skipped | ⟨key, value, item⟩⟩ := parseLine_cases .doSth vars line
  · exact .inr ⟨_, parsed, by rw [header, Option.getD_some], fun _ _ has => has⟩
  · exact .inr ⟨_, skipped, by rw [plain, Option.getD_none], fun _ _ has => has⟩
  · obtain ⟨after, emplaced, kept, -⟩ | ⟨-, refused⟩ := checkEmplace_cases .doSth vars key value
    · exact .inr ⟨_, item.trans emplaced, by rw [plain, Option.getD_none], kept⟩
    · exact .inl (item.trans refused)

theorem parse_doSth (lines : List (List UInt8)) (vars : ParseVars) :
    lines.foldlM (parseLine .doSth) vars = .error .returned ∨
    ∃ next, lines.foldlM (parseLine .doSth) vars = .ok next ∧ next.sectionName = sectionAfter vars.sectionName lines ∧
      ∀ name key, HasKey vars name key → HasKey next name key := by
  induction lines generalizing vars with
  | nil => exact .inr ⟨vars, rfl, rfl, fun _ _ has => has⟩
  | cons line lines ih =>
    rw [List.foldlM_cons]
    obtain failed | ⟨middle, parsed, here, kept⟩ := parseLine_doSth vars line
    · rw [failed]
      exact .inl rfl
    · rw [parsed]
      obtain failed | ⟨next, rest, there, also⟩ := ih middle
      · exact .inl failed
      · refine .inr ⟨next, rest, ?_, fun name key has => also name key (kept name key has)⟩
        rw [there, here]
        rfl

/-- Behind an item of the usual form its section has the key. -/
theorem item_doSth (vars : ParseVars) (key : ConfigKey) (value : ConfigValue) (remark : Option (List UInt8)) :
    parseLine .doSth vars (FileLine.item key value remark).text = .error .returned ∨
    ∃ next, parseLine .doSth vars (FileLine.item key value remark).text = .ok next ∧
      next.sectionName = vars.sectionName ∧ HasKey next vars.sectionName key.text := by
  rw [parseLine_item]
  obtain ⟨after, emplaced, -, has⟩ | ⟨-, refused⟩ := checkEmplace_cases .doSth vars key.text value.text
  · exact .inr ⟨_, emplaced, rfl, has⟩
  · exact .inl refused

theorem item_refused (key : ConfigKey) (value : ConfigValue) (remark : Option (List UInt8))
    (has : HasKey vars vars.sectionName key.text) :
    parseLine .doSth vars (FileLine.item key value remark).text = .error .returned := by
  obtain ⟨other, present⟩ := Option.ne_none_iff_exists'.1 has
  rw [parseLine_item, checkEmplace, emplace_repeated present]

theorem headerName_item (key : ConfigKey) (value : ConfigValue) (remark : Option (List UInt8)) :
    headerName (FileLine.item key value remark).text = none := by
  obtain ⟨c, rest, same⟩ := List.exists_cons_of_ne_nil key.nonempty
  have first := key.first.2
  rw [same] at first
  rw [FileLine.text, same, headerName.eq_def]
  split
  next next cons =>
    obtain ⟨rfl, -⟩ := List.cons.inj cons
    exact absurd rfl first
  next => rfl

theorem reload_repeated (previous : SectionMap) {content : List UInt8} {before between after : List (List UInt8)} {key : ConfigKey}
    {one two : ConfigValue} {remark other : Option (List UInt8)}
    (written : fileLines content =
      before ++ (FileLine.item key one remark).text :: (between ++ (FileLine.item key two other).text :: after))
    (same : sectionAfter [] (before ++ (FileLine.item key one remark).text :: between) = sectionAfter [] before) :
    reload .doSth (some content) previous = some (false, previous) := by
  have within : sectionAfter (sectionAfter [] before) between = sectionAfter [] before := by
    rwa [sectionAfter, List.foldl_append, List.foldl_cons, headerName_item] at same
  have failed : parse .doSth content (fun _ => none) = .error .returned := by
    rw [parse, written, List.foldlM_append]
    obtain failed | ⟨first, parsed, here, -⟩ := parse_doSth before ⟨[], fun _ => none⟩
    · rw [failed]
      rfl
    rw [parsed]
    change ((FileLine.item key one remark).text :: _).foldlM (parseLine .doSth) first = _
    rw [List.foldlM_cons]
    obtain failed | ⟨second, placed, there, has⟩ := item_doSth first key one remark
    · rw [failed]
      rfl
    rw [placed]
    change (between ++ _).foldlM (parseLine .doSth) second = _
    rw [List.foldlM_append]
    obtain failed | ⟨third, passed, still, kept⟩ := parse_doSth between second
    · rw [failed]
      rfl
    rw [passed]
    change ((FileLine.item key two other).text :: _).foldlM (parseLine .doSth) third = _
    have section' : third.sectionName = first.sectionName := by rw [still, there, here, within]
    have refused := item_refused key two other (section' ▸ kept _ _ has)
    rw [List.foldlM_cons, refused]
    rfl
  rw [reload, failed]

/-! ## Both -/

/-- Each line with a newline behind it. -/
def writtenFile (lines : List (List UInt8)) : List UInt8 := lines.flatMap fun line => line ++ [10]

theorem fileLines_written {lines : List (List UInt8)} (clean : ∀ line ∈ lines, 10 ∉ line) :
    fileLines (writtenFile lines) = lines := by
  have upTo (line rest soFar : List UInt8) (plain : 10 ∉ line) :
      linesFrom soFar (line ++ 10 :: rest) = (soFar ++ line) :: linesFrom [] rest := by
    induction line generalizing soFar with
    | nil => simp [linesFrom]
    | cons c line ih =>
      obtain ⟨other, plain⟩ := not_or.1 (List.mem_cons.not.1 plain)
      rw [List.cons_append, linesFrom, if_neg (Ne.symm other), ih _ plain, List.append_assoc, List.singleton_append]
  induction lines with
  | nil => rfl
  | cons line lines ih =>
    have first := upTo line (writtenFile lines) [] (clean line (List.mem_cons_self ..))
    have rest := ih fun line member => clean line (List.mem_cons_of_mem _ member)
    rw [List.nil_append] at first
    rw [writtenFile, List.flatMap_cons, List.append_assoc, List.singleton_append, fileLines]
    exact first.trans (congrArg _ rest)

theorem reload_sections (previous : SectionMap) :
    (∀ (check : CheckBug) (m : SectionMap) (lines : List FileLine) (content : List UInt8),
      fileLines content = lines.map FileLine.text → Listed m (entriesOf [] lines) → ((entriesOf [] lines).map Prod.fst).Nodup →
      reload check (some content) previous = some (true, m)) ∧
    ∀ (content : List UInt8) (before between after : List (List UInt8)) (key : ConfigKey) (one two : ConfigValue)
      (remark other : Option (List UInt8)),
      fileLines content =
        before ++ (FileLine.item key one remark).text :: (between ++ (FileLine.item key two other).text :: after) →
      sectionAfter [] (before ++ (FileLine.item key one remark).text :: between) = sectionAfter [] before →
      reload .doSth (some content) previous = some (false, previous) :=
  ⟨fun check _ _ _ written listed distinct => reload_listed check previous written listed distinct,
    fun _ _ _ _ _ _ _ _ _ written same => reload_repeated previous written same⟩

def sampleKey : ConfigKey := ⟨[107], by simp, by decide, by decide, by decide⟩

def sampleValue (c : UInt8) (plain : c ∉ 35 :: blanks) : ConfigValue where
  text := [c]
  nonempty := by simp
  trimmed := by
    have other : c ∉ blanks := fun blank => plain (List.mem_cons_of_mem _ blank)
    simp [trim_eq, rtrim, other]
  plain := by
    intro same
    exact plain (by simp [List.mem_singleton.1 same])

/-- `#a=b`, `[s]`, `k=v #r` and an empty line. -/
def sampleLines : List FileLine :=
  [.comment [97, 61, 98], .header [115], .item sampleKey (sampleValue 118 (by decide)) (some [114]), .empty]

def sampleSections : SectionMap :=
  Function.update (fun _ => none) [115] (some (Function.update (fun _ => none) [107] (some [118])))

theorem sampleSections_listed : Listed sampleSections (entriesOf [] sampleLines) := by
  have absent : ([115], [107]) ∉ ([] : List ((List UInt8 × List UInt8) × List UInt8)).map Prod.fst := by simp
  obtain ⟨after, emplaced, listed⟩ := listed_nothing.emplace [118] absent
  have same : after = sampleSections := by
    rw [emplace_new rfl, Prod.mk.injEq] at emplaced
    exact emplaced.2.symm
  rwa [same] at listed

theorem reload_sections_sample :
    reload .nothing (some (writtenFile (sampleLines.map FileLine.text))) (fun _ => none) = some (true, sampleSections) ∧
    reload .doSth (some (writtenFile [[91, 115, 93], [107, 61, 118], [], [107, 61, 119]])) sampleSections =
      some (false, sampleSections) :=
  ⟨(reload_sections fun _ => none).1 .nothing sampleSections sampleLines _ (fileLines_written (by decide))
      sampleSections_listed (by decide),
    (reload_sections sampleSections).2 _ [[91, 115, 93]] [[]] [] sampleKey (sampleValue 118 (by decide))
      (sampleValue 119 (by decide)) none none (fileLines_written (by decide)) (by decide)⟩

end Cassobee.Proofs
