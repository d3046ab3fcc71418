import Cassobee.LogFormatter

/-! What the scanner makes of a pattern that is put together from texts, escapes and directives. -/

namespace Cassobee.Proofs
open LogFormatter

inductive PatternToken where
  | literal (text : List UInt8) (plain : 37 ∉ text)
  | escaped
  | directive (key : DirectiveKey)
  | formatted (key : DirectiveKey) (fmt : List UInt8) (closed : 125 ∉ fmt)
  deriving DecidableEq

namespace PatternToken

def text : PatternToken → List UInt8
  | .literal text _ => text
  | .escaped => [37, 37]
  | .directive key => [37, key.byte]
  | .formatted key fmt _ => [37, key.byte, 123] ++ fmt ++ [125]

/-- What the token stands for: bytes that are printed as they are, or an item for a directive. -/
def meaning : PatternToken → List (UInt8 ⊕ FormatItem)
  | .literal text _ => text.map .inl
  | .escaped => [.inl 37]
  | .directive key => [.inr (key.create [])]
  | .formatted key fmt _ => [.inr (key.create fmt)]

end PatternToken

/-- What items stand for. How a text is cut into string items makes no difference. -/
def itemMeaning : FormatItem → List (UInt8 ⊕ FormatItem)
  | .string str => str.map .inl
  | item => [.inr item]

def renderPattern (tokens : List PatternToken) : List UInt8 := tokens.flatMap PatternToken.text

def KeyByte (char : UInt8) : Prop := isalpha char ∨ char = 123 ∨ char = 125

/-- Behind a directive without a format there is no text that begins with a letter or a brace. -/
def WellSpaced (tokens : List PatternToken) : Prop :=
  ∀ before key after, tokens = before ++ .directive key :: after → ∀ char ∈ (renderPattern after).head?, ¬ KeyByte char

/-- The items are the ones of the tokens, and there is no error. -/
def PatternRight (tokens : List PatternToken) : Prop :=
  (LogFormatter.create (renderPattern tokens)).items.flatMap itemMeaning = tokens.flatMap PatternToken.meaning ∧
    (LogFormatter.create (renderPattern tokens)).error = false

/-! ## States of the scan -/

def partMeaning (part : PatternPart) : List (UInt8 ⊕ FormatItem) := itemMeaning (createItem part).1

/-- What the state stands for, its last text included. -/
def stateMeaning (state : ScanState) : List (UInt8 ⊕ FormatItem) := state.vec.flatMap partMeaning ++ state.nstr.map .inl

def Bad (state : ScanState) : Prop := state.error = true ∨ ∃ part ∈ state.vec, (createItem part).2 = false

variable {state before after : ScanState} {char : UInt8} {pattern rest : List UInt8} {key : DirectiveKey}

theorem createItem_text (str fmt : List UInt8) : createItem ⟨str, fmt, true⟩ = (.string str, true) := rfl

theorem createItem_key (key : DirectiveKey) (fmt : List UInt8) :
    createItem ⟨[key.byte], fmt, false⟩ = (key.create fmt, true) := by
  cases key <;> rfl

theorem itemMeaning_create (key : DirectiveKey) (fmt : List UInt8) :
    itemMeaning (key.create fmt) = [.inr (key.create fmt)] := by
  cases key <;> rfl

theorem stateMeaning_push (state : ScanState) (char : UInt8) :
    stateMeaning (state.push char) = stateMeaning state ++ [.inl char] := by
  simp [stateMeaning, ScanState.push]

theorem bad_push : Bad (state.push char) ↔ Bad state := Iff.rfl

theorem flush_nstr (state : ScanState) : state.flush.nstr = [] := by
  rw [ScanState.flush]
  split
  case isTrue empty => exact empty
  case isFalse => rfl

theorem stateMeaning_flush (state : ScanState) : stateMeaning state.flush = stateMeaning state := by
  rw [ScanState.flush]
  split
  · rfl
  · simp [stateMeaning, partMeaning, createItem_text, itemMeaning]

theorem bad_flush : Bad state.flush ↔ Bad state := by
  rw [ScanState.flush]
  split
  · rfl
  · simp [Bad, or_and_right, exists_or, createItem_text]

theorem stateMeaning_directive (state : ScanState) (key : ScannedKey) :
    stateMeaning (state.directive key) = stateMeaning state ++ partMeaning ⟨key.str, key.fmt, false⟩ := by
  have text := stateMeaning_flush state
  simp only [stateMeaning, flush_nstr, List.map_nil, List.append_nil] at text
  simp [stateMeaning, ScanState.directive, flush_nstr, text]

theorem bad_directive (key : ScannedKey) :
    Bad (state.directive key) ↔ Bad state ∨ (createItem ⟨key.str, key.fmt, false⟩).2 = false := by
  have flushed : Bad state.flush ↔ Bad state := bad_flush
  rw [← flushed]
  simp [Bad, ScanState.directive, or_and_right, exists_or, or_assoc]

/-- The formatter has what the last state has. -/
theorem create_items (pattern : List UInt8) :
    (LogFormatter.create pattern).items.flatMap itemMeaning = stateMeaning (scan pattern ⟨[], [], false⟩) := by
  rw [← stateMeaning_flush, stateMeaning, flush_nstr, List.map_nil, List.append_nil, LogFormatter.create, List.flatMap_map]
  rfl

theorem create_error (pattern : List UInt8) :
    (LogFormatter.create pattern).error = true ↔ Bad (scan pattern ⟨[], [], false⟩) := by
  rw [← bad_flush, LogFormatter.create, Bad]
  simp

/-! ## Tokens without an escape -/

theorem key_isalpha (key : DirectiveKey) : isalpha key.byte = true := by
  cases key <;> rfl

theorem key_ne (key : DirectiveKey) : key.byte ≠ 37 ∧ key.byte ≠ 123 := by
  cases key <;> decide

theorem scan_text (plain : char ≠ 37) : scan (char :: rest) state = scan rest (state.push char) := by
  rw [scan, if_pos plain]

theorem scan_directive (single : rest.head? ≠ some 37) {scanned : ScannedKey} (closed : scanned.parseFmt = false)
    (key : scanKey [] rest = scanned) : scan (37 :: rest) state = scan scanned.rest (state.directive scanned) := by
  rw [scan, if_neg (by decide), if_neg single, key, closed, if_neg (by decide)]

theorem scanFmt_closed (str begun : List UInt8) {fmt : List UInt8} (closed : 125 ∉ fmt) (rest : List UInt8) :
    scanFmt str begun (fmt ++ 125 :: rest) = ⟨str, begun ++ fmt, false, rest⟩ := by
  induction fmt generalizing begun with
  | nil => simp [scanFmt]
  | cons char fmt ih =>
    obtain ⟨other, closed⟩ : 125 ≠ char ∧ 125 ∉ fmt := by simpa using closed
    rw [List.cons_append, scanFmt, if_neg (Ne.symm other), ih _ closed, List.append_assoc]
    rfl

theorem scanKey_directive (spaced : ∀ char ∈ rest.head?, ¬ KeyByte char) :
    scanKey [] (key.byte :: rest) = ⟨[key.byte], [], false, rest⟩ := by
  rw [scanKey, if_neg (by simp [key_isalpha]), if_neg (key_ne key).2]
  cases rest with
  | nil => rfl
  | cons char rest =>
    have other : ¬ KeyByte char := spaced char rfl
    rw [KeyByte, not_or, not_or] at other
    rw [List.nil_append, scanKey, if_pos other]

theorem scanKey_formatted {fmt : List UInt8} (closed : 125 ∉ fmt) (rest : List UInt8) :
    scanKey [] (key.byte :: 123 :: fmt ++ 125 :: rest) = ⟨[key.byte], fmt, false, rest⟩ := by
  have brace : ¬ (¬ isalpha 123 ∧ (123 : UInt8) ≠ 123 ∧ (123 : UInt8) ≠ 125) := by decide
  rw [List.cons_append, List.cons_append, scanKey, if_neg (by simp [key_isalpha]), if_neg (key_ne key).2, scanKey,
    if_neg brace, if_pos rfl, scanFmt_closed _ _ closed]
  rfl

/-- A state that has a part more than another, with nothing wrong in it. -/
structure Gains (before : ScanState) (meaning : List (UInt8 ⊕ FormatItem)) (after : ScanState) : Prop where
  meaning : stateMeaning after = stateMeaning before ++ meaning
  bad : Bad after ↔ Bad before

theorem gains_directive (state : ScanState) (key : DirectiveKey) (fmt rest : List UInt8) :
    Gains state [.inr (key.create fmt)] (state.directive ⟨[key.byte], fmt, false, rest⟩) where
  meaning := by rw [stateMeaning_directive, partMeaning, createItem_key, itemMeaning_create]
  bad := by simp [bad_directive, createItem_key]

theorem scan_literal {text : List UInt8} (plain : 37 ∉ text) (rest : List UInt8) (state : ScanState) :
    ∃ after, scan (text ++ rest) state = scan rest after ∧ Gains state (text.map .inl) after := by
  induction text generalizing state with
  | nil => exact ⟨state, rfl, by simp, Iff.rfl⟩
  | cons char text ih =>
    obtain ⟨other, plain⟩ : 37 ≠ char ∧ 37 ∉ text := by simpa using plain
    obtain ⟨after, scanned, gains⟩ := ih plain (state.push char)
    refine ⟨after, (scan_text (Ne.symm other)).trans scanned, ?_, gains.bad⟩
    rw [gains.meaning, stateMeaning_push, List.append_assoc]
    rfl

theorem scan_token {token : PatternToken} (other : token ≠ .escaped) {rest : List UInt8}
    (spaced : ∀ key, token = .directive key → ∀ char ∈ rest.head?, ¬ KeyByte char) (state : ScanState) :
    ∃ after, scan (token.text ++ rest) state = scan rest after ∧ Gains state token.meaning after := by
  cases token with
  | literal text plain => exact scan_literal plain rest state
  | escaped => exact absurd rfl other
  | directive key =>
    have single : (key.byte :: rest).head? ≠ some 37 := by simpa using (key_ne key).1
    exact ⟨_, scan_directive single rfl (scanKey_directive (spaced key rfl)), gains_directive state key [] rest⟩
  | formatted key fmt closed =>
    have single : (key.byte :: 123 :: fmt ++ 125 :: rest).head? ≠ some 37 := by simpa using (key_ne key).1
    refine ⟨_, ?_, gains_directive state key fmt rest⟩
    rw [← scan_directive single rfl (scanKey_formatted closed rest)]
    simp [PatternToken.text]

/-- The tokens are well spaced with `rest` behind them. -/
def SpacedBefore (rest : List UInt8) (tokens : List PatternToken) : Prop :=
  ∀ before key after, tokens = before ++ .directive key :: after →
    ∀ char ∈ (renderPattern after ++ rest).head?, ¬ KeyByte char

theorem WellSpaced.spacedBefore {tokens : List PatternToken} (spaced : WellSpaced tokens) : SpacedBefore [] tokens := by
  intro before key after split
  rw [List.append_nil]
  exact spaced before key after split

theorem renderPattern_escaped (front rest : List PatternToken) :
    renderPattern (front ++ .escaped :: rest) = renderPattern front ++ 37 :: 37 :: renderPattern rest := by
  simp [renderPattern, PatternToken.text]

theorem WellSpaced.beforeEscaped {front rest : List PatternToken} (spaced : WellSpaced (front ++ .escaped :: rest)) :
    SpacedBefore (37 :: 37 :: renderPattern rest) front := by
  intro before key after split
  rw [← renderPattern_escaped]
  apply spaced before key
  rw [split, List.append_assoc, List.cons_append]

theorem scan_tokens {tokens : List PatternToken} (plain : .escaped ∉ tokens) {rest : List UInt8}
    (spaced : SpacedBefore rest tokens) (state : ScanState) :
    ∃ after, scan (renderPattern tokens ++ rest) state = scan rest after ∧
      Gains state (tokens.flatMap PatternToken.meaning) after := by
  induction tokens generalizing state with
  | nil => exact ⟨state, rfl, by simp, Iff.rfl⟩
  | cons token tokens ih =>
    obtain ⟨other, plain⟩ : .escaped ≠ token ∧ .escaped ∉ tokens := by simpa using plain
    have apart (key : DirectiveKey) (same : token = .directive key) :
        ∀ char ∈ (renderPattern tokens ++ rest).head?, ¬ KeyByte char :=
      spaced [] key tokens (by rw [same, List.nil_append])
    have later : SpacedBefore rest tokens := fun before key after split =>
      spaced (token :: before) key after (by rw [split, List.cons_append])
    obtain ⟨middle, first, begun⟩ := scan_token (Ne.symm other) apart state
    obtain ⟨after, scanned, gains⟩ := ih plain later middle
    refine ⟨after, ?_, ?_, gains.bad.trans begun.bad⟩
    · rw [← scanned, ← first, renderPattern, renderPattern, List.flatMap_cons, List.append_assoc]
    · rw [gains.meaning, begun.meaning, List.flatMap_cons, List.append_assoc]

/-! ## Behind an escape -/

/-- Either an error is seen, or what the later state stands for begins with what the earlier one does. -/
structure Extends (before after : ScanState) : Prop where
  bad : Bad before → Bad after
  grows : Bad after ∨ stateMeaning before <+: stateMeaning after

theorem Extends.trans {middle : ScanState} (first : Extends before middle) (later : Extends middle after) :
    Extends before after where
  bad := fun bad => later.bad (first.bad bad)
  grows := by
    obtain bad | more := first.grows
    · exact .inl (later.bad bad)
    · exact later.grows.imp_right more.trans

theorem extends_of_append {meaning : List (UInt8 ⊕ FormatItem)} (bad : Bad before → Bad after)
    (more : stateMeaning after = stateMeaning before ++ meaning) : Extends before after :=
  ⟨bad, .inr ⟨meaning, more.symm⟩⟩

theorem bad_fail (state : ScanState) : Bad state.fail := .inl rfl

theorem scan_extends (pattern : List UInt8) (state : ScanState) : Extends state (scan pattern state) := by
  fun_induction scan pattern state with
  | case1 state => exact ⟨id, .inr (List.prefix_refl _)⟩
  | case2 state char rest plain ih => exact (extends_of_append bad_push.2 (stateMeaning_push state char)).trans ih
  | case3 state char rest percent again ih => exact (extends_of_append bad_push.2 (stateMeaning_push state 37)).trans ih
  | case4 state char rest percent single unclosed ih =>
    have failed : Extends state state.fail := ⟨fun _ => bad_fail state, .inl (bad_fail state)⟩
    exact failed.trans ih
  | case5 state char rest percent single closed ih =>
    have bad (before : Bad state) : Bad (state.directive (scanKey [] rest)) := (bad_directive _).2 (.inl before)
    exact (extends_of_append bad (stateMeaning_directive state _)).trans ih

theorem partMeaning_known {str fmt : List UInt8} (known : (createItem ⟨str, fmt, false⟩).2 = true) :
    ∃ item, partMeaning ⟨str, fmt, false⟩ = [.inr item] := by
  rw [createItem] at known
  cases found : DirectiveKey.all.find? fun key => str = [key.byte] with
  | none => simp [found] at known
  | some key => exact ⟨key.create fmt, by simp [partMeaning, createItem, found, itemMeaning_create]⟩

/-- How many `%` the pattern begins with. -/
def percents (pattern : List UInt8) : Nat := (pattern.takeWhile (· = 37)).length

/-- Of some `%` in a row, all but the last are taken as text, and the last one begins a directive. -/
theorem scan_percents (rest : List UInt8) (state : ScanState) :
    Bad (scan (37 :: rest) state) ∨
      ∃ item, stateMeaning state ++ (List.replicate (percents rest) (.inl 37) ++ [.inr item]) <+:
        stateMeaning (scan (37 :: rest) state) := by
  induction rest generalizing state with
  | nil =>
    left
    rw [scan_directive (by simp) rfl rfl]
    exact (scan_extends _ _).bad ((bad_directive _).2 (.inr rfl))
  | cons char rest ih =>
    by_cases percent : char = 37
    · subst percent
      have again : scan (37 :: 37 :: rest) state = scan (37 :: rest) (state.push 37) := by
        rw [scan]
        simp
      have count : percents (37 :: rest) = percents rest + 1 := by simp [percents]
      rw [again, count, List.replicate_succ]
      simpa [stateMeaning_push] using ih (state.push 37)
    · have count : percents (char :: rest) = 0 := by simp [percents, percent]
      have single : (char :: rest).head? ≠ some 37 := by simpa using percent
      simp only [count, List.replicate_zero, List.nil_append]
      cases closed : (scanKey [] (char :: rest)).parseFmt with
      | true =>
        left
        rw [scan, if_neg (by decide), if_neg single, if_pos closed]
        exact (scan_extends _ _).bad (bad_fail state)
      | false =>
        rw [scan_directive single closed rfl]
        cases known : (createItem ⟨(scanKey [] (char :: rest)).str, (scanKey [] (char :: rest)).fmt, false⟩).2 with
        | false => exact .inl ((scan_extends _ _).bad ((bad_directive _).2 (.inr known)))
        | true =>
          obtain ⟨item, meaning⟩ := partMeaning_known known
          have more := (scan_extends (scanKey [] (char :: rest)).rest (state.directive (scanKey [] (char :: rest)))).grows
          rw [stateMeaning_directive, meaning] at more
          exact more.imp_right fun more => ⟨item, more⟩

theorem not_directive_first (more : Nat) (item first : FormatItem) (rest : List (UInt8 ⊕ FormatItem)) :
    ¬ List.replicate (more + 1) (.inl 37) ++ [.inr item] <+: .inr first :: rest := by
  rintro ⟨tail, same⟩
  simp [List.replicate_succ] at same

/-- No tokens stand for as many `%` as their text begins with, or more, and a directive right behind. -/
theorem not_percents (tokens : List PatternToken) (more : Nat) (item : FormatItem) :
    ¬ List.replicate (more + percents (renderPattern tokens)) (.inl 37) ++ [.inr item] <+:
      tokens.flatMap PatternToken.meaning := by
  induction tokens generalizing more with
  | nil => simp
  | cons token tokens ih =>
    cases token with
    | literal text plain =>
      cases text with
      | nil => exact ih more
      | cons char text =>
        have other : char ≠ 37 := fun same => plain (same ▸ List.mem_cons_self ..)
        rintro ⟨tail, same⟩
        cases more <;>
          simp [renderPattern, PatternToken.text, percents, PatternToken.meaning, other, List.replicate_succ] at same
        exact other same.1.symm
    | escaped =>
      have count : percents (renderPattern (.escaped :: tokens)) = percents (renderPattern tokens) + 2 := by
        simp [renderPattern, PatternToken.text, percents]
      intro starts
      apply ih (more + 1)
      rw [count, ← Nat.add_assoc, List.replicate_succ] at starts
      have rest := (List.cons_prefix_cons.1 starts).2
      rwa [Nat.add_right_comm]
    | directive key =>
      have count : percents (renderPattern (.directive key :: tokens)) = 1 := by
        simp [renderPattern, PatternToken.text, percents, (key_ne key).1]
      rw [count]
      exact not_directive_first more item _ _
    | formatted key fmt closed =>
      have count : percents (renderPattern (.formatted key fmt closed :: tokens)) = 1 := by
        simp [renderPattern, PatternToken.text, percents, (key_ne key).1]
      rw [count]
      exact not_directive_first more item _ _

theorem right_of_plain {tokens : List PatternToken} (spaced : WellSpaced tokens) (plain : .escaped ∉ tokens) :
    PatternRight tokens := by
  rw [PatternRight, create_items, ← Bool.not_eq_true, create_error]
  obtain ⟨after, scanned, gains⟩ := scan_tokens plain spaced.spacedBefore ⟨[], [], false⟩
  rw [List.append_nil, scan] at scanned
  rw [scanned, gains.meaning, gains.bad]
  exact ⟨rfl, by simp [Bad]⟩

theorem not_right_of_escaped {front rest : List PatternToken} (spaced : WellSpaced (front ++ .escaped :: rest))
    (plain : .escaped ∉ front) : ¬ PatternRight (front ++ .escaped :: rest) := by
  rw [PatternRight, create_items, ← Bool.not_eq_true, create_error, renderPattern_escaped]
  rintro ⟨items, fine⟩
  obtain ⟨after, scanned, gains⟩ := scan_tokens plain spaced.beforeEscaped ⟨[], [], false⟩
  rw [scanned] at items fine
  obtain bad | ⟨item, starts⟩ := scan_percents (37 :: renderPattern rest) after
  · exact fine bad
  · have count : percents (37 :: renderPattern rest) = percents (renderPattern rest) + 1 := by simp [percents]
    rw [items, gains.meaning, List.flatMap_append, List.flatMap_cons, count, List.replicate_succ] at starts
    simp only [stateMeaning, List.flatMap_nil, List.map_nil, List.nil_append, List.prefix_append_right_inj,
      PatternToken.meaning, List.cons_append, List.cons_prefix_cons, true_and] at starts
    exact not_percents rest 0 item (by rwa [Nat.zero_add])

/-- A pattern is read right if and only if no `%%` is in it: the second `%` is taken for the start of a
directive. -/
theorem pattern_right_iff (tokens : List PatternToken) (spaced : WellSpaced tokens) :
    PatternRight tokens ↔ .escaped ∉ tokens := by
  refine ⟨fun right member => ?_, right_of_plain spaced⟩
  obtain ⟨front, rest, rfl, plain⟩ := List.eq_append_cons_of_mem member
  exact not_right_of_escaped spaced plain right

/-- `a %d{%H}%n` has no escape in it. -/
theorem pattern_right_datetime : PatternRight
    [.literal [97, 32] (by decide), .formatted .d [37, 72] (by decide), .directive .n] := by
  refine (pattern_right_iff _ ?_).2 (by decide)
  intro before key after split
  match before, split with
  | [_, _], split =>
    obtain rfl : [] = after := by simpa using (List.cons_eq_cons.1 (List.cons_eq_cons.1 (List.cons_eq_cons.1 split).2).2).2
    simp [renderPattern]
  | _ :: _ :: _ :: before, split => simp at split

/-- `%%` alone gives a directive without a key. -/
theorem escaped_percent_fails : ¬ PatternRight [.escaped] := by
  rintro ⟨-, fine⟩
  have bad : Bad (scan [37, 37] ⟨[], [], false⟩) := by
    rw [scan, if_neg (by decide), if_pos List.head?_cons, scan_directive (by simp) rfl rfl]
    exact (scan_extends _ _).bad ((bad_directive _).2 (.inr rfl))
  cases fine.symm.trans ((create_error _).2 bad)

end Cassobee.Proofs
