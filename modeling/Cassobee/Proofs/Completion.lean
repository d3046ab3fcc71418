import Cassobee.Command
import Cassobee.Support.Writes

/-! What the parser of the completion makes of the tokens of a line. -/

namespace Cassobee.Proofs
open Support ParseState

/-! ## The roles of the tokens -/

inductive TokenRole where
  | command (token : Token) (command : Command)
  | option (token : Token)
  | value (token : Token)
  | param (token : Token)

namespace TokenRole

def token : TokenRole → Token
  | .command token _ => token
  | .option token => token
  | .value token => token
  | .param token => token

def commandOf : TokenRole → Option Command
  | .command _ named => some named
  | _ => none

def paramOf : TokenRole → Option Token
  | .param token => some token
  | _ => none

/-- The text for the option before it. -/
def valueText : TokenRole → List UInt8
  | .value token => token.text
  | _ => []

end TokenRole

/-- `expecting` says that the token before is an option. -/
def classify (aliases : CliName → Option CliName) :
    List (CliName × Command) → (expecting : Bool) → List Token → List TokenRole
  | _, _, [] => []
  | commands, expecting, token :: rest =>
    if Dashed token.text then .option token :: classify aliases commands true rest
    else if expecting then .value token :: classify aliases commands false rest
    else
      match commands.lookup ((aliases token.text).getD token.text) with
      | some command => .command token command :: classify aliases command.subcommands false rest
      | none => .param token :: classify aliases commands false rest

/-- Each option with the whole token behind it, if that is its value. -/
def optionWrites : List TokenRole → List (CliName × List UInt8)
  | [] => []
  | .option token :: roles => (token.text, (roles.head?.map TokenRole.valueText).getD []) :: optionWrites roles
  | _ :: roles => optionWrites roles

def InsideToken (read : Token × Nat) : Prop := read.2 < read.1.text.length

/-- Every token has one role, and the parser's results are what the roles say. -/
def AccountsTokens (commands : List (CliName × Command)) (aliases : CliName → Option CliName)
    (tokens : List Token) : Prop :=
  let roles := classify aliases commands false tokens
  roles.map TokenRole.token = tokens ∧
  ∃ final, parseCommand commands aliases tokens = some final ∧
    final.command = (roles.filterMap TokenRole.commandOf).getLast? ∧
    final.params = roles.filterMap TokenRole.paramOf ∧
    final.options = assignAll (optionWrites roles) (fun _ => none) ∧
    ∀ read ∈ final.reads, InsideToken read

/-- The value that an option is given, by the token behind it. -/
def valueIn (rest : List Token) : Option Token := rest.head?.filter fun next => ¬ Dashed next.text

/-- Wherever an option at index `i` has a value, the option has a character at index `i + 1`; and where it is
the last of its name, this character is the whole value. -/
def ValuesFit : Nat → List Token → Prop
  | _, [] => True
  | i, token :: rest =>
    (Dashed token.text → ∀ value ∈ valueIn rest,
      i + 1 < token.text.length ∧ (token ∉ rest → value.text = token.text[i + 1]?.toList)) ∧
    ValuesFit (i + 1) rest

variable {aliases : CliName → Option CliName} {commands : List (CliName × Command)} {token next : Token}
  {tokens rest : List Token}

@[simp] theorem valueIn_nil : valueIn [] = none := rfl

theorem valueIn_dashed (dashed : Dashed next.text) : valueIn (next :: rest) = none := by
  simp [valueIn, dashed]

theorem valueIn_plain (plain : ¬ Dashed next.text) : valueIn (next :: rest) = some next := by
  simp [valueIn, plain]

theorem classify_dashed (dashed : Dashed token.text) (expecting : Bool) :
    classify aliases commands expecting (token :: rest) = .option token :: classify aliases commands true rest := by
  rw [classify, if_pos dashed]

theorem classify_value (plain : ¬ Dashed token.text) :
    classify aliases commands true (token :: rest) = .value token :: classify aliases commands false rest := by
  rw [classify, if_neg plain, if_pos rfl]

theorem classify_tokens (aliases : CliName → Option CliName) (commands : List (CliName × Command)) (expecting : Bool)
    (tokens : List Token) : (classify aliases commands expecting tokens).map TokenRole.token = tokens := by
  induction tokens generalizing commands expecting with
  | nil => rfl
  | cons token rest ih =>
    by_cases dashed : Dashed token.text
    · rw [classify_dashed dashed, List.map_cons, ih]
      rfl
    · rw [classify, if_neg dashed]
      cases expecting
      · cases commands.lookup ((aliases token.text).getD token.text) <;> simp [ih, TokenRole.token]
      · simp [ih, TokenRole.token]

/-! ## What is written for the options -/

/-- The value of an option is the whole token behind it. -/
def wholeWrites : List Token → List (CliName × List UInt8)
  | [] => []
  | token :: rest =>
    if Dashed token.text then (token.text, ((valueIn rest).map Token.text).getD []) :: wholeWrites rest
    else wholeWrites rest

/-- What `parse` writes: one character of the option itself. -/
def charWrites : Nat → List Token → List (CliName × List UInt8)
  | _, [] => []
  | i, token :: rest =>
    if Dashed token.text then
      (token.text, ((valueIn rest).map fun _ => (charAt token (i + 1)).toList).getD []) :: charWrites (i + 1) rest
    else charWrites (i + 1) rest

def ReadsInside : Nat → List Token → Prop
  | _, [] => True
  | i, token :: rest =>
    (Dashed token.text → ∀ value ∈ valueIn rest, i + 1 < token.text.length) ∧ ReadsInside (i + 1) rest

theorem optionWrites_classify (expecting : Bool) :
    optionWrites (classify aliases commands expecting tokens) = wholeWrites tokens := by
  induction tokens generalizing commands expecting with
  | nil => rfl
  | cons token rest ih =>
    by_cases dashed : Dashed token.text
    · rw [classify_dashed dashed, optionWrites, wholeWrites, if_pos dashed, ih]
      obtain _ | ⟨next, rest⟩ := rest
      · rfl
      · by_cases also : Dashed next.text
        · rw [classify_dashed also, valueIn_dashed also]
          rfl
        · rw [classify_value also, valueIn_plain also]
          rfl
    · rw [classify, if_neg dashed, wholeWrites, if_neg dashed]
      cases expecting
      · cases commands.lookup ((aliases token.text).getD token.text) <;> exact ih _
      · exact ih _

theorem charWrites_keys (i : Nat) (tokens : List Token) :
    (charWrites i tokens).map Prod.fst = (wholeWrites tokens).map Prod.fst := by
  induction tokens generalizing i with
  | nil => rfl
  | cons token rest ih =>
    rw [charWrites, wholeWrites]
    split <;> simp [ih]

theorem mem_keys_iff (dashed : Dashed token.text) (i : Nat) (rest : List Token) :
    token.text ∈ (charWrites i rest).map Prod.fst ↔ token ∈ rest := by
  induction rest generalizing i with
  | nil => simp [charWrites]
  | cons other rest ih =>
    have later := ih (i + 1)
    rw [charWrites, List.mem_cons, Token.ext_iff, ← later]
    by_cases also : Dashed other.text
    · rw [if_pos also, List.map_cons, List.mem_cons]
    · have different : token.text ≠ other.text := fun same => also (same ▸ dashed)
      rw [if_neg also]
      simp [different]

theorem charAt_inside {k : Nat} (inside : k < token.text.length) : charAt token k = token.text[k]? := by
  rw [charAt, List.getElem?_append_left inside]

theorem valuesFit_iff (i : Nat) (tokens : List Token) :
    ValuesFit i tokens ↔ ReadsInside i tokens ∧ LastAgree (charWrites i tokens) (wholeWrites tokens) := by
  induction tokens generalizing i with
  | nil => simp [ValuesFit, ReadsInside, charWrites, wholeWrites, LastAgree]
  | cons token rest ih =>
    rw [ValuesFit, ReadsInside, charWrites, wholeWrites, ih]
    by_cases dashed : Dashed token.text
    · rw [if_pos dashed, if_pos dashed, LastAgree, mem_keys_iff dashed]
      simp only [dashed, true_imp_iff]
      cases valued : valueIn rest with
      | none => simp
      | some value =>
        simp only [Option.mem_def, Option.some.injEq, forall_eq', Option.map_some, Option.getD_some]
        constructor
        · rintro ⟨⟨inside, last⟩, later, agree⟩
          refine ⟨⟨inside, later⟩, fun absent => ?_, agree⟩
          rw [charAt_inside inside, last absent]
        · rintro ⟨⟨inside, later⟩, last, agree⟩
          refine ⟨⟨inside, fun absent => ?_⟩, later, agree⟩
          rw [← last absent, charAt_inside inside]
    · simp [dashed]

/-! ## The loop -/

/-- What the loop from index `i` on adds to the state. -/
structure Parsed (aliases : CliName → Option CliName) (i : Nat) (tokens : List Token) (state final : ParseState) :
    Prop where
  command : final.command =
    ((classify aliases state.commands false tokens).filterMap TokenRole.commandOf).getLast?.or state.command
  params : final.params = state.params ++ (classify aliases state.commands false tokens).filterMap TokenRole.paramOf
  options : final.options = assignAll (charWrites i tokens) state.options
  reads : (∀ read ∈ final.reads, InsideToken read) ↔ (∀ read ∈ state.reads, InsideToken read) ∧ ReadsInside i tokens

variable {i : Nat} {state final : ParseState}

theorem inside_first (token : Token) : InsideToken (token, 0) := List.length_pos_iff.2 token.nonempty

theorem forall_read_iff (state : ParseState) (token : Token) (k : Nat) :
    (∀ read ∈ (state.read token k).reads, InsideToken read) ↔
      (∀ read ∈ state.reads, InsideToken read) ∧ InsideToken (token, k) := by
  rw [ParseState.read, List.forall_mem_append, List.forall_mem_singleton]

theorem Parsed.flag (dashed : Dashed token.text) (none : valueIn rest = none)
    (later : Parsed aliases (i + 1) rest (state.setOption token []) final)
    (same : classify aliases state.commands true rest = classify aliases state.commands false rest) :
    Parsed aliases i (token :: rest) state final where
  command := by
    rw [later.command, classify_dashed dashed, same]
    rfl
  params := by
    rw [later.params, classify_dashed dashed, same]
    rfl
  options := by
    rw [later.options, charWrites, if_pos dashed, none]
    rfl
  reads := by
    rw [later.reads, ReadsInside, none]
    simp [setOption]

/-- The first character of each token is there. -/
theorem Parsed.read (parsed : Parsed aliases i tokens (state.read token 0) final) :
    Parsed aliases i tokens state final where
  command := parsed.command
  params := parsed.params
  options := parsed.options
  reads := by
    rw [parsed.reads, forall_read_iff]
    simp only [inside_first token, and_true]

theorem Parsed.valued {char : UInt8} (dashed : Dashed token.text) (plain : ¬ Dashed next.text)
    (found : charAt token (i + 1) = some char)
    (later : Parsed aliases (i + 2) rest ((state.read token (i + 1)).setOption token [char]) final) :
    Parsed aliases i (token :: next :: rest) state final where
  command := by
    rw [later.command, classify_dashed dashed, classify_value plain]
    rfl
  params := by
    rw [later.params, classify_dashed dashed, classify_value plain]
    rfl
  options := by
    rw [later.options, charWrites, if_pos dashed, charWrites, if_neg plain, valueIn_plain plain, found]
    rfl
  reads := by
    rw [later.reads, ReadsInside, ReadsInside, valueIn_plain plain]
    change (∀ read ∈ (state.read token (i + 1)).reads, InsideToken read) ∧ _ ↔ _
    rw [forall_read_iff]
    simp only [dashed, plain, Option.mem_def, forall_true_left, false_imp_iff, true_and, Option.some.injEq, forall_eq',
      and_assoc]
    exact Iff.rfl

theorem Parsed.named (plain : ¬ Dashed token.text)
    (later : Parsed aliases (i + 1) rest (state.named aliases token) final) :
    Parsed aliases i (token :: rest) state final := by
  have reads : (∀ read ∈ final.reads, InsideToken read) ↔
      (∀ read ∈ (state.named aliases token).reads, InsideToken read) ∧ ReadsInside i (token :: rest) := by
    rw [later.reads, ReadsInside]
    simp [plain]
  have options : final.options = assignAll (charWrites i (token :: rest)) (state.named aliases token).options := by
    rw [later.options, charWrites, if_neg plain]
  have command := later.command
  have params := later.params
  rw [ParseState.named] at command params options reads
  cases found : state.commands.lookup ((aliases token.text).getD token.text) with
  | some target =>
    have roles : classify aliases state.commands false (token :: rest) =
        .command token target :: classify aliases target.subcommands false rest := by
      rw [classify, if_neg plain]
      simp [found]
    rw [found] at command params options reads
    refine ⟨?_, ?_, options, reads⟩
    · rw [command, roles]
      simp [TokenRole.commandOf, List.getLast?_cons]
    · rw [params, roles]
      rfl
  | none =>
    have roles : classify aliases state.commands false (token :: rest) =
        .param token :: classify aliases state.commands false rest := by
      rw [classify, if_neg plain]
      simp [found]
    rw [found] at command params options reads
    refine ⟨?_, ?_, options, reads⟩
    · rw [command, roles]
      rfl
    · rw [params, roles]
      simp [TokenRole.paramOf]

/-- The loop fails only where it reads outside an option. -/
theorem parse_spec (aliases : CliName → Option CliName) (i : Nat) (tokens : List Token) (state : ParseState) :
    (∃ final, parse aliases i tokens state = some final ∧ Parsed aliases i tokens state final) ∨
      parse aliases i tokens state = none ∧ ¬ ReadsInside i tokens := by
  fun_induction parse aliases i tokens state with
  | case1 i state =>
    exact .inl ⟨state, rfl, by simp [classify], by simp [classify], rfl, by simp [ReadsInside]⟩
  | case2 i token state before dashed =>
    have done : Parsed aliases (i + 1) [] (before.setOption token []) (before.setOption token []) :=
      ⟨by simp [classify], by simp [classify], rfl, by simp [ReadsInside]⟩
    exact .inl ⟨_, rfl, (Parsed.flag dashed valueIn_nil done rfl).read⟩
  | case3 i token state before dashed next rest between also ih =>
    have same : classify aliases state.commands true (next :: rest) =
        classify aliases state.commands false (next :: rest) := by
      rw [classify_dashed also, classify_dashed also]
    obtain ⟨final, computed, parsed⟩ | ⟨failed, outside⟩ := ih
    · exact .inl ⟨final, computed, (Parsed.flag dashed (valueIn_dashed also) parsed same).read.read⟩
    · exact .inr ⟨failed, fun inside => outside inside.2⟩
  | case4 i token state before dashed next rest between plain char found ih =>
    obtain ⟨final, computed, parsed⟩ | ⟨failed, outside⟩ := ih
    · exact .inl ⟨final, computed, (Parsed.valued dashed plain found parsed).read.read⟩
    · exact .inr ⟨failed, fun inside => outside inside.2.2⟩
  | case5 i token state dashed next rest plain missing =>
    refine .inr ⟨rfl, fun inside => ?_⟩
    have read := inside.1 dashed next (valueIn_plain plain)
    rw [charAt_inside read, List.getElem?_eq_none_iff] at missing
    exact absurd read (Nat.not_lt.2 missing)
  | case6 i token rest state before plain ih =>
    obtain ⟨final, computed, parsed⟩ | ⟨failed, outside⟩ := ih
    · exact .inl ⟨final, computed, (Parsed.named plain parsed).read⟩
    · exact .inr ⟨failed, fun inside => outside inside.2⟩

/-- The parser accounts for all tokens if and only if every option that is given a value has, at the index of
that value, the value as its own character. -/
theorem parse_accounts_iff (commands : List (CliName × Command)) (aliases : CliName → Option CliName)
    (tokens : List Token) : AccountsTokens commands aliases tokens ↔ ValuesFit 0 tokens := by
  rw [AccountsTokens, optionWrites_classify, valuesFit_iff, ← assignAll_eq_iff (charWrites_keys 0 tokens) fun _ => none]
  have ran := parse_spec aliases 0 tokens ⟨none, commands, [], fun _ => none, []⟩
  constructor
  · rintro ⟨-, final, computed, -, -, options, inside⟩
    obtain ⟨final', computed', parsed⟩ | ⟨failed, -⟩ := ran
    · cases computed.symm.trans computed'
      exact ⟨(parsed.reads.1 inside).2, parsed.options.symm.trans options⟩
    · cases computed.symm.trans failed
  · rintro ⟨inside, same⟩
    obtain ⟨final, computed, parsed⟩ | ⟨-, outside⟩ := ran
    · refine ⟨classify_tokens aliases commands false tokens, final, computed, ?_, ?_, parsed.options.trans same, ?_⟩
      · exact parsed.command.trans (Option.or_none ..)
      · exact parsed.params
      · exact parsed.reads.2 ⟨by simp, inside⟩
    · exact absurd inside outside

/-- `-o file` is taken as the option `-o` with the value `o`. -/
theorem whole_value_lost :
    ¬ AccountsTokens [] (fun _ => none) [⟨[45, 111], by decide⟩, ⟨[102, 105, 108, 101], by decide⟩] := by
  rintro ⟨-, final, computed, -, -, options, -⟩
  cases computed
  have value := congrFun options [45, 111]
  revert value
  decide

end Cassobee.Proofs
