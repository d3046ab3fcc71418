import Cassobee.Command

/-! What the dispatch of a line hands to the command that it reaches. -/

namespace Cassobee.Proofs
open Command

/-- The option or subcommand of that name. -/
def childOf (command : Command) (token : CliName) : Option Command :=
  (command.getOption token).or (command.getSubcommand token)

inductive Resolves : Command → List CliName → Command → Prop where
  | here (command : Command) : Resolves command [] command
  | down {command next reached : Command} {token : CliName} {tokens : List CliName}
      (named : childOf command token = some next) (rest : Resolves next tokens reached) :
      Resolves command (token :: tokens) reached

/-- `front` is resolved to `reached`, and the token behind it, if there is one, is not. -/
structure LongestResolved (command : Command) (tokens front rest : List CliName) (reached : Command) : Prop where
  split : tokens = front ++ rest
  resolves : Resolves command front reached
  ends : ∀ token ∈ rest.head?, childOf reached token = none

def BeginsDashed (rest : List CliName) : Prop := ∃ token ∈ rest.head?, Dashed token

/-- The command that is reached gets all the tokens behind, unless the first of them looks like an option. -/
def PassesAll (command : Command) (tokens : List CliName) : Prop :=
  ∃ front rest reached, LongestResolved command tokens front rest reached ∧
    ((∃ token, command.execute tokens = .unknownOption token) ↔ BeginsDashed rest) ∧
    (¬ BeginsDashed rest → command.execute tokens = .doExecute reached rest)

/-- The first token that names neither an option nor a subcommand begins with `-`. -/
def StopsAtOption : Command → List CliName → Prop
  | _, [] => False
  | command, token :: tokens =>
    match childOf command token with
    | some next => StopsAtOption next tokens
    | none => Dashed token

/-- Every token names an option, if it begins with `-`, or else a subcommand. -/
def AllNamed : Command → List CliName → Prop
  | _, [] => True
  | command, token :: tokens =>
    match if Dashed token then command.getOption token else command.getSubcommand token with
    | some next => AllNamed next tokens
    | none => False

variable {command next reached : Command} {token : CliName} {tokens front rest : List CliName}

theorem dashed_of_getOption (found : command.getOption token = some next) : Dashed token := by
  obtain ⟨entry, member, -⟩ := Option.map_eq_some_iff.1 found
  have named := List.find?_some member
  exact of_decide_eq_true named ▸ entry.1.dashed

theorem dashed_of_long (long : [45, 45] <+: token) : Dashed token :=
  (List.prefix_append [45] [45]).trans long

/-- The two branches for options do the same. -/
theorem execute_cons (command : Command) (token : CliName) (params : List CliName) :
    command.execute (token :: params) =
      if Dashed token then
        match command.getOption token with
        | some option => option.execute params
        | none => .unknownOption token
      else
        match command.getSubcommand token with
        | some subcommand => subcommand.execute params
        | none => .doExecute command params := by
  rw [execute]
  by_cases long : [45, 45] <+: token
  · exact (if_pos long).trans (if_pos (dashed_of_long long)).symm
  · exact if_neg long

theorem childOf_of_not_dashed (plain : ¬ Dashed token) : childOf command token = command.getSubcommand token := by
  cases found : command.getOption token with
  | none => rw [childOf, found, Option.none_or]
  | some option => exact absurd (dashed_of_getOption found) plain

/-! What stands behind the first token. -/

theorem longest_nil :
    LongestResolved command [] front rest reached ↔ front = [] ∧ rest = [] ∧ reached = command := by
  constructor
  · intro longest
    obtain ⟨rfl, rfl⟩ : front = [] ∧ rest = [] := by simpa using longest.split.symm
    obtain _ | _ := longest.resolves
    exact ⟨rfl, rfl, rfl⟩
  · rintro ⟨rfl, rfl, rfl⟩
    exact ⟨rfl, .here _, by simp⟩

theorem longest_unresolved (unnamed : childOf command token = none) :
    LongestResolved command (token :: tokens) front rest reached ↔
      front = [] ∧ rest = token :: tokens ∧ reached = command := by
  constructor
  · rintro ⟨split, resolves, ends⟩
    cases resolves with
    | here => exact ⟨rfl, split.symm, rfl⟩
    | down named later =>
      obtain ⟨rfl, -⟩ := List.cons_eq_cons.1 split
      cases unnamed.symm.trans named
  · rintro ⟨rfl, rfl, rfl⟩
    exact ⟨rfl, .here _, by simpa using unnamed⟩

theorem longest_resolved (named : childOf command token = some next) :
    LongestResolved command (token :: tokens) front rest reached ↔
      ∃ later, front = token :: later ∧ LongestResolved next tokens later rest reached := by
  constructor
  · rintro ⟨split, resolves, ends⟩
    cases resolves with
    | here =>
      obtain rfl : rest = token :: tokens := split.symm
      cases named.symm.trans (ends token rfl)
    | down named' later =>
      obtain ⟨rfl, rfl⟩ := List.cons_eq_cons.1 split
      cases named.symm.trans named'
      exact ⟨_, rfl, rfl, later, ends⟩
  · rintro ⟨later, rfl, split, resolves, ends⟩
    exact ⟨by rw [split, List.cons_append], .down named resolves, ends⟩

theorem exists_longest (command : Command) (tokens : List CliName) :
    ∃ front rest reached, LongestResolved command tokens front rest reached := by
  induction tokens generalizing command with
  | nil => exact ⟨[], [], command, longest_nil.2 ⟨rfl, rfl, rfl⟩⟩
  | cons token tokens ih =>
    cases named : childOf command token with
    | none => exact ⟨[], token :: tokens, command, (longest_unresolved named).2 ⟨rfl, rfl, rfl⟩⟩
    | some next =>
      obtain ⟨front, rest, reached, longest⟩ := ih next
      exact ⟨token :: front, rest, reached, (longest_resolved named).2 ⟨front, rfl, longest⟩⟩

theorem LongestResolved.stopsAtOption_iff (longest : LongestResolved command tokens front rest reached) :
    StopsAtOption command tokens ↔ BeginsDashed rest := by
  induction tokens generalizing command front with
  | nil =>
    obtain ⟨-, rfl, -⟩ := longest_nil.1 longest
    simp [StopsAtOption, BeginsDashed]
  | cons token tokens ih =>
    rw [StopsAtOption]
    cases named : childOf command token with
    | none =>
      obtain ⟨-, rfl, -⟩ := (longest_unresolved named).1 longest
      simp [BeginsDashed]
    | some next =>
      obtain ⟨later, -, longest⟩ := (longest_resolved named).1 longest
      exact ih longest

/-- A token that is not found as an option ends the dispatch although a subcommand has its name. -/
theorem passesAll_of_refused {refused : CliName} (failed : command.execute tokens = .unknownOption refused) :
    PassesAll command tokens ↔ StopsAtOption command tokens := by
  constructor
  · rintro ⟨front, rest, reached, longest, error, -⟩
    exact longest.stopsAtOption_iff.2 (error.1 ⟨refused, failed⟩)
  · intro stops
    obtain ⟨front, rest, reached, longest⟩ := exists_longest command tokens
    have begins := longest.stopsAtOption_iff.1 stops
    exact ⟨front, rest, reached, longest, ⟨fun _ => begins, fun _ => ⟨refused, failed⟩⟩, absurd begins⟩

theorem passesAll_of_passed (named : childOf command token = some next)
    (passed : command.execute (token :: tokens) = next.execute tokens) :
    PassesAll command (token :: tokens) ↔ PassesAll next tokens := by
  constructor
  · rintro ⟨front, rest, reached, longest, calls⟩
    obtain ⟨later, -, longest⟩ := (longest_resolved named).1 longest
    exact ⟨later, rest, reached, longest, passed ▸ calls⟩
  · rintro ⟨front, rest, reached, longest, calls⟩
    exact ⟨token :: front, rest, reached, (longest_resolved named).2 ⟨front, rfl, longest⟩, passed ▸ calls⟩

/-- The first parameter is the one that is lost. -/
theorem not_passesAll_of_param (unnamed : childOf command token = none) (plain : ¬ Dashed token) :
    ¬ PassesAll command (token :: tokens) := by
  rintro ⟨front, rest, reached, longest, -, calls⟩
  obtain ⟨-, rfl, rfl⟩ := (longest_unresolved unnamed).1 longest
  have call := calls (by simpa [BeginsDashed] using plain)
  rw [execute_cons, if_neg plain, ← childOf_of_not_dashed plain, unnamed] at call
  simp at call

/-- All arguments are passed if and only if there are none to pass: the first token that is not resolved
begins with `-`, or each one names an option or a subcommand where the dispatch looks for it. -/
theorem dispatch_passes_all_iff (command : Command) (tokens : List CliName) :
    PassesAll command tokens ↔ StopsAtOption command tokens ∨ AllNamed command tokens := by
  induction tokens generalizing command with
  | nil =>
    simp only [StopsAtOption, AllNamed, or_true, iff_true]
    exact ⟨[], [], command, longest_nil.2 ⟨rfl, rfl, rfl⟩, by simp [BeginsDashed, execute], fun _ => rfl⟩
  | cons token tokens ih =>
    have executed := execute_cons command token tokens
    rw [StopsAtOption, AllNamed]
    by_cases dashed : Dashed token
    · rw [if_pos dashed] at executed ⊢
      cases found : command.getOption token with
      | none =>
        rw [found] at executed
        simp only [or_false]
        exact passesAll_of_refused executed
      | some option =>
        have named : childOf command token = some option := by rw [childOf, found, Option.some_or]
        rw [found] at executed
        rw [named]
        exact (passesAll_of_passed named executed).trans (ih option)
    · have named : childOf command token = command.getSubcommand token := childOf_of_not_dashed dashed
      rw [if_neg dashed] at executed ⊢
      cases found : command.getSubcommand token with
      | none =>
        rw [found] at named
        simp only [named, dashed, or_self, iff_false]
        exact not_passesAll_of_param named dashed
      | some subcommand =>
        rw [found] at named executed
        rw [named]
        exact (passesAll_of_passed named executed).trans (ih subcommand)

/-- `config a` comes to `do_execute` without `a`. -/
theorem config_file_lost : ¬ PassesAll (create 0 1) [[97]] := by
  rintro ⟨front, rest, reached, longest, -, calls⟩
  have unnamed : childOf (create 0 1) [97] = none := by rfl
  obtain ⟨-, rfl, rfl⟩ := (longest_unresolved unnamed).1 longest
  have call := calls (by simp [BeginsDashed, Dashed])
  have lost : (create 0 1).execute [[97]] = .doExecute (create 0 1) [] := by rfl
  rw [lost] at call
  simp at call

end Cassobee.Proofs
