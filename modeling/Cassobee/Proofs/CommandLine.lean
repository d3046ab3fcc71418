import Cassobee.CommandLine
import Cassobee.Support.Run

/-! The alias table and the aliases of each command say the same as long as an alias is added under the
command's own name and removed under it, and no command with options is removed. -/

namespace Cassobee.Proofs
open Support CommandLine

structure AliasesAgree (cli : CommandLine) : Prop where
  unfaulted : cli.faulted = false
  registered {a name : CliName} : cli.aliases a = some name → ∃ command, cli.commands name = some command
  own {name : CliName} {command : Nat} : cli.commands name = some command →
    ∀ a, a ∈ cli.aliasesOf command ↔ ∃ target, cli.aliases a = some target ∧ cli.commands target = some command

/-- After an alias has been added, it stands for what the name stood for. -/
def AliasStands (cli : CommandLine) : CliAction → Prop
  | .addAlias commandName a =>
    (cli.addAlias commandName a).1 = .ok → (cli.addAlias commandName a).2.getCommand a = cli.getCommand commandName
  | _ => True

/-- An alias that is free is added under a name that is not itself an alias of another name, an alias is removed
under the name that it is an alias of, and a command that is removed has no options. -/
def WellUsed (cli : CommandLine) : CliAction → Prop
  | .addAlias commandName a => cli.aliases a = none → ∀ name, cli.aliases commandName = some name → name = commandName
  | .removeAlias commandName a =>
    cli.commands commandName ≠ none → ∀ name, cli.aliases a = some name → name = commandName
  | .removeCommand commandName => ∀ command, cli.getCommand commandName = some command → cli.hasOptions command = false
  | .addCommand .. => True

/-- No command is registered under two names, and new commands have no aliases. -/
structure AliasTable (cli : CommandLine) : Prop where
  unfaulted : cli.faulted = false
  target {a name : CliName} : cli.aliases a = some name → ∃ command, cli.commands name = some command
  own {name : CliName} {command : Nat} : cli.commands name = some command →
    ∀ a, a ∈ cli.aliasesOf command ↔ cli.aliases a = some name
  distinct {name other : CliName} {command : Nat} :
    cli.commands name = some command → cli.commands other = some command → name = other
  old {name : CliName} {command : Nat} : cli.commands name = some command → command < cli.created
  new {command : Nat} : cli.created ≤ command → cli.aliasesOf command = ∅

variable {cli : CommandLine}

theorem AliasTable.agree (table : AliasTable cli) : AliasesAgree cli where
  unfaulted := table.unfaulted
  registered := table.target
  own := by
    intro name command found a
    rw [table.own found]
    constructor
    · exact fun bound => ⟨name, bound, found⟩
    · rintro ⟨target, bound, same⟩
      rw [bound, table.distinct same found]

theorem aliasTable_initial : AliasTable initial := by
  constructor <;> simp [initial]

/-! ## The operations -/

theorem AliasTable.bindAlias (table : AliasTable cli) {a name : CliName} {command : Nat}
    (found : cli.commands name = some command) (free : cli.aliases a = none) : AliasTable (cli.bindAlias a name command) where
  unfaulted := table.unfaulted
  target := by
    intro b target bound
    by_cases same : b = a
    · subst same
      simp only [CommandLine.bindAlias, Function.update_self, Option.some.injEq] at bound
      exact ⟨command, bound ▸ found⟩
    · simp only [CommandLine.bindAlias, Function.update_of_ne same] at bound
      exact table.target bound
  own := by
    intro other command' found' b
    have own := table.own found' b
    by_cases here : command' = command
    · obtain rfl : other = name := table.distinct (here ▸ found') found
      subst here
      by_cases same : b = a
      · simp [CommandLine.bindAlias, same]
      · simp [CommandLine.bindAlias, same, own]
    · have different : name ≠ other := by
        rintro rfl
        exact here (Option.some.inj (found'.symm.trans found))
      by_cases same : b = a
      · subst same
        rw [free] at own
        simp [CommandLine.bindAlias, here, own, different]
      · simp [CommandLine.bindAlias, here, own, same]
  distinct := table.distinct
  old := table.old
  new := by
    intro command' later
    have other : command' ≠ command := Nat.ne_of_gt (Nat.lt_of_lt_of_le (table.old found) later)
    simp only [CommandLine.bindAlias, Function.update_of_ne other]
    exact table.new later

theorem AliasTable.bindAliases (table : AliasTable cli) {name : CliName} {command : Nat}
    (found : cli.commands name = some command) (aliases : List CliName) :
    AliasTable (CommandLine.bindAliases name command aliases cli).2 := by
  induction aliases generalizing cli with
  | nil => exact table
  | cons a aliases ih =>
    rw [CommandLine.bindAliases]
    split
    case h_1 free => exact ih (table.bindAlias found free) found
    case h_2 => exact table

theorem AliasTable.created (table : AliasTable cli) : AliasTable { cli with created := cli.created + 1 } where
  unfaulted := table.unfaulted
  target := table.target
  own := table.own
  distinct := table.distinct
  old := fun found => Nat.lt_succ_of_lt (table.old found)
  new := fun later => table.new (Nat.le_of_succ_le later)

theorem update_eq_some_iff {κ ν : Type} [DecidableEq κ] {f : κ → Option ν} {key x : κ} {value : Option ν} {y : ν} :
    Function.update f key value x = some y ↔ x = key ∧ value = some y ∨ x ≠ key ∧ f x = some y := by
  by_cases same : x = key
  · simp [same]
  · simp [same]

/-- A name that is not registered is no alias's, and the new command has none. -/
theorem AliasTable.enter (table : AliasTable cli) {name : CliName} (unknown : cli.commands name = none) :
    AliasTable { cli with commands := Function.update cli.commands name (some cli.created), created := cli.created + 1 } := by
  have unbound (a : CliName) : cli.aliases a ≠ some name := by
    intro bound
    obtain ⟨command, found⟩ := table.target bound
    rw [unknown] at found
    cases found
  refine ⟨table.unfaulted, ?_, ?_, ?_, ?_, ?_⟩
  · intro a target bound
    obtain ⟨command, found⟩ := table.target bound
    have other : target ≠ name := by
      rintro rfl
      exact unbound a bound
    exact ⟨command, update_eq_some_iff.2 (.inr ⟨other, found⟩)⟩
  · intro other command found a
    obtain ⟨rfl, same⟩ | ⟨-, found⟩ := update_eq_some_iff.1 found
    · cases same
      simp [table.new (Nat.le_refl _), unbound a]
    · exact table.own found a
  · intro one two command found found'
    obtain ⟨rfl, same⟩ | ⟨different, before⟩ := update_eq_some_iff.1 found <;>
      obtain ⟨rfl, same'⟩ | ⟨different', before'⟩ := update_eq_some_iff.1 found'
    · rfl
    · cases same
      exact absurd (table.old before') (Nat.lt_irrefl _)
    · cases same'
      exact absurd (table.old before) (Nat.lt_irrefl _)
    · exact table.distinct before before'
  · intro other command found
    obtain ⟨-, same⟩ | ⟨-, found⟩ := update_eq_some_iff.1 found
    · cases same
      exact Nat.lt_succ_self _
    · exact Nat.lt_succ_of_lt (table.old found)
  · exact fun later => table.new (Nat.le_of_succ_le later)

theorem AliasTable.addCommand (table : AliasTable cli) (name : CliName) (aliases : List CliName) :
    AliasTable (cli.addCommand name aliases).2 := by
  rw [CommandLine.addCommand]
  simp only
  split
  case h_1 unknown => exact (table.enter unknown).bindAliases (by simp) aliases
  case h_2 => exact table.created

theorem AliasTable.construct (table : AliasTable cli) (options : Bool) : AliasTable (cli.construct options) :=
  ⟨table.unfaulted, table.target, table.own, table.distinct, table.old, table.new⟩

theorem AliasTable.deleteCommand (table : AliasTable cli) {command : Nat} (plain : cli.hasOptions command = false) :
    AliasTable (cli.deleteCommand command) := by
  have unfaulted : (cli.faulted || cli.hasOptions command) = false := by rw [table.unfaulted, plain, Bool.or_false]
  exact ⟨unfaulted, table.target, table.own, table.distinct, table.old, table.new⟩

theorem AliasTable.removeCommand (table : AliasTable cli) {commandName : CliName}
    (plain : WellUsed cli (.removeCommand commandName)) : AliasTable (cli.removeCommand commandName).2 := by
  simp only [WellUsed, getCommand] at plain
  rw [CommandLine.removeCommand]
  generalize cli.resolve commandName = name at plain ⊢
  split
  case h_2 => exact table
  case h_1 command found =>
    have mine := table.own found
    have left {other : CliName} {command' : Nat} (found' : Function.update cli.commands name none other = some command') :
        other ≠ name ∧ cli.commands other = some command' := by
      simpa [update_eq_some_iff] using found'
    refine AliasTable.deleteCommand ?_ ?options
    case options => exact plain command found
    refine ⟨table.unfaulted, ?_, ?_, ?_, ?_, ?_⟩
    · intro a target bound
      rw [Option.ite_none_left_eq_some] at bound
      obtain ⟨command', found'⟩ := table.target bound.2
      have other : target ≠ name := by
        rintro rfl
        exact bound.1 ((mine a).2 bound.2)
      exact ⟨command', update_eq_some_iff.2 (.inr ⟨other, found'⟩)⟩
    · intro other command' found' a
      obtain ⟨different, found'⟩ := left found'
      rw [table.own found', Option.ite_none_left_eq_some]
      refine ⟨fun bound => ⟨fun member => ?_, bound⟩, And.right⟩
      rw [mine a, bound] at member
      exact different (Option.some.inj member)
    · exact fun found' found'' => table.distinct (left found').2 (left found'').2
    · exact fun found' => table.old (left found').2
    · exact table.new

/-- Under its own name an alias is entered where it is looked for. -/
theorem AliasTable.addAlias (table : AliasTable cli) {commandName a : CliName} (own : WellUsed cli (.addAlias commandName a)) :
    AliasTable (cli.addAlias commandName a).2 ∧ AliasStands cli (.addAlias commandName a) := by
  rw [AliasStands, CommandLine.addAlias]
  split
  case h_2 => exact ⟨table, by simp⟩
  case h_1 command found =>
    split
    case h_2 => exact ⟨table, by simp⟩
    case h_1 free =>
      have resolved : cli.resolve commandName = commandName := by
        rw [resolve]
        cases bound : cli.aliases commandName with
        | none => rfl
        | some name => exact own free name bound
      rw [resolved] at found
      refine ⟨table.bindAlias found free, fun _ => ?_⟩
      rw [getCommand, getCommand, resolved]
      simp [resolve, CommandLine.bindAlias]

theorem AliasTable.removeAlias (table : AliasTable cli) {commandName a : CliName}
    (own : WellUsed cli (.removeAlias commandName a)) : AliasTable (cli.removeAlias commandName a).2 := by
  rw [CommandLine.removeAlias]
  split
  case h_1 => exact table
  case h_2 command found =>
    split
    case h_2 => exact table
    case h_1 name bound =>
      obtain rfl : name = commandName := own (by simp [found]) name bound
      refine ⟨table.unfaulted, ?_, ?_, ?_, ?_, ?_⟩
      · intro b target bound'
        obtain ⟨-, same⟩ | ⟨-, bound'⟩ := update_eq_some_iff.1 bound'
        · cases same
        · exact table.target bound'
      · intro other command' found' b
        have mine := table.own found' b
        by_cases here : command' = command
        · subst here
          by_cases same : b = a
          · simp [same]
          · simp [same, mine]
        · by_cases same : b = a
          · subst same
            have different : name ≠ other := by
              rintro rfl
              exact here (Option.some.inj (found'.symm.trans found))
            rw [bound] at mine
            simp [here, mine, different]
          · simp [here, same, mine]
      · exact table.distinct
      · exact table.old
      · intro command' later
        have other : command' ≠ command := Nat.ne_of_gt (Nat.lt_of_lt_of_le (table.old found) later)
        simp only [Function.update_of_ne other]
        exact table.new later

theorem AliasTable.step (table : AliasTable cli) {action : CliAction} (own : WellUsed cli action) :
    AliasTable (cli.call action).2 := by
  cases action with
  | addCommand name options aliases => exact (table.construct options).addCommand name aliases
  | removeCommand name => exact table.removeCommand own
  | addAlias name a => exact (table.addAlias own).1
  | removeAlias name a => exact table.removeAlias own

/-! ## Names of others, and options -/

theorem AliasTable.needs_addAlias (table : AliasTable cli) {commandName a : CliName}
    (agree : AliasesAgree (cli.addAlias commandName a).2) : WellUsed cli (.addAlias commandName a) := by
  intro free name bound
  obtain ⟨command, found⟩ := table.target bound
  have resolved : cli.resolve commandName = name := by rw [resolve, bound, Option.getD_some]
  have after : (cli.addAlias commandName a).2 = cli.bindAlias a commandName command := by
    simp only [CommandLine.addAlias, resolved, found, free]
  rw [after] at agree
  have member : a ∈ (cli.bindAlias a commandName command).aliasesOf command := by simp [CommandLine.bindAlias]
  obtain ⟨target, entered, same⟩ := (agree.own found a).1 member
  obtain rfl : commandName = target := by simpa [CommandLine.bindAlias] using entered
  exact table.distinct found same

theorem AliasTable.needs_removeAlias (table : AliasTable cli) {commandName a : CliName}
    (agree : AliasesAgree (cli.removeAlias commandName a).2) : WellUsed cli (.removeAlias commandName a) := by
  intro known name bound
  by_contra different
  obtain ⟨command, found⟩ := Option.ne_none_iff_exists'.1 known
  obtain ⟨owner, found'⟩ := table.target bound
  have other : owner ≠ command := by
    rintro rfl
    exact different (table.distinct found' found)
  have after : (cli.removeAlias commandName a).2 = { cli with
      aliases := Function.update cli.aliases a none
      aliasesOf := Function.update cli.aliasesOf command ((cli.aliasesOf command).erase a) } := by
    simp only [CommandLine.removeAlias, found, bound]
  rw [after] at agree
  have member : a ∈ Function.update cli.aliasesOf command ((cli.aliasesOf command).erase a) owner := by
    rw [Function.update_of_ne other]
    exact (table.own found' a).2 bound
  obtain ⟨target, entered, -⟩ := (agree.own found' a).1 member
  simp at entered

theorem needs_removeCommand {commandName : CliName} (agree : AliasesAgree (cli.removeCommand commandName).2) :
    WellUsed cli (.removeCommand commandName) := by
  intro command found
  have unfaulted := agree.unfaulted
  rw [getCommand] at found
  simp only [CommandLine.removeCommand, found, deleteCommand, Bool.or_eq_false_iff] at unfaulted
  exact unfaulted.2

theorem AliasTable.needs (table : AliasTable cli) {action : CliAction} (agree : AliasesAgree (cli.call action).2) :
    WellUsed cli action := by
  cases action with
  | addCommand => trivial
  | removeCommand => exact needs_removeCommand agree
  | addAlias name a => exact table.needs_addAlias agree
  | removeAlias name a => exact table.needs_removeAlias agree

/-! ## Runs -/

/-- The table and the sets agree in every state, and every alias stands for its command, if and only if
aliases are added and removed under their commands' own names, and commands with options stay. -/
theorem aliases_agree_iff (actions : List CliAction) :
    Throughout step AliasesAgree initial actions ∧ EachStep step AliasStands initial actions ↔
      EachStep step WellUsed initial actions := by
  have kept {cli next : CommandLine} {action : CliAction} (table : AliasTable cli) (own : WellUsed cli action)
      (stepped : cli.step action = some next) : AliasTable next := by
    cases stepped
    exact table.step own
  have same : Throughout step AliasesAgree initial actions ↔ EachStep step WellUsed initial actions := by
    apply throughout_iff_eachStep (fun table => AliasTable.agree table) kept ?_ aliasTable_initial
    exact fun table agree => table.needs (agree _ rfl)
  rw [same]
  refine ⟨And.left, fun each => ⟨each, ?_⟩⟩
  apply eachStep_of_kept fun rest cli => AliasTable cli ∧ EachStep step WellUsed cli rest
  · rintro action rest cli ⟨table, own, -⟩
    cases action with
    | addAlias name a => exact (table.addAlias own).2
    | addCommand | removeCommand | removeAlias => trivial
  · rintro action rest cli next ⟨table, own, later⟩ - stepped
    exact ⟨kept table own stepped, later next stepped⟩
  · exact ⟨aliasTable_initial, each⟩

/-- `c` gets the alias `a`, and `b` is added as an alias under `a`: it names no command. -/
def aliasOfAlias : List CliAction := [.addCommand [99] true [[97]], .addAlias [97] [98]]

theorem aliasOfAlias_disagrees :
    ¬ (Throughout step AliasesAgree initial aliasOfAlias ∧ EachStep step AliasStands initial aliasOfAlias) := by
  rintro ⟨agree, -⟩
  have entered : ((initial.call (.addCommand [99] true [[97]])).2.call (.addAlias [97] [98])).2.aliases [98] = some [97] := by decide
  have unknown : ((initial.call (.addCommand [99] true [[97]])).2.call (.addAlias [97] [98])).2.commands [97] = none := by decide
  have last := (agree.2 _ rfl).2 _ rfl
  obtain ⟨command, found⟩ := last.registered entered
  rw [unknown] at found
  cases found

/-! ## Failed registrations -/

/-- Where `add_command` fails, the tables and the aliases of every registered command are as before. -/
def AllOrNothing (cli : CommandLine) (name : CliName) (aliases : List CliName) : Prop :=
  (cli.addCommand name aliases).1 = .error →
    (cli.addCommand name aliases).2.commands = cli.commands ∧
    (cli.addCommand name aliases).2.aliases = cli.aliases ∧
    ∀ other command, cli.commands other = some command →
      (cli.addCommand name aliases).2.aliasesOf command = cli.aliasesOf command

/-- The loop comes to its end if no alias is taken, neither before the call nor by the list itself. -/
theorem bindAliases_ok_iff (name : CliName) (command : Nat) (aliases : List CliName) (cli : CommandLine) :
    (CommandLine.bindAliases name command aliases cli).1 = .ok ↔ aliases.Nodup ∧ ∀ a ∈ aliases, cli.aliases a = none := by
  induction aliases generalizing cli with
  | nil => simp [CommandLine.bindAliases]
  | cons a aliases ih =>
    rw [CommandLine.bindAliases]
    cases bound : cli.aliases a with
    | some taken => simp [bound]
    | none =>
      have others : (∀ b ∈ aliases, (cli.bindAlias a name command).aliases b = none) ↔
          a ∉ aliases ∧ ∀ b ∈ aliases, cli.aliases b = none := by
        constructor
        · intro free
          refine ⟨fun member => ?_, fun b member => ?_⟩
          · have taken := free a member
            simp [CommandLine.bindAlias] at taken
          · have none := free b member
            by_cases same : b = a
            · exact same ▸ bound
            · simpa [CommandLine.bindAlias, same] using none
        · rintro ⟨absent, free⟩ b member
          have different : b ≠ a := fun same => absent (same ▸ member)
          simpa [CommandLine.bindAlias, different] using free b member
      simp only [ih, others, List.nodup_cons, List.forall_mem_cons, bound, true_and]
      tauto

theorem bindAliases_commands (name : CliName) (command : Nat) (aliases : List CliName) (cli : CommandLine) :
    (CommandLine.bindAliases name command aliases cli).2.commands = cli.commands := by
  induction aliases generalizing cli with
  | nil => rfl
  | cons a aliases ih =>
    rw [CommandLine.bindAliases]
    cases cli.aliases a with
    | some taken => rfl
    | none => exact ih (cli.bindAlias a name command)

/-- A registration that fails leaves no trace if and only if it fails for the name: at an alias that is
taken the command is already entered, and nothing takes it back. -/
theorem addCommand_allOrNothing_iff (cli : CommandLine) (name : CliName) (aliases : List CliName) :
    AllOrNothing cli name aliases ↔
      cli.commands name ≠ none ∨ aliases.Nodup ∧ ∀ a ∈ aliases, cli.aliases a = none := by
  rw [AllOrNothing, CommandLine.addCommand]
  cases known : cli.commands name with
  | some command => simp
  | none =>
    let begun := { cli with commands := Function.update cli.commands name (some cli.created), created := cli.created + 1 }
    have loop : _ ↔ aliases.Nodup ∧ ∀ a ∈ aliases, cli.aliases a = none := bindAliases_ok_iff name cli.created aliases begun
    have entered : (CommandLine.bindAliases name cli.created aliases begun).2.commands name = some cli.created := by
      rw [bindAliases_commands]
      exact Function.update_self ..
    simp only [ne_eq, not_true_eq_false, false_or]
    constructor
    · intro untouched
      apply loop.1
      cases code : (CommandLine.bindAliases name cli.created aliases begun).1 with
      | ok => rfl
      | error =>
        rw [(untouched code).1, known] at entered
        cases entered
    · intro bindable failed
      cases failed.symm.trans (loop.2 bindable)

/-- `c` is added with the alias `a` twice: the call fails, and `c` is there. -/
theorem repeated_alias_enters : ¬ AllOrNothing initial [99] [[97], [97]] := by
  intro untouched
  have entered := congrFun (untouched (by decide)).1 [99]
  revert entered
  decide

end Cassobee.Proofs
