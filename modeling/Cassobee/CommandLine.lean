import Mathlib.Data.Finset.Basic
import Mathlib.Logic.Function.Basic

/-! The command and alias tables of `cli/command_line.cpp`. A `command*` is named by the number of
commands that were created before it. -/

namespace Cassobee

abbrev CliName := List UInt8

inductive CliCode where
  | ok | error
  deriving DecidableEq, Repr

/-- `aliasesOf` has the `_alias` of each command, and `hasOptions` says whether it has an option, of which it is the
`_parent`: `-h` is one by default. `faulted` records that an object was deleted twice. -/
structure CommandLine where
  commands : CliName → Option Nat
  aliases : CliName → Option CliName
  aliasesOf : Nat → Finset CliName
  hasOptions : Nat → Bool
  created : Nat
  faulted : Bool

/-- Every command that is added is a new one. -/
inductive CliAction where
  | addCommand (commandName : CliName) (options : Bool) (aliases : List CliName)
  | removeCommand (commandName : CliName)
  | addAlias (commandName aliasName : CliName)
  | removeAlias (commandName aliasName : CliName)
  deriving DecidableEq, Repr

namespace CommandLine

def initial : CommandLine := ⟨fun _ => none, fun _ => none, fun _ => ∅, fun _ => false, 0, false⟩

/-- The constructor of a command, with or without `init_default`. -/
def construct (cli : CommandLine) (options : Bool) : CommandLine :=
  { cli with hasOptions := Function.update cli.hasOptions cli.created options }

/-- One step through the alias table. -/
def resolve (cli : CommandLine) (commandName : CliName) : CliName := (cli.aliases commandName).getD commandName

def getCommand (cli : CommandLine) (commandName : CliName) : Option Nat := cli.commands (cli.resolve commandName)

/-- `_alias.emplace` and `command::add_alias`. -/
def bindAlias (cli : CommandLine) (aliasName name : CliName) (command : Nat) : CommandLine :=
  { cli with
    aliases := Function.update cli.aliases aliasName (some name)
    aliasesOf := Function.update cli.aliasesOf command (insert aliasName (cli.aliasesOf command)) }

/-- The loop of `add_command`: it ends at the first alias that is taken. -/
def bindAliases (commandName : CliName) (command : Nat) : List CliName → CommandLine → CliCode × CommandLine
  | [], cli => (.ok, cli)
  | a :: rest, cli =>
    match cli.aliases a with
    | none => bindAliases commandName command rest (cli.bindAlias a commandName command)
    | some _ => (.error, cli)

def addCommand (cli : CommandLine) (commandName : CliName) (aliases : List CliName) : CliCode × CommandLine :=
  let command := cli.created
  let cli := { cli with created := cli.created + 1 }
  match cli.commands commandName with
  | none => bindAliases commandName command aliases { cli with commands := Function.update cli.commands commandName (some command) }
  | some _ => (.error, cli)

/-- `delete`: the destructor lets the options go, and that of an option deletes its `_parent`. -/
def deleteCommand (cli : CommandLine) (command : Nat) : CommandLine :=
  { cli with faulted := cli.faulted || cli.hasOptions command }

def removeCommand (cli : CommandLine) (commandName : CliName) : CliCode × CommandLine :=
  let name := cli.resolve commandName
  match cli.commands name with
  | some command =>
    (.ok, ({ cli with
      aliases := fun aliasName => if aliasName ∈ cli.aliasesOf command then none else cli.aliases aliasName
      commands := Function.update cli.commands name none } : CommandLine).deleteCommand command)
  | none => (.error, cli)

/-- The command is looked up under the resolved name, and the alias is entered for the name that was
given. -/
def addAlias (cli : CommandLine) (commandName aliasName : CliName) : CliCode × CommandLine :=
  match cli.commands (cli.resolve commandName) with
  | some command =>
    match cli.aliases aliasName with
    | none => (.ok, cli.bindAlias aliasName commandName command)
    | some _ => (.error, cli)
  | none => (.error, cli)

/-- The name is not resolved here, and it is not asked whose alias it is. -/
def removeAlias (cli : CommandLine) (commandName aliasName : CliName) : CliCode × CommandLine :=
  match cli.commands commandName with
  | none => (.error, cli)
  | some command =>
    match cli.aliases aliasName with
    | some _ =>
      (.ok, { cli with
        aliases := Function.update cli.aliases aliasName none
        aliasesOf := Function.update cli.aliasesOf command ((cli.aliasesOf command).erase aliasName) })
    | none => (.ok, cli)

def call (cli : CommandLine) : CliAction → CliCode × CommandLine
  | .addCommand commandName options aliases => (cli.construct options).addCommand commandName aliases
  | .removeCommand commandName => cli.removeCommand commandName
  | .addAlias commandName aliasName => cli.addAlias commandName aliasName
  | .removeAlias commandName aliasName => cli.removeAlias commandName aliasName

def step (cli : CommandLine) (action : CliAction) : Option CommandLine := some (cli.call action).2

end CommandLine
end Cassobee
