import Cassobee.CommandLine

/-! `cli/command.cpp`: the tree of commands with their options and subcommands and the dispatch of the
tokens of a line, and `parse_command` of `cli/command_line.cpp`, which the completion uses. -/

namespace Cassobee

def Dashed (token : CliName) : Prop := [45] <+: token

instance : DecidablePred Dashed := fun token => inferInstanceAs (Decidable ([45] <+: token))

/-- `add_option` lets no other name in. -/
structure OptionName where
  text : CliName
  dashed : Dashed text
  deriving DecidableEq

/-- Two commands of the same shape are told apart by `number`. -/
inductive Command where
  | mk (number : Nat) (options : List (OptionName × Command)) (subcommands : List (CliName × Command))

/-- What `execute` comes to: the message for an option that is not known, with `ERROR`, or the one call of
`do_execute`, with its result. -/
inductive Dispatch where
  | unknownOption (token : CliName)
  | doExecute (command : Command) (params : List CliName)

namespace Command

def options : Command → List (OptionName × Command)
  | mk _ options _ => options

def subcommands : Command → List (CliName × Command)
  | mk _ _ subcommands => subcommands

def getOption (command : Command) (optionName : CliName) : Option Command :=
  (command.options.find? fun entry => entry.1.text = optionName).map Prod.snd

def getSubcommand (command : Command) (subcommandName : CliName) : Option Command :=
  command.subcommands.lookup subcommandName

/-- `_options.emplace`, for a name that is not empty. -/
def emplaceOption (command : Command) (optionName : CliName) (option : Command) : CliCode × Command :=
  if dashed : Dashed optionName then
    match command.getOption optionName, command with
    | none, mk number options subcommands => (.ok, mk number (options ++ [(⟨optionName, dashed⟩, option)]) subcommands)
    | some _, command => (.error, command)
  else (.ok, command)

/-- An empty name is left out. A short name stays when the long one is taken. -/
def addOption (command : Command) (shortName longName : CliName) (option : Command) : CliCode × Command :=
  if shortName ≠ [] ∧ ¬ Dashed shortName then (.error, command)
  else if longName ≠ [] ∧ ¬ [45, 45] <+: longName then (.error, command)
  else
    match command.emplaceOption shortName option with
    | (.error, command) => (.error, command)
    | (.ok, command) => command.emplaceOption longName option

def addSubcommand : Command → CliName → Command → Command
  | mk number options subcommands, subcommandName, subcommand =>
    mk number options ((subcommands.filter fun entry => entry.1 ≠ subcommandName) ++ [(subcommandName, subcommand)])

/-- The constructor with `init_default`: `-h` and `--help`. -/
def create (number help : Nat) : Command :=
  ((mk number [] []).addOption [45, 104] [45, 45, 104, 101, 108, 112] (mk help [] [])).2

/-- Every branch takes the first token away, the one for a parameter too. -/
def execute : Command → List CliName → Dispatch
  | command, [] => .doExecute command []
  | command, token :: params =>
    if [45, 45] <+: token then
      match command.getOption token with
      | some option => option.execute params
      | none => .unknownOption token
    else if Dashed token then
      match command.getOption token with
      | some option => option.execute params
      | none => .unknownOption token
    else
      match command.getSubcommand token with
      | some subcommand => subcommand.execute params
      | none => .doExecute command params

end Command

/-! ## Completion -/

@[ext]
structure Token where
  text : CliName
  nonempty : text ≠ []
  deriving DecidableEq

/-- `reads` lists the characters `token[k]` that were looked at. -/
structure ParseState where
  command : Option Command
  commands : List (CliName × Command)
  params : List Token
  options : CliName → Option (List UInt8)
  reads : List (Token × Nat)

namespace ParseState

/-- `token[k]`: the byte behind the last is `'\0'`, and there is none after it. -/
def charAt (token : Token) (k : Nat) : Option UInt8 := (token.text ++ [0])[k]?

def read (state : ParseState) (token : Token) (k : Nat) : ParseState :=
  { state with reads := state.reads ++ [(token, k)] }

def setOption (state : ParseState) (token : Token) (value : List UInt8) : ParseState :=
  { state with options := Function.update state.options token.text (some value) }

/-- A token that does not begin with `-`. -/
def named (aliases : CliName → Option CliName) (state : ParseState) (token : Token) : ParseState :=
  match state.commands.lookup ((aliases token.text).getD token.text) with
  | some command => { state with command := some command, commands := command.subcommands }
  | none => { state with params := state.params ++ [token] }

/-- The loop at index `i`. The value of an option is taken as `token[++i]`, a character of the option. -/
def parse (aliases : CliName → Option CliName) : Nat → List Token → ParseState → Option ParseState
  | _, [], state => some state
  | i, token :: rest, state =>
    let state := state.read token 0
    if Dashed token.text then
      match rest with
      | [] => some (state.setOption token [])
      | next :: rest =>
        let state := state.read next 0
        if Dashed next.text then parse aliases (i + 1) (next :: rest) (state.setOption token [])
        else
          match charAt token (i + 1) with
          | some char => parse aliases (i + 2) rest ((state.read token (i + 1)).setOption token [char])
          | none => none
    else parse aliases (i + 1) rest (state.named aliases token)

end ParseState

/-- `none` when a character is read that is not there. -/
def parseCommand (commands : List (CliName × Command)) (aliases : CliName → Option CliName) (tokens : List Token) :
    Option ParseState :=
  ParseState.parse aliases 0 tokens ⟨none, commands, [], fun _ => none, []⟩

end Cassobee
