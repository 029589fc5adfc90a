/-
The arguments of a command: options with and without a value, operands, and names of subcommands.

An option is written `--name`, or `-n` if it has a letter; single letters can be put together behind
one dash. A value follows as the next argument, behind an equals sign, or right behind the letter.
What follows `--` is an operand whatever it looks like.
-/
namespace SqlDialects.CommandLine

inductive OptionKind where
  | value
  | flag
  /-- Asks for the version and stops reading. -/
  | version
  /-- Asks for help and stops reading. -/
  | help
  deriving DecidableEq, Repr

structure OptionSpec where
  name : String
  letter : Option Char := none
  kind : OptionKind
  deriving DecidableEq, Repr

structure Command where
  options : List OptionSpec
  operands : Nat
  subcommands : List String := []
  /-- Whether an option, by its name, takes a value. -/
  accepts : String → String → Bool

structure Arguments where
  values : List (String × String) := []
  flags : List String := []
  operands : List String := []
  /-- The subcommand with the arguments that belong to it. -/
  subcommand : Option (String × List String) := none
  deriving DecidableEq, Repr

inductive Stop where
  | usage
  | version
  | help
  deriving DecidableEq, Repr

namespace Arguments

/-- Takes the value of an option, which must be acceptable and the only one. -/
def addValue (command : Command) (read : Arguments) (name value : String) :
    Except Stop Arguments :=
  if (read.values.lookup name).isSome || !command.accepts name value then .error .usage
  else .ok { read with values := read.values ++ [(name, value)] }

/-- Takes an option without a value. No flag is given twice. -/
def addFlag (read : Arguments) (spec : OptionSpec) : Except Stop Arguments :=
  match spec.kind with
  | .version => .error .version
  | .help => .error .help
  | .value | .flag =>
    if read.flags.contains spec.name then .error .usage
    else .ok { read with flags := read.flags ++ [spec.name] }

def addOperand (command : Command) (read : Arguments) (operand : String) : Except Stop Arguments :=
  if read.operands.length < command.operands then
    .ok { read with operands := read.operands ++ [operand] }
  else .error .usage

/-- Takes letters behind a single dash. The second part of the result names an option whose value
is still to come. -/
def addLetters (command : Command) (read : Arguments) :
    List Char → Except Stop (Arguments × Option String)
  | [] => .ok (read, none)
  | letter :: rest =>
    match command.options.find? fun spec => spec.letter == some letter with
    | none => .error .usage
    | some spec =>
      if spec.kind = .value then
        match rest with
        | [] => .ok (read, some spec.name)
        | '=' :: value => do
          let read ← read.addValue command spec.name (String.ofList value)
          pure (read, none)
        | value => do
          let read ← read.addValue command spec.name (String.ofList value)
          pure (read, none)
      else do
        let read ← read.addFlag spec
        read.addLetters command rest

def addLong (command : Command) (read : Arguments) (text : List Char) :
    Except Stop (Arguments × Option String) :=
  let name := String.ofList (text.takeWhile (· != '='))
  let value? := match text.dropWhile (· != '=') with
    | '=' :: value => some (String.ofList value)
    | _ => none
  match command.options.find? fun spec => spec.name == name with
  | none => .error .usage
  | some spec =>
    match decide (spec.kind = .value), value? with
    | true, some value => do
      let read ← read.addValue command name value
      pure (read, none)
    | true, none => .ok (read, some name)
    | false, some _ => .error .usage
    | false, none => do
      let read ← read.addFlag spec
      pure (read, none)

/-- Reads on from what has been read. `pending` names an option whose value is still to come. -/
def readFrom (command : Command) (read : Arguments) (pending : Option String) :
    List String → Except Stop Arguments
  | [] => if pending.isSome then .error .usage else .ok read
  | argument :: rest =>
    if pending.isNone && command.subcommands.contains argument then
      .ok { read with subcommand := some (argument, rest) }
    else
      match argument.toList with
      | ['-', '-'] =>
        if pending.isSome then .error .usage
        else rest.foldlM (addOperand command) read
      | '-' :: '-' :: text =>
        if pending.isSome then .error .usage
        else do
          let (read, pending) ← read.addLong command text
          readFrom command read pending rest
      | '-' :: letter :: letters =>
        if pending.isSome then .error .usage
        else do
          let (read, pending) ← read.addLetters command (letter :: letters)
          readFrom command read pending rest
      | _ =>
        match pending with
        | some name => do
          let read ← read.addValue command name argument
          readFrom command read none rest
        | none => do
          let read ← read.addOperand command argument
          readFrom command read none rest

def ofList (command : Command) (arguments : List String) : Except Stop Arguments :=
  readFrom command {} none arguments

end Arguments

end SqlDialects.CommandLine
