import SqlDialects.CommandLine.Arguments
import SqlDialects.Dialect

/-
What the program is asked to do, from its arguments and from the variables that stand in for some
of them.
-/
namespace SqlDialects.CommandLine

inductive Format where
  | text
  | json
  deriving DecidableEq, Repr

def Format.ofName? : String → Option Format
  | "text" => some .text
  | "json" => some .json
  | _ => none

structure Request where
  sql : Option String := none
  file : Option String := none
  source : Option Dialect := none
  target : Option Dialect := none
  format : Format := .text
  settings : Option String := none
  hideInfo : Bool := false
  verbose : Bool := false
  deriving DecidableEq, Repr

inductive Invocation where
  | convert (request : Request)
  | dialects
  | mapType (text : String) (pair : Pair)
  | version
  | help
  deriving DecidableEq, Repr

def dialect? (name : String) : Option Dialect :=
  match Dialect.ofName name with
  | .ok dialect => some dialect
  | .error _ => none

def accepts (option value : String) : Bool :=
  match option with
  | "from" | "to" => (dialect? value).isSome
  | "file" | "config" => !value.isEmpty
  | "format" => (Format.ofName? value).isSome
  | _ => false

def program : Command where
  options :=
    [{ name := "from", letter := some 'f', kind := .value },
      { name := "to", letter := some 't', kind := .value },
      { name := "file", kind := .value },
      { name := "format", kind := .value },
      { name := "config", kind := .value },
      { name := "no-info", kind := .flag },
      { name := "verbose", letter := some 'v', kind := .flag },
      { name := "help", letter := some 'h', kind := .help },
      { name := "version", letter := some 'V', kind := .version }]
  operands := 1
  subcommands := ["dialects", "map-type", "help"]
  accepts := accepts

def helpOption : OptionSpec := { name := "help", letter := some 'h', kind := .help }

def dialectsCommand : Command where
  options := [helpOption]
  operands := 0
  accepts := accepts

def mapTypeCommand : Command where
  options := [{ name := "from", kind := .value }, { name := "to", kind := .value }, helpOption]
  operands := 1
  accepts := accepts

/-- The value of an option, or else that of its variable, which has to be acceptable too. -/
def valueOr (arguments : Arguments) (environment : String → Option String)
    (option name : String) : Except Stop (Option String) :=
  match arguments.values.lookup option with
  | some value => .ok (some value)
  | none =>
    match environment name with
    | some value => if accepts option value then .ok (some value) else .error .usage
    | none => .ok none

def requestOf (arguments : Arguments) (environment : String → Option String) :
    Except Stop Request := do
  let source ← valueOr arguments environment "from" "SQLPORT_FROM"
  let target ← valueOr arguments environment "to" "SQLPORT_TO"
  let settings ← valueOr arguments environment "config" "SQLPORT_CONFIG"
  pure
    { sql := arguments.operands.head?
      file := arguments.values.lookup "file"
      source := source.bind dialect?
      target := target.bind dialect?
      format := ((arguments.values.lookup "format").bind Format.ofName?).getD .text
      settings
      hideInfo := arguments.flags.contains "no-info"
      verbose := arguments.flags.contains "verbose" }

/-- A type, and the dialects it is mapped between; all three are needed. -/
def mapTypeOf (arguments : Arguments) : Except Stop Invocation :=
  match arguments.operands, (arguments.values.lookup "from").bind dialect?,
      (arguments.values.lookup "to").bind dialect? with
  | [text], some source, some target => .ok (.mapType text { source, target })
  | _, _, _ => .error .usage

def invocationOf (arguments : Arguments) (environment : String → Option String) :
    Except Stop Invocation := do
  match arguments.subcommand with
  | none => return .convert (← requestOf arguments environment)
  | some ("dialects", rest) =>
    let _ ← Arguments.ofList dialectsCommand rest
    let _ ← requestOf arguments environment
    return .dialects
  | some ("map-type", rest) =>
    let invocation ← mapTypeOf (← Arguments.ofList mapTypeCommand rest)
    let _ ← requestOf arguments environment
    return invocation
  | some _ => return .help

/-- What the program is asked to do; `none` if the arguments make no sense. -/
def Invocation.ofArguments? (arguments : List String) (environment : String → Option String) :
    Option Invocation :=
  match (Arguments.ofList program arguments).bind (invocationOf · environment) with
  | .ok invocation => some invocation
  | .error .version => some .version
  | .error .help => some .help
  | .error .usage => none

end SqlDialects.CommandLine
