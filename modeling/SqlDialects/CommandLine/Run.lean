import SqlDialects.CommandLine.Invocation
import SqlDialects.CommandLine.Json
import SqlDialects.Conversion.Statement
import SqlDialects.Settings

/-
Running an invocation: what the program prints and its exit code.
-/
namespace SqlDialects.CommandLine

inductive FileFailure where
  | missing
  /-- A part of the path that should be a directory is a file. -/
  | notDirectory
  | directory
  | nameTooLong
  deriving DecidableEq, Repr

def FileFailure.message : FileFailure → String
  | .missing => "No such file or directory (os error 2)"
  | .notDirectory => "Not a directory (os error 20)"
  | .directory => "Is a directory (os error 21)"
  | .nameTooLong => "File name too long (os error 36)"

structure Surroundings where
  /-- The text of the file at a path. -/
  fileText : String → Except FileFailure String
  input : String
  /-- Where settings are looked for when no file is named. -/
  settingsPath : Option String

structure Printed where
  exit : Nat := 0
  output : String := ""
  errors : String := ""
  deriving DecidableEq, Repr

def printLines (lines : List String) : String := String.join (lines.map (· ++ "\n"))

def failed (message : String) : Printed := { exit := 1, errors := "Error: " ++ message ++ "\n" }

namespace Request

/-- The settings of the named file, which must be there, or of the usual one, which need not. -/
def loadSettings (request : Request) (surroundings : Surroundings) : Except String Settings :=
  let load (text : String) : Except String Settings :=
    (Settings.ofText text).mapError Failure.message
  match request.settings with
  | some path =>
    match surroundings.fileText path with
    | .ok text => load text
    | .error failure => .error (Failure.settings (path ++ ": " ++ failure.message)).message
  | none =>
    match surroundings.settingsPath.map surroundings.fileText with
    | some (.ok text) => load text
    | _ => .ok {}

/-- The SQL text: the operand, else the file, else the standard input. -/
def loadSql (request : Request) (surroundings : Surroundings) : Except String String :=
  match request.sql, request.file with
  | some sql, _ => .ok sql
  | none, some path =>
    match surroundings.fileText path with
    | .ok text => .ok text
    | .error failure => .error ("reading " ++ path ++ ": " ++ failure.message)
  | none, none => .ok surroundings.input

def required {α : Type} (value : Option α) (message : String) : Except String α :=
  match value with
  | some a => .ok a
  | none => .error message

/-- Converts the SQL text with the dialects of the request or else those of the settings. -/
def outcomes (request : Request) (surroundings : Surroundings) : Except String (List Outcome) := do
  let settings ← request.loadSettings surroundings
  let source ← required (request.source.or settings.source)
    "no source dialect: pass --from or set [defaults] source in the config file"
  let target ← required (request.target.or settings.target)
    "no target dialect: pass --to or set [defaults] target in the config file"
  let options :=
    if request.hideInfo then { settings.options with includeInfo := false } else settings.options
  let sql ← request.loadSql surroundings
  (convertScript { source, target } options sql).mapError Failure.message

end Request

def severityLabel : Severity → String
  | .error => "ERROR"
  | .warning => "WARN "
  | .info => "INFO "

def warningLines (warning : Warning) : List String :=
  ("  " ++ severityLabel warning.severity ++ " " ++ warning.kind.name ++ " " ++ warning.message)
    :: (match warning.suggestion with
      | some suggestion => ["        → " ++ suggestion]
      | none => [])

/-- What is said about one statement of a script, which is numbered if there are several. -/
def commentLines (verbose : Bool) (title : List String) (outcome : Outcome) : List String :=
  if outcome.warnings.isEmpty && !verbose then []
  else
    title ++ outcome.warnings.flatMap warningLines
      ++ (if verbose then outcome.rules.map ("  rule  " ++ ·) else [])

/-- Converted statements on the output, and what is to be said about them among the errors. -/
def textReport (verbose : Bool) (outcomes : List Outcome) : Printed :=
  let several := 1 < outcomes.length
  let title (i : Nat) : List String :=
    if several then ["-- statement " ++ toString (i + 1)] else []
  { output := printLines (outcomes.flatMap fun outcome =>
      outcome.sql :: (if several then [";"] else []))
    errors := printLines (outcomes.zipIdx.flatMap fun (outcome, i) =>
      commentLines verbose (title i) outcome) }

def warningJson (warning : Warning) : Json :=
  .object
    [("kind", .string warning.kind.name),
      ("message", .string warning.message),
      ("severity", .string warning.severity.name),
      ("suggestion", match warning.suggestion with
        | some suggestion => .string suggestion
        | none => .null)]

def outcomeJson (outcome : Outcome) : Json :=
  .object
    [("converted_sql", .string outcome.sql),
      ("warnings", .array (outcome.warnings.map warningJson)),
      ("applied_rules", .array (outcome.rules.map .string))]

def jsonReport (outcomes : List Outcome) : Printed :=
  { output := (Json.array (outcomes.map outcomeJson)).toText 0 ++ "\n" }

def column (width : Nat) (text : String) : String :=
  text ++ String.ofList (List.replicate (width - text.length) ' ')

def dialectRow (name quote rowLimit functions : String) : String :=
  column 12 name ++ " " ++ column 7 quote ++ " " ++ column 34 rowLimit ++ " " ++ functions

def rowLimitForm : RowLimit → String
  | .limit => "LIMIT n OFFSET m"
  | .fetchFirst => "OFFSET m ROWS FETCH FIRST n ROWS ONLY"

def dialectReport : Printed :=
  { output := printLines
      (["Supported dialects", "", dialectRow "Dialect" "Quote" "Pagination" "Native functions",
          String.ofList (List.replicate 72 '─')]
        ++ Dialect.all.map fun d =>
          dialectRow d.name d.quote.toString (rowLimitForm d.rowLimit)
            (toString d.functions.length)) }

/-- A type in the target dialect. A type that has no mapping is pointed out. -/
def typeReport (text : String) (pair : Pair) : Printed :=
  match DataType.ofText text with
  | .error failure => failed failure.message
  | .ok type =>
    let mapped := type.mapped pair
    { output := mapped.toSql ++ "\n"
      errors :=
        if mapped = type && !pair.isIdentity then "(no mapping for this type; passed through)\n"
        else "" }

def helpText : String := printLines
  ["Convert SQL between Tibero, Oracle, MySQL and PostgreSQL", "",
    "Usage: sqlport [OPTIONS] [SQL] [COMMAND]", "",
    "Commands:",
    "  dialects  List supported dialects",
    "  map-type  Map a column type between dialects", "",
    "Options:",
    "  -f, --from <FROM>      Source dialect",
    "  -t, --to <TO>          Target dialect",
    "      --file <FILE>      Read SQL from a file",
    "      --format <FORMAT>  Output format: text or json",
    "      --config <CONFIG>  Configuration file",
    "      --no-info          Hide INFO advisories",
    "  -v, --verbose          Show applied rules",
    "  -h, --help             Print help",
    "  -V, --version          Print version"]

def Invocation.run (surroundings : Surroundings) : Invocation → Printed
  | .version => { output := "sqlport 0.1.0\n" }
  | .help => { output := helpText }
  | .dialects => dialectReport
  | .mapType text pair => typeReport text pair
  | .convert request =>
    match request.outcomes surroundings with
    | .error message => failed message
    | .ok outcomes =>
      match request.format with
      | .json => jsonReport outcomes
      | .text => textReport request.verbose outcomes

def Invocation.paths (settingsPath : Option String) : Invocation → List String
  | .convert request => (request.settings.or settingsPath).toList ++ request.file.toList
  | .dialects | .mapType _ _ | .version | .help => []

def Invocation.readsInput : Invocation → Bool
  | .convert request => request.sql.isNone && request.file.isNone
  | .dialects | .mapType _ _ | .version | .help => false

/-- Runs the program; arguments that make no sense end it with exit code 2. -/
def run (arguments : List String) (environment : String → Option String)
    (surroundings : Surroundings) : Printed :=
  match Invocation.ofArguments? arguments environment with
  | some invocation => invocation.run surroundings
  | none => { exit := 2, errors := "usage: sqlport [OPTIONS] [SQL] [COMMAND]\n" }

end SqlDialects.CommandLine
