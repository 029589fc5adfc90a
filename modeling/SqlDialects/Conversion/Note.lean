/-
What a conversion has to say besides the converted text: rules that it applied, things that it kept
on purpose, and warnings. The options decide which of these a caller gets to see.
-/
namespace SqlDialects

inductive WarningKind where
  /-- The target writes the same thing differently. -/
  | syntaxDifference
  /-- The target has no such function. -/
  | unsupportedFunction
  /-- The target does almost the same. -/
  | partialSupport
  /-- The construct is left out or left as it is. -/
  | unsupportedConstruct
  deriving DecidableEq, Repr

def WarningKind.name : WarningKind → String
  | .syntaxDifference => "SYNTAX_DIFFERENCE"
  | .unsupportedFunction => "UNSUPPORTED_FUNCTION"
  | .partialSupport => "PARTIAL_SUPPORT"
  | .unsupportedConstruct => "UNSUPPORTED_CONSTRUCT"

inductive Severity where
  | info | warning | error
  deriving DecidableEq, Repr

namespace Severity

def name : Severity → String
  | .info => "INFO"
  | .warning => "WARNING"
  | .error => "ERROR"

def rank : Severity → Nat
  | .info => 0
  | .warning => 1
  | .error => 2

def max (a b : Severity) : Severity := if a.rank < b.rank then b else a

end Severity

structure Warning where
  kind : WarningKind
  severity : Severity
  message : String
  suggestion : Option String := none
  deriving DecidableEq, Repr

def Warning.toText (warning : Warning) : String :=
  "[" ++ warning.severity.name ++ "] " ++ warning.kind.name ++ ": " ++ warning.message
    ++ (match warning.suggestion with
      | some suggestion => " (suggestion: " ++ suggestion ++ ")"
      | none => "")

structure Options where
  /-- Show warnings of the lowest severity. -/
  includeInfo : Bool := true
  /-- List what was kept on purpose among the rules. -/
  recordUnchanged : Bool := true
  /-- The number of blanks before a line of a table definition. -/
  ddlIndent : Nat := 4
  deriving DecidableEq, Repr

inductive Note where
  /-- A rule that changed the text. -/
  | rule (label : String)
  /-- Something that was kept on purpose. -/
  | kept (label : String)
  | warn (warning : Warning)
  deriving DecidableEq, Repr

namespace Note

def warning? (options : Options) : Note → Option Warning
  | .warn warning =>
    if warning.severity = .info && !options.includeInfo then none else some warning
  | .rule _ | .kept _ => none

def label? (options : Options) : Note → Option String
  | .rule label => some label
  | .kept label => if options.recordUnchanged then some label else none
  | .warn _ => none

def warnings (options : Options) (notes : List Note) : List Warning :=
  notes.filterMap (warning? options)

def labels (options : Options) (notes : List Note) : List String := notes.filterMap (label? options)

end Note

structure Outcome where
  sql : String
  warnings : List Warning := []
  rules : List String := []
  deriving DecidableEq, Repr

namespace Outcome

def ofNotes (options : Options) (sql : String) (notes : List Note) : Outcome where
  sql := sql
  warnings := Note.warnings options notes
  rules := Note.labels options notes

def hasErrors (outcome : Outcome) : Bool := outcome.warnings.any fun w => w.severity == .error

def maxSeverity (outcome : Outcome) : Option Severity :=
  match outcome.warnings.map (·.severity) with
  | [] => none
  | first :: rest => some (rest.foldl Severity.max first)

end Outcome

end SqlDialects
