import SqlDialects.Text.Blank
import SqlDialects.Text.Basic
import SqlDialects.Reader.Nesting

/-
Cutting a script into statements at the semicolons outside quotes and comments. Comments are left
out: a line comment up to its line feed, which stays, and a block comment for a blank.
-/
namespace SqlDialects

inductive ScriptScan where
  | code
  | quoted (quote : Char)
  | lineComment
  /-- Whether the comment's last character was an asterisk. -/
  | blockComment (star : Bool)
  deriving DecidableEq, Repr

namespace ScriptScan

def pieces : ScriptScan → List Char → List (List Char)
  | _, [] => [[]]
  | .quoted q, c :: rest => Text.prepend c (pieces (if c = q then .code else .quoted q) rest)
  | .lineComment, c :: rest =>
    if c = '\n' then Text.prepend c (pieces .code rest) else pieces .lineComment rest
  | .blockComment star, c :: rest =>
    if star && c = '/' then pieces .code rest else pieces (.blockComment (c = '*')) rest
  | .code, '-' :: '-' :: rest => pieces .lineComment rest
  | .code, '/' :: '*' :: rest => Text.prepend ' ' (pieces (.blockComment false) rest)
  | .code, c :: rest =>
    if Nesting.isQuote c then Text.prepend c (pieces (.quoted c) rest)
    else if c = ';' then [] :: pieces .code rest
    else Text.prepend c (pieces .code rest)

end ScriptScan

/-- The statements of a script, without surrounding blanks and without empty ones. -/
def splitStatements (script : String) : List String :=
  (((ScriptScan.code.pieces script.toList).map Text.trim).filter (!·.isEmpty)).map String.ofList

end SqlDialects
