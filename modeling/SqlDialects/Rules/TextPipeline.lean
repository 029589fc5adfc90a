import SqlDialects.Rules.FunctionTable
import SqlDialects.Rules.TextRule
import SqlDialects.Sql.Expr
import SqlDialects.Text.Requote

/-
The text rules for queries of MySQL and PostgreSQL: functions are renamed, the row limit is put in
the target's form, quoted names get the target's quotes, and PostgreSQL's `ILIKE` becomes `LIKE`
in MySQL.
-/
namespace SqlDialects.TextRule

open Pattern (anyCase sequence plus optional)

def blanks : Pattern := .star .blank

def gap : Pattern := plus .blank

def number (part : Nat) : Pattern := .group part (plus .digit)

/-- Renames calls. A name that is written without parentheses only takes the place of a call
without arguments. -/
def renameRule (source target : String) : TextRule where
  label := source ++ " → " ++ target
  action :=
    if isNiladic target then
      .replace (sequence [.boundary, anyCase source, blanks, .char '(', blanks, .char ')'])
        target.toList
    else .replace (sequence [.boundary, anyCase source, blanks, .char '(']) (target.toList ++ ['('])

def renames (pair : Pair) : List TextRule :=
  (FunctionMapping.table pair).filterMap fun mapping =>
    mapping.action.target?.map (renameRule mapping.source)

def limitComma : Pattern :=
  sequence [.boundary, anyCase "LIMIT", gap, number 1, blanks, .char ',', blanks, number 2]

def limitOffset : Pattern :=
  sequence [.boundary, anyCase "LIMIT", gap, number 1, gap, anyCase "OFFSET", gap, number 2]

def limitAlone : Pattern := sequence [.boundary, anyCase "LIMIT", gap, number 1]

def rowOrRows : Pattern := sequence [anyCase "ROW", optional (.letter 'S')]

/-- `OFFSET m ROWS FETCH FIRST n ROWS ONLY`, where the offset may be missing. -/
def fetchFirst : Pattern :=
  sequence
    [optional (sequence [.boundary, anyCase "OFFSET", gap, number 1, gap, rowOrRows, gap]),
      .boundary, anyCase "FETCH", gap, .either (anyCase "FIRST") (anyCase "NEXT"), gap, number 2,
      gap, rowOrRows, gap, anyCase "ONLY"]

def limitText (count offset : List Char) : List Char :=
  "LIMIT ".toList ++ count ++ " OFFSET ".toList ++ offset

def fetchText (count : List Char) : List Char :=
  "FETCH FIRST ".toList ++ count ++ " ROWS ONLY".toList

def offsetFetchText (offset count : List Char) : List Char :=
  "OFFSET ".toList ++ offset ++ " ROWS ".toList ++ fetchText count

def fetchAsLimit (found : Pattern.Match) : List Char :=
  match found.group? 1 with
  | some offset => limitText (found.group 2) offset
  | none => "LIMIT ".toList ++ found.group 2

def limitCommaRule : RowLimit → TextRule
  | .limit =>
    { label := "LIMIT m, n → LIMIT n OFFSET m"
      action := .compose limitComma fun found => limitText (found.group 2) (found.group 1) }
  | .fetchFirst =>
    { label := "LIMIT m, n → OFFSET m ROWS FETCH FIRST n ROWS ONLY"
      action := .compose limitComma fun found => offsetFetchText (found.group 1) (found.group 2) }

def limitOffsetRule : TextRule where
  label := "LIMIT n OFFSET m → OFFSET m ROWS FETCH FIRST n ROWS ONLY"
  action := .compose limitOffset fun found => offsetFetchText (found.group 2) (found.group 1)

def limitAloneRule : TextRule where
  label := "LIMIT n → FETCH FIRST n ROWS ONLY"
  action := .compose limitAlone fun found => fetchText (found.group 1)

def fetchFirstRule : TextRule where
  label := "FETCH FIRST n ROWS ONLY → LIMIT n"
  action := .compose fetchFirst fetchAsLimit

def rowLimits (pair : Pair) : List TextRule :=
  (if pair.source = .mysql then [limitCommaRule pair.target.rowLimit] else [])
    ++ (match pair.source.rowLimit, pair.target.rowLimit with
      | .limit, .fetchFirst => [limitOffsetRule, limitAloneRule]
      | _, .limit => if pair.target = .mysql then [fetchFirstRule] else []
      | _, _ => [])

def requoting (source target : Char) (s : List Char) : List Char × List String :=
  let (changed, count) := Text.requote source target s
  (changed, if count = 0 then [] else [toString count ++ " quoted identifier(s) requoted"])

def quotes (pair : Pair) : List TextRule :=
  let source := pair.source.quote
  let target := pair.target.quote
  if source = target then []
  else
    [{ label := Text.enclosed source "identifier" ++ " → " ++ Text.enclosed target "identifier"
       action := .transform (requoting source target) }]

def operators (pair : Pair) : List TextRule :=
  if pair.source = .postgresql ∧ pair.target = .mysql then
    [{ label := "ILIKE → LIKE"
       action := .replace (sequence [.boundary, anyCase "ILIKE", .boundary]) "LIKE".toList }]
  else []

def pipeline (pair : Pair) : List TextRule :=
  if pair.isIdentity || !(pair.source == .mysql || pair.source == .postgresql) then []
  else renames pair ++ rowLimits pair ++ quotes pair ++ operators pair

end SqlDialects.TextRule
