import SqlDialects.Conversion.Note
import SqlDialects.Dialect
import SqlDialects.Sql.Select

/-
Putting the clause that limits the rows in the target's form.
-/
namespace SqlDialects

def offsetWithoutLimit : Warning where
  kind := .syntaxDifference
  severity := .warning
  message := "MySQL does not accept OFFSET without LIMIT"
  suggestion := some "LIMIT 18446744073709551615 OFFSET m"

namespace Page

/-- There is no clause to convert; the query may number its rows instead. -/
def noFetchClause (target : Dialect) : Warning where
  kind := .syntaxDifference
  severity := .warning
  message := "no FETCH FIRST clause; ROWNUM pagination in the WHERE clause is not rewritten for "
    ++ target.name
  suggestion := some "rewrite manually as LIMIT n OFFSET m"

def adaptLoneOffset (target : Dialect) (page : Page) (offset : UInt64) : Page × List Note :=
  let rows := target.rowLimit == .fetchFirst
  let bare := "OFFSET " ++ countSql offset
  let spelling :=
    if page.offsetRows == rows then []
    else if rows then [.rule (bare ++ " → " ++ bare ++ " ROWS")]
    else [.rule (bare ++ " ROWS → " ++ bare)]
  ({ page with offsetRows := rows },
    spelling ++ (if target = .mysql then [.warn offsetWithoutLimit] else []))

def adaptCount (target : Dialect) (page : Page) : Page × List Note :=
  match target.rowLimit with
  | .limit =>
    match page.fetch with
    | some n =>
      ({ page with limit := some n, fetch := none },
        [.rule ("FETCH FIRST " ++ countSql n ++ " ROWS ONLY → LIMIT " ++ countSql n)])
    | none => (page, [])
  | .fetchFirst =>
    match page.limit with
    | some n =>
      ({ page with limit := none, fetch := some n },
        [.rule ("LIMIT " ++ countSql n ++ " → FETCH FIRST " ++ countSql n ++ " ROWS ONLY")])
    | none => (page, [])

def adapted (pair : Pair) (page : Page) : Page × List Note :=
  if pair.source.rowLimit = pair.target.rowLimit then
    (page, [.kept "pagination syntax unchanged"])
  else if page.fetch.isNone && page.limit.isNone then
    match page.offset with
    | some offset =>
      let (page, notes) := page.adaptLoneOffset pair.target offset
      (page, .warn (noFetchClause pair.target) :: notes)
    | none => (page, [.warn (noFetchClause pair.target)])
  else
    let (page, notes) := page.adaptCount pair.target
    (page, notes ++ (match page.offset with
      | some offset => [.kept ("OFFSET " ++ countSql offset ++ " kept")]
      | none => []))

end Page

end SqlDialects
