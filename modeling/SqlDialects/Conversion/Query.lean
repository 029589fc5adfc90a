import SqlDialects.Conversion.Advice
import SqlDialects.Conversion.Names
import SqlDialects.Conversion.RowLimit
import SqlDialects.Rules.TextPipeline

/-
Converting queries. Queries of Tibero and Oracle are changed as trees and written anew; queries of
MySQL and PostgreSQL are changed as text, and their tree only serves for warnings.
-/
namespace SqlDialects.Select

def adapted (pair : Pair) (select : Select) : Select × List Note :=
  let (page, pageNotes) := select.page.adapted pair
  let paged := { select with page }
  let (requoted, nameNotes) := (paged.adaptCalls pair).requoted pair.target
  (requoted,
    pageNotes ++ paged.callNotes pair true ++ nameNotes ++ quoteNotes pair
      ++ requoted.rownumNotes pair ++ requoted.partialNotes pair)

def convertTree (pair : Pair) (select : Select) : String × List Note :=
  let (changed, notes) := select.adapted pair
  (changed.toSql, notes)

def offsetNotes (target : Dialect) (select : Select) : List Note :=
  if target = .mysql && select.page.offset.isSome && select.page.limit.isNone
      && select.page.fetch.isNone then
    [.warn offsetWithoutLimit]
  else []

def sourceNotes (pair : Pair) (select : Select) : List Note :=
  match pair.source with
  | .mysql => select.orNotes pair.target
  | .postgresql => select.ilikeNotes pair.target
  | .tibero | .oracle => []

def convertText (pair : Pair) (sql : String) (select : Select) : String × List Note :=
  let (changed, entries) := TextRule.applyAll (TextRule.pipeline pair) sql.toList
  (String.ofList changed,
    entries.map .rule ++ select.callNotes pair false ++ select.offsetNotes pair.target
      ++ select.partialNotes pair ++ select.sourceNotes pair)

def convert (pair : Pair) (sql : String) (select : Select) : String × List Note :=
  match pair.source with
  | .tibero | .oracle => select.convertTree pair
  | .mysql | .postgresql => select.convertText pair sql

end SqlDialects.Select
