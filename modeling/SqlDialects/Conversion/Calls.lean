import SqlDialects.Conversion.Note
import SqlDialects.Rules.FunctionTable
import SqlDialects.Sql.Select

/-
Function calls in a query. Calls are looked for in the select list and the filter, inside the
arguments of calls and the operands of binary operators; other expressions are not entered.
-/
namespace SqlDialects

mutual

/-- The expressions that the search for calls comes to, in order: each call before its arguments,
and each expression that is not entered. -/
def Expr.visited : Expr → List Expr
  | .call name args distinct bare => .call name args distinct bare :: Expr.listVisited args
  | .binary left _ right => left.visited ++ right.visited
  | .column name => [.column name]
  | .number text => [.number text]
  | .string value => [.string value]
  | .null => [.null]
  | .star qualifier => [.star qualifier]
  | .parameter text => [.parameter text]
  | .group inner => [.group inner]
  | .not inner => [.not inner]
  | .negate inner => [.negate inner]
  | .isNull subject negated => [.isNull subject negated]
  | .inList subject values negated => [.inList subject values negated]

def Expr.listVisited : List Expr → List Expr
  | [] => []
  | e :: rest => e.visited ++ Expr.listVisited rest

end

def Select.visited (select : Select) : List Expr :=
  select.items.flatMap (fun item => item.expr.visited)
    ++ (match select.filter with
      | some condition => condition.visited
      | none => [])

/-- Whether a name that is written without parentheses would have to take arguments. -/
def losesArguments (target : String) (args : List Expr) : Bool := isNiladic target && !args.isEmpty

def Call.adapted (pair : Pair) (call : Call) : Call :=
  match (FunctionMapping.lookup? pair call.name).bind (·.action.target?) with
  | some target => if losesArguments target call.args then call else call.rename target
  | none => call

mutual

def Expr.adaptCalls (pair : Pair) : Expr → Expr
  | .call name args distinct bare =>
    let call := Call.adapted pair { name, args, distinct, bare }
    .call call.name (Expr.listAdaptCalls pair args) call.distinct call.bare
  | .binary left op right => .binary (left.adaptCalls pair) op (right.adaptCalls pair)
  | e => e

def Expr.listAdaptCalls (pair : Pair) : List Expr → List Expr
  | [] => []
  | e :: rest => e.adaptCalls pair :: Expr.listAdaptCalls pair rest

end

def Select.adaptCalls (pair : Pair) (select : Select) : Select :=
  { select with
    items := select.items.map fun item => { item with expr := item.expr.adaptCalls pair }
    filter := select.filter.map (Expr.adaptCalls pair) }

def manualNotes (pair : Pair) (function message suggestion : String) : List Note :=
  [.warn
      { kind := .unsupportedFunction, severity := .error, message, suggestion := some suggestion },
    .rule (function ++ ": manual conversion required for " ++ pair.target.name)]

/-- The notes on one call. Renames are recorded only where the tree is changed. -/
def callNotes (pair : Pair) (renames : Bool) (name : String) (args : List Expr) : List Note :=
  let function := Text.upper name
  let target := pair.target.name
  let argumentNotes (renamed : String) : List Note :=
    manualNotes pair function
      (function ++ " with arguments has no " ++ target ++ " equivalent; " ++ renamed
        ++ " takes none")
      ("drop the arguments and use " ++ renamed)
  match (FunctionMapping.lookup? pair name).map FunctionMapping.action with
  | none => []
  | some (.rename renamed) =>
    if losesArguments renamed args then argumentNotes renamed
    else if renames then [.rule (function ++ " → " ++ renamed)]
    else []
  | some (.approximate renamed note) =>
    if losesArguments renamed args then argumentNotes renamed
    else
      (if renames then [.rule (function ++ " → " ++ renamed ++ " (approximate)")] else [])
        ++ [.warn
          { kind := .partialSupport
            severity := .info
            message := function ++ " mapped to " ++ renamed ++ ": " ++ note }]
  | some (.unsupported suggestion) =>
    manualNotes pair function (function ++ " has no direct " ++ target ++ " equivalent") suggestion
  | some .native => [.kept (function ++ " is native in " ++ target)]

def Select.callNotes (pair : Pair) (renames : Bool) (select : Select) : List Note :=
  select.visited.flatMap fun
    | .call name args _ _ => SqlDialects.callNotes pair renames name args
    | _ => []

end SqlDialects
