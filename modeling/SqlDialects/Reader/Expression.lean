import SqlDialects.Reader.Lexeme
import SqlDialects.Sql.Expr

/-
Reading expressions. From loosest to tightest: `OR`, `AND`, `NOT`, comparisons, sums, products,
signs, operands. Comparisons do not chain; the other operators group from the left.

Each level takes the reader for the expressions that stand inside parentheses, argument lists and
value lists, so that only nesting recurs.
-/
namespace SqlDialects.Reader

def number : Reader Expr := do
  let whole ← digits
  let fraction ← option (do
    exactly "."
    fun s => .ok (s.takeWhile Char.isDigit, s.dropWhile Char.isDigit))
  pure (.number (String.ofList (match fraction with
    | some ds => whole ++ '.' :: ds
    | none => whole)))

/-- A bind parameter: `?`, `:name` or `$1`. -/
def parameter : Reader Expr :=
  (do exactly "?"; pure (.parameter "?"))
    <|> (do exactly ":"; let name ← bareWord; pure (.parameter (":" ++ name)))
    <|> (do exactly "$"; let ds ← digits; pure (.parameter ("$" ++ String.ofList ds)))

/-- An operator written with one of the given symbols, tried in order. -/
def operatorOf : List (String × BinaryOp) → Reader BinaryOp
  | [] => stop
  | (text, op) :: rest => (do exactly text; pure op) <|> operatorOf rest

def comparisonOperator : Reader BinaryOp := do
  gaps
  operatorOf [("<>", .ne), ("!=", .ne), ("<=", .le), (">=", .ge), ("=", .eq), ("<", .lt),
    (">", .gt)]

def additiveOperator : Reader BinaryOp := do
  gaps
  operatorOf [("||", .concat), ("+", .plus), ("-", .minus)]

def multiplicativeOperator : Reader BinaryOp := do
  gaps
  operatorOf [("*", .times), ("/", .divide), ("%", .modulo)]

section Levels

variable (nested : Reader Expr)

def callArguments (name : String) : Reader Expr :=
  whenRead (symbol ")") (fun _ => pure (.call name [] false false)) <|
  whenRead (do symbol "*"; symbol ")") (fun _ => pure (.call name [.star none] false false)) <| do
    let distinct ← present (keyword "DISTINCT")
    let args ← separatedBy (symbol ",") nested
    symbol ")"
    pure (.call name args distinct false)

/-- A column, `t.*`, a call, or a function that is written without parentheses. -/
def pathExpr : Reader Expr := do
  let parts ← quotedPath
  let name := ".".intercalate parts
  whenRead (exactly ".*") (fun _ => pure (.star (some name))) <|
    whenRead (symbol "(") (fun _ => callArguments nested name) <|
    if parts.length == 1 && isNiladic name then pure (.call name [] false true)
    else pure (.column name)

def primary : Reader Expr := do
  gaps
  (do exactly "("; let inner ← nested; symbol ")"; pure (.group inner))
    <|> (do let value ← quoted '\x27'; pure (.string value))
    <|> number
    <|> parameter
    <|> (do keyword "NULL"; pure .null)
    <|> (do exactly "*"; pure (.star none))
    <|> pathExpr nested

def unary : Reader Expr := marked (symbol "-") .negate (primary nested)

def multiplicative : Reader Expr := chain .binary (unary nested) multiplicativeOperator

def additive : Reader Expr := chain .binary (multiplicative nested) additiveOperator

def nullTest (subject : Expr) : Reader Expr := do
  let negated ← present (keyword "NOT")
  keyword "NULL"
  pure (.isNull subject negated)

def valueList (subject : Expr) (negated : Bool) : Reader Expr := do
  symbol "("
  let values ← separatedBy (symbol ",") nested
  symbol ")"
  pure (.inList subject values negated)

def compared (left : Expr) (op : BinaryOp) : Reader Expr := do
  let right ← additive nested
  pure (.binary left op right)

/-- What may follow the first operand of a comparison. Reading stops in front of a `NOT` that neither
`IN` nor `LIKE` follows. -/
def comparisonRest (left : Expr) : Reader Expr := fun s =>
  whenRead (keyword "IS") (fun _ => nullTest left)
    (whenRead (keyword "NOT") (fun _ =>
        whenRead (keyword "IN") (fun _ => valueList nested left true) <|
        whenRead (keyword "LIKE") (fun _ => compared nested left .notLike) (stopAt s)) <|
      whenRead (keyword "IN") (fun _ => valueList nested left false) <|
      whenRead (keyword "LIKE") (fun _ => compared nested left .like) <|
      whenRead (keyword "ILIKE") (fun _ => compared nested left .ilike) <|
      whenRead comparisonOperator (compared nested left) (pure left)) s

def comparison : Reader Expr := do
  let left ← additive nested
  comparisonRest nested left

def notExpr : Reader Expr := marked (keyword "NOT") .not (comparison nested)

def andExpr : Reader Expr :=
  chain .binary (notExpr nested) (do keyword "AND"; pure .and)

def orExpr : Reader Expr :=
  chain .binary (andExpr nested) (do keyword "OR"; pure .or)

end Levels

def exprWithin : Nat → Reader Expr
  | 0 => stop
  | depth + 1 => orExpr (exprWithin depth)

/-- An expression. Each level of nesting reads a parenthesis, so a text nests less deep than it has
characters. -/
def expr : Reader Expr := fun s => exprWithin (s.length + 1) s

end SqlDialects.Reader
