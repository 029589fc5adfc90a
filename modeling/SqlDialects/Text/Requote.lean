import SqlDialects.Text.Basic

/-
Changing the quote character of quoted identifiers in SQL text. String literals between
apostrophes are copied. A doubled quote inside a name stands for one quote character.
-/
namespace SqlDialects.Text

/-- Where in a text the scan stands: in code, in a string literal, or in a quoted name of which
the given characters have been read. -/
inductive QuoteScan where
  | code
  | literal
  | name (read : List Char)
  deriving DecidableEq, Repr

/-- Requotes from a scanning position on. A name that is never closed is left with its opening
quote and the characters read. -/
def requoteFrom (source target : Char) : QuoteScan → List Char → List Char × Nat
  | .code, [] => ([], 0)
  | .literal, [] => ([], 0)
  | .name read, [] => (source :: read, 0)
  | .literal, c :: rest =>
    let next := requoteFrom source target (if c = '\x27' then .code else .literal) rest
    (c :: next.1, next.2)
  | .code, c :: rest =>
    if c = '\x27' then
      let next := requoteFrom source target .literal rest
      (c :: next.1, next.2)
    else if c = source then requoteFrom source target (.name []) rest
    else
      let next := requoteFrom source target .code rest
      (c :: next.1, next.2)
  | .name read, c :: rest =>
    if c = source then
      match rest with
      | [] => (enclose target read, 1)
      | d :: more =>
        if d = source then requoteFrom source target (.name (read ++ [source])) more
        else
          let next := requoteFrom source target .code (d :: more)
          (enclose target read ++ next.1, next.2 + 1)
    else requoteFrom source target (.name (read ++ [c])) rest

/-- Writes every name quoted with `source` as one quoted with `target`, and counts them. -/
def requote (source target : Char) (s : List Char) : List Char × Nat :=
  requoteFrom source target .code s

end SqlDialects.Text
