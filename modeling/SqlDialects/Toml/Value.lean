/-
Values of a TOML document, and how its headers and keys build up tables.
-/
namespace SqlDialects.Toml

inductive Value where
  | string (text : String)
  | integer (value : Int)
  /-- A floating point number, as written. -/
  | float (text : String)
  | boolean (value : Bool)
  /-- A date, a time or both, as written. -/
  | dateTime (text : String)
  | array (items : List Value)
  | table (entries : List (String × Value))

/-- How a table came to be, which decides what may be added to it later. -/
inductive Origin where
  /-- It has a header of its own, or is the document itself. -/
  | header
  /-- It lies on the way to a table with a header. -/
  | path
  /-- It lies on the way of a dotted key. -/
  | dotted
  deriving DecidableEq, Repr

inductive Item where
  | value (value : Value)
  | table (origin : Origin) (entries : List (String × Item))
  /-- An array of tables, each with a header. -/
  | tables (elements : List (List (String × Item)))

abbrev Entries := List (String × Item)

mutual

def Item.toValue : Item → Value
  | .value written => written
  | .table _ entries => .table (Item.entriesToValues entries)
  | .tables elements => .array (Item.elementsToValues elements)

def Item.entriesToValues : List (String × Item) → List (String × Value)
  | [] => []
  | (key, item) :: rest => (key, item.toValue) :: Item.entriesToValues rest

def Item.elementsToValues : List (List (String × Item)) → List Value
  | [] => []
  | entries :: rest => .table (Item.entriesToValues entries) :: Item.elementsToValues rest

end

namespace Entries

def replace (key : String) (item : Item) (entries : Entries) : Entries :=
  entries.map fun entry => if entry.1 == key then (key, item) else entry

/-- Changes the table at the end of a path, with the tables on the way created where they are
missing. Of an array of tables the last one is meant. A dotted key cannot enter a table that has a
header of its own. -/
def descend (dotted : Bool) (change : Origin → Entries → Option Entries) :
    List String → Origin → Entries → Option Entries
  | [], origin, entries => change origin entries
  | key :: path, _, entries =>
    match entries.lookup key with
    | none => do
      let origin : Origin := if dotted then .dotted else .path
      let inner ← descend dotted change path origin []
      pure (entries ++ [(key, .table origin inner)])
    | some (.value _) => none
    | some (.tables elements) => do
      let last ← elements.getLast?
      let inner ← descend dotted change path .header last
      pure (entries.replace key (.tables (elements.dropLast ++ [inner])))
    | some (.table origin inner) =>
      if dotted && origin = .header then none
      else do
        let inner ← descend dotted change path origin inner
        pure (entries.replace key (.table origin inner))

def add (key : String) (item : Item) (entries : Entries) : Option Entries :=
  if (entries.lookup key).isSome then none else some (entries ++ [(key, item)])

/-- Adds a value under a key, which may be dotted. The last part of a dotted key goes to a table
made by dotted keys. -/
def addValue (path : List String) (key : String) (value : Value) (entries : Entries) :
    Option Entries :=
  entries.descend true (fun origin inner =>
    if path.isEmpty || origin = .dotted then inner.add key (.value value) else none) path .header

/-- Opens the table of a header. A table on the way to another header may still get its own. -/
def openTable (path : List String) (key : String) (entries : Entries) : Option Entries :=
  entries.descend false (fun _ inner =>
    match inner.lookup key with
    | none => some (inner ++ [(key, .table .header [])])
    | some (.table .path content) => some (inner.replace key (.table .header content))
    | some _ => none) path .header

def openElement (path : List String) (key : String) (entries : Entries) : Option Entries :=
  entries.descend false (fun _ inner =>
    match inner.lookup key with
    | none => some (inner ++ [(key, .tables [[]])])
    | some (.tables elements) => some (inner.replace key (.tables (elements ++ [[]])))
    | some _ => none) path .header

end Entries

/-- One line of a document. A key is the path to its table and its last part. -/
inductive Line where
  | blank
  | pair (path : List String) (key : String) (value : Value)
  | header (path : List String) (key : String)
  | elementHeader (path : List String) (key : String)

/-- A document while it is read: its entries, and the table to which the next keys belong. -/
structure Document where
  entries : Entries := []
  current : List String := []

/-- Takes one more line. Fails where a key or a table is defined twice. -/
def Document.add (document : Document) : Line → Option Document
  | .blank => some document
  | .pair path key value => do
    let entries ← document.entries.descend false
      (fun _ inner => Entries.addValue path key value inner) document.current .header
    pure { document with entries }
  | .header path key => do
    let entries ← document.entries.openTable path key
    pure { entries, current := path ++ [key] }
  | .elementHeader path key => do
    let entries ← document.entries.openElement path key
    pure { entries, current := path ++ [key] }

def tableOfPairs (pairs : List (List String × String × Value)) : Option Value := do
  let entries ← pairs.foldlM (fun entries (path, key, value) =>
    Entries.addValue path key value entries) ([] : Entries)
  pure (Item.table .header entries).toValue

end SqlDialects.Toml
