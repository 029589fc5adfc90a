import SqlDialects.Conversion.Names
import SqlDialects.Proofs.Canonical.WellFormed

/-
The names of a query that has been read: each is a dotted name, and a change of names that leaves
each of them as it is leaves the query as it is.
-/
namespace SqlDialects

open Reader

def IsName (name : String) : Prop := ∃ parts, IsPath parts ∧ name = ".".intercalate parts

theorem IsPath.isName {parts : List String} (path : IsPath parts) :
    IsName (".".intercalate parts) :=
  ⟨parts, path, rfl⟩

theorem IsPart.isName {name : String} (part : IsPart name) : IsName name := by
  refine ⟨[name], ⟨List.cons_ne_nil _ _, ?_⟩, (String.intercalate_singleton ..).symm⟩
  intro found member
  obtain rfl := List.mem_singleton.mp member
  exact part

theorem Expr.listNames_eq (es : List Expr) : Expr.listNames es = es.flatMap Expr.names := by
  induction es with
  | nil => rfl
  | cons e es ih => rw [Expr.listNames, ih, List.flatMap_cons]

theorem Expr.WellFormed.names {e : Expr} (wellFormed : e.WellFormed) :
    ∀ name ∈ e.names, IsName name := by
  induction wellFormed with
  | call path inside only ih =>
    intro name member
    rw [Expr.names, Expr.listNames_eq] at member
    obtain ⟨a, listed, found⟩ := List.mem_flatMap.mp member
    exact ih a listed name found
  | column path other =>
    intro name member
    obtain rfl := List.mem_singleton.mp member
    exact path.isName
  | qualified path =>
    intro name member
    obtain rfl := List.mem_singleton.mp member
    exact path.isName
  | group inside ih => exact ih
  | not inside tight ih => exact ih
  | negate inside tight ih => exact ih
  | binary first second loose tight ihl ihr =>
    intro name member
    exact (List.mem_append.mp member).elim (ihl name) (ihr name)
  | isNull inside tight ih => exact ih
  | inList inside tight nonempty each ih ihs =>
    intro name member
    rw [Expr.names, Expr.listNames_eq] at member
    rcases List.mem_append.mp member with found | member
    · exact ih name found
    · obtain ⟨v, listed, found⟩ := List.mem_flatMap.mp member
      exact ihs v listed name found
  | bare part niladic => exact fun name member => absurd member List.not_mem_nil
  | number spelled => exact fun name member => absurd member List.not_mem_nil
  | string value => exact fun name member => absurd member List.not_mem_nil
  | null => exact fun name member => absurd member List.not_mem_nil
  | star => exact fun name member => absurd member List.not_mem_nil
  | parameter spelled => exact fun name member => absurd member List.not_mem_nil

theorem TableRef.WellFormed.names {table : TableRef} (wellFormed : table.WellFormed) :
    ∀ name ∈ table.names, IsName name := by
  intro name member
  rcases List.mem_cons.mp member with rfl | member
  · exact wellFormed.name
  · exact (wellFormed.alias? name (Option.mem_toList.mp member)).isName

theorem Select.WellFormed.names {select : Select} (wellFormed : select.WellFormed) :
    ∀ name ∈ select.names, IsName name := by
  intro name member
  simp only [Select.names, List.mem_append, List.mem_flatMap, Option.mem_toList] at member
  rcases member with (((((⟨item, listed, found | found⟩ | ⟨table, listed, found⟩)
    | ⟨join, listed, found | ⟨condition, on, found⟩⟩) | ⟨condition, listed, found⟩)
    | ⟨e, listed, found⟩) | ⟨condition, listed, found⟩) | ⟨item, listed, found⟩
  · exact (wellFormed.items item listed).expr.names name found
  · exact ((wellFormed.items item listed).alias? name found).isName
  · exact (wellFormed.tables table listed).names name found
  · exact (wellFormed.joins join listed).table.names name found
  · exact ((wellFormed.joins join listed).on? condition on).names name found
  · exact (wellFormed.filter condition listed).names name found
  · exact (wellFormed.groupBy e listed).names name found
  · exact (wellFormed.having condition listed).names name found
  · exact (wellFormed.orderBy item listed).names name found

/-! Names that are left as they are. -/

mutual

theorem Expr.mapNames_fixed {f : String → String} (e : Expr) (fixed : ∀ name ∈ e.names, f name = name) :
    e.mapNames f = e := by
  cases e with
  | call name args distinct bare =>
    rw [Expr.mapNames, Expr.listMapNames_fixed args fixed]
  | binary left op right =>
    rw [Expr.mapNames,
      Expr.mapNames_fixed left fun name member => fixed name (List.mem_append_left _ member),
      Expr.mapNames_fixed right fun name member => fixed name (List.mem_append_right _ member)]
  | column name => exact congrArg Expr.column (fixed name List.mem_cons_self)
  | star qualifier =>
    cases qualifier with
    | none => rfl
    | some name => exact congrArg (Expr.star ∘ some) (fixed name List.mem_cons_self)
  | group inner => rw [Expr.mapNames, Expr.mapNames_fixed inner fixed]
  | not inner => rw [Expr.mapNames, Expr.mapNames_fixed inner fixed]
  | negate inner => rw [Expr.mapNames, Expr.mapNames_fixed inner fixed]
  | isNull subject negated => rw [Expr.mapNames, Expr.mapNames_fixed subject fixed]
  | inList subject values negated =>
    rw [Expr.mapNames,
      Expr.mapNames_fixed subject fun name member => fixed name (List.mem_append_left _ member),
      Expr.listMapNames_fixed values fun name member => fixed name (List.mem_append_right _ member)]
  | number text => rfl
  | string value => rfl
  | null => rfl
  | parameter text => rfl

theorem Expr.listMapNames_fixed {f : String → String} (es : List Expr)
    (fixed : ∀ name ∈ Expr.listNames es, f name = name) : Expr.listMapNames f es = es := by
  cases es with
  | nil => rfl
  | cons e es =>
    rw [Expr.listMapNames,
      Expr.mapNames_fixed e fun name member => fixed name (List.mem_append_left _ member),
      Expr.listMapNames_fixed es fun name member => fixed name (List.mem_append_right _ member)]

end

theorem alias_fixed {f : String → String} {alias? : Option String}
    (fixed : ∀ name ∈ alias?.toList, f name = name) : alias?.map f = alias? := by
  cases alias? with
  | none => rfl
  | some name => exact congrArg some (fixed name List.mem_cons_self)

theorem condition_fixed {f : String → String} {condition : Option Expr}
    (fixed : ∀ name ∈ condition.toList.flatMap Expr.names, f name = name) :
    condition.map (Expr.mapNames f) = condition := by
  cases condition with
  | none => rfl
  | some e =>
    exact congrArg some (Expr.mapNames_fixed e fun name member => fixed name (by simpa using member))

theorem TableRef.mapNames_fixed {f : String → String} {table : TableRef}
    (fixed : ∀ name ∈ table.names, f name = name) : table.mapNames f = table := by
  rw [TableRef.mapNames, fixed table.name List.mem_cons_self,
    alias_fixed fun name member => fixed name (List.mem_cons_of_mem _ member)]

theorem map_fixed {α : Type} {f : α → α} {as : List α} (fixed : ∀ a ∈ as, f a = a) :
    as.map f = as :=
  (List.map_congr_left fixed).trans (List.map_id _)

theorem Select.mapNames_fixed {f : String → String} {select : Select}
    (fixed : ∀ name ∈ select.names, f name = name) : select.mapNames f = select := by
  simp only [Select.names, List.mem_append, or_imp, forall_and] at fixed
  obtain ⟨⟨⟨⟨⟨⟨items, tables⟩, joins⟩, filter⟩, groups⟩, having⟩, orders⟩ := fixed
  have inside : ∀ {α : Type} {names : α → List String} {as : List α},
      (∀ name ∈ as.flatMap names, f name = name) → ∀ a ∈ as, ∀ name ∈ names a, f name = name :=
    fun each a listed name member => each name (List.mem_flatMap.mpr ⟨a, listed, member⟩)
  have itemsFixed : select.items.map (fun item =>
      { expr := item.expr.mapNames f, alias? := item.alias?.map f }) = select.items := by
    refine map_fixed fun item listed => ?_
    have own := inside items item listed
    rw [Expr.mapNames_fixed item.expr fun name member => own name (List.mem_append_left _ member),
      alias_fixed fun name member => own name (List.mem_append_right _ member)]
  have tablesFixed : select.tables.map (TableRef.mapNames f) = select.tables :=
    map_fixed fun table listed => TableRef.mapNames_fixed (inside tables table listed)
  have joinsFixed : select.joins.map (fun join =>
      { join with table := join.table.mapNames f, on? := join.on?.map (Expr.mapNames f) })
      = select.joins := by
    refine map_fixed fun join listed => ?_
    have own := inside joins join listed
    rw [TableRef.mapNames_fixed fun name member => own name (List.mem_append_left _ member),
      condition_fixed fun name member => own name (List.mem_append_right _ member)]
  have groupsFixed : select.groupBy.map (Expr.mapNames f) = select.groupBy :=
    map_fixed fun e listed => Expr.mapNames_fixed e (inside groups e listed)
  have ordersFixed : select.orderBy.map (fun item => { item with expr := item.expr.mapNames f })
      = select.orderBy := by
    refine map_fixed fun item listed => ?_
    rw [Expr.mapNames_fixed item.expr (inside orders item listed)]
  rw [Select.mapNames, itemsFixed, tablesFixed, joinsFixed, condition_fixed filter, groupsFixed,
    condition_fixed having, ordersFixed]

theorem Select.mapNames_id (select : Select) : select.mapNames id = select :=
  Select.mapNames_fixed fun _ _ => rfl

end SqlDialects
