import SqlDialects.Proofs.Canonical.RoundTrip

/-
How operators group. At every node of a query that has been read, the operands bind as tight as their
places ask: whatever binds looser stands in parentheses, in an argument list or in a value list.
-/
namespace SqlDialects

open Reader

/-- The operands of a node bind as tight as their places ask. Comparisons do not chain, and the other
binary operators group from the left. -/
def Expr.OperandsFit : Expr → Prop
  | .binary left op right =>
    if op.level = 4 then 5 ≤ left.level ∧ 5 ≤ right.level
    else op.level ≤ left.level ∧ op.level < right.level
  | .isNull subject _ => 5 ≤ subject.level
  | .inList subject _ _ => 5 ≤ subject.level
  | .not inner => 3 ≤ inner.level
  | .negate inner => 7 ≤ inner.level
  | _ => True

theorem Expr.WellFormed.operandsFit {e : Expr} (wellFormed : e.WellFormed) : e.OperandsFit := by
  cases wellFormed with
  | not inside tight => exact tight
  | negate inside tight => exact tight
  | isNull inside tight => exact tight
  | inList inside tight nonempty each => exact tight
  | @binary left right op first second loose tight =>
    rw [BinaryOp.leftLevel] at loose
    rw [Expr.OperandsFit]
    split at loose
    · next same =>
      rw [if_pos same]
      exact ⟨loose, by omega⟩
    · next other =>
      rw [if_neg other]
      exact ⟨loose, tight⟩
  | _ => trivial

theorem Expr.WellFormed.nodes {e : Expr} (wellFormed : e.WellFormed) :
    ∀ node ∈ e.nodes, node.WellFormed := by
  induction wellFormed with
  | @call parts args distinct path inside only ih =>
    intro node member
    rw [Expr.nodes, Expr.listNodes_eq] at member
    rcases List.mem_cons.mp member with rfl | below
    · exact .call path inside only
    · obtain ⟨a, listed, found⟩ := List.mem_flatMap.mp below
      exact ih a listed node found
  | group inside ih =>
    intro node member
    rcases List.mem_cons.mp member with rfl | below
    · exact .group inside
    · exact ih node below
  | not inside tight ih =>
    intro node member
    rcases List.mem_cons.mp member with rfl | below
    · exact .not inside tight
    · exact ih node below
  | negate inside tight ih =>
    intro node member
    rcases List.mem_cons.mp member with rfl | below
    · exact .negate inside tight
    · exact ih node below
  | binary first second loose tight ihl ihr =>
    intro node member
    rcases List.mem_cons.mp member with rfl | below
    · exact .binary first second loose tight
    · exact (List.mem_append.mp below).elim (ihl node) (ihr node)
  | isNull inside tight ih =>
    intro node member
    rcases List.mem_cons.mp member with rfl | below
    · exact .isNull inside tight
    · exact ih node below
  | inList inside tight nonempty each ih ihs =>
    intro node member
    rw [Expr.nodes, Expr.listNodes_eq] at member
    rcases List.mem_cons.mp member with rfl | below
    · exact .inList inside tight nonempty each
    · rcases List.mem_append.mp below with found | below
      · exact ih node found
      · obtain ⟨v, listed, found⟩ := List.mem_flatMap.mp below
        exact ihs v listed node found
  | _ =>
    intro node member
    obtain rfl := List.mem_singleton.mp member
    constructor <;> assumption

theorem Select.WellFormed.exprs {select : Select} (wellFormed : select.WellFormed) :
    ∀ e ∈ select.exprs, e.WellFormed := by
  intro e member
  rcases Select.mem_exprs.mp member with ⟨item, listed, rfl⟩ | ⟨join, listed, on⟩ | filter | group
    | having | ⟨item, listed, rfl⟩
  · exact (wellFormed.items item listed).expr
  · exact (wellFormed.joins join listed).on? e on
  · exact wellFormed.filter e filter
  · exact wellFormed.groupBy e group
  · exact wellFormed.having e having
  · exact wellFormed.orderBy item listed

/-- At every node of every expression of a query that has been read, the operands bind as tight as
their places ask. -/
theorem read_operands_fit {sql : String} {select : Select}
    (read : SourceStatement.ofSql sql = .ok ⟨sql, .select select⟩) :
    ∀ node ∈ select.nodes, node.OperandsFit := by
  intro node member
  obtain ⟨e, listed, below⟩ := List.mem_flatMap.mp member
  have wellFormed := (ofSql_wellFormed read).exprs e listed
  exact (wellFormed.nodes node below).operandsFit

def layered : Select where
  items := [⟨.binary (.number "1") .or (.binary (.number "2") .and (.not (.binary
    (.binary (.negate (.number "3")) .plus (.binary (.number "4") .times (.number "5")))
    .eq (.number "6")))), none⟩]

theorem layered_read :
    SourceStatement.ofSql layered.toSql = .ok ⟨layered.toSql, .select layered⟩ := by
  have digit : ∀ c : Char, c.isDigit = true → (Expr.number (String.ofList [c])).WellFormed := by
    intro c digit
    have digits : IsDigits [c] := ⟨List.cons_ne_nil _ _, by simpa using digit⟩
    have whole : NumberText (String.ofList [c]) [c] [] := .whole digits endsDigits_nil nofun
    exact .number (by rw [String.toList_ofList]; exact whole)
  have product := @Expr.WellFormed.binary _ _ .times (digit '4' rfl) (digit '5' rfl) (by decide)
    (by decide)
  have sum := @Expr.WellFormed.binary _ _ .plus (.negate (digit '3' rfl) (by decide)) product
    (by decide) (by decide)
  have comparison := @Expr.WellFormed.binary _ _ .eq sum (digit '6' rfl) (by decide) (by decide)
  have conjunction := @Expr.WellFormed.binary _ _ .and (digit '2' rfl)
    (.not comparison (by decide)) (by decide) (by decide)
  have whole := @Expr.WellFormed.binary _ _ .or (digit '1' rfl) conjunction (by decide) (by decide)
  refine toSql_read (oneItem_wellFormed whole ⟨nofun, fun _ => rfl⟩) fun inner => ?_
  simp [layered, Select.nodes, Select.exprs, Expr.nodes]

theorem layered_operands_fit :
    layered.toSql = "SELECT 1 OR 2 AND NOT -3 + 4 * 5 = 6"
      ∧ ∀ node ∈ layered.nodes, node.OperandsFit :=
  ⟨by decide, read_operands_fit layered_read⟩

end SqlDialects
