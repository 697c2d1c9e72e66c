import GoDB.Planner.OperatorRules
import GoDB.Proofs.ExprEval

/-! A projection that was fused with the one below returns the same row as the two of them. -/

namespace GoDB.Planner
open Common Lib Outcome

theorem Expr.traverse_of_graft {κ μ ν ε ι : Type} {e : Expr κ} {p : Expr μ} {f : κ → Outcome ε (Expr μ)} {g : κ → Option ν}
    {readBelow : ι → μ → Option Value} {read : ι → ν → Option Value}
    (reads : ∀ col p, f col = .ok p → ∃ q, g col = some q ∧ ∀ i, p.evalWith (readBelow i) = read i q)
    (grafted : e.graft f = .ok p) :
    ∃ bound, e.traverse g = some bound ∧ ∀ i, p.evalWith (readBelow i) = bound.evalWith (read i) := by
  induction e generalizing p with
  | column col =>
    obtain ⟨q, found, same⟩ := reads col p grafted
    exact ⟨.column q, by rw [traverse, found, Option.map_some], same⟩
  | constant val =>
    cases grafted
    exact ⟨.constant val, rfl, fun _ => rfl⟩
  | comparison address left right op ihLeft ihRight | logic address left right op ihLeft ihRight
  | arithmetic left right op ihLeft ihRight | concat left right ihLeft ihRight | like address left right ihLeft ihRight =>
    obtain ⟨left', graftedLeft, rest⟩ := bind_eq_ok.mp grafted
    obtain ⟨right', graftedRight, made⟩ := bind_eq_ok.mp rest
    obtain ⟨boundLeft, traversedLeft, sameLeft⟩ := ihLeft graftedLeft
    obtain ⟨boundRight, traversedRight, sameRight⟩ := ihRight graftedRight
    cases made
    refine ⟨_, by rw [traverse, traversedLeft, traversedRight]; rfl, fun i => ?_⟩
    simp only [evalWith, sameLeft, sameRight]
  | negation address child ih | nullCheck address child op ih =>
    obtain ⟨child', graftedChild, made⟩ := bind_eq_ok.mp grafted
    obtain ⟨bound, traversed, same⟩ := ih graftedChild
    cases made
    refine ⟨_, by rw [traverse, traversed]; rfl, fun i => ?_⟩
    simp only [evalWith, same]

section
variable [Identifiers]

theorem LogicalColumn.equals_comm (c other : LogicalColumn) : c.equals other = other.equals c := by
  have origins : TableRef.equals c.origin other.origin = TableRef.equals other.origin c.origin := by
    cases c.origin <;> cases other.origin <;> simp [TableRef.equals, eq_comm, or_comm]
  have names : equalFold c.cname other.cname = equalFold other.cname c.cname := by
    rw [Bool.eq_iff_iff]
    exact ⟨equalFold_equivalence.symm, equalFold_equivalence.symm⟩
  simp [equals, names, origins, eq_comm]

open ProjectionRule

variable {schema : LogicalSchema} {below : List PhysicalExpr}

theorem ProjectionRule.fuseColumn_eq_ok {v : LogicalColumn} {p : PhysicalExpr} :
    fuseColumn schema below v = .ok p ↔ ∃ i, schema.position v = some i ∧ below[i]? = some p := by
  unfold fuseColumn LogicalSchema.position
  simp only [LogicalColumn.equals_comm v]
  cases schema.findIdx? (·.equals v) <;> simp [ofOption_eq_ok]

def ProjectionRule.SameRow (below fused bound : List PhysicalExpr) : Prop :=
  ∀ row middle, below.mapM (·.eval row) = some middle → fused.mapM (·.eval row) = bound.mapM (·.eval middle)

theorem ProjectionRule.bind_of_fuse {e : LogicalExpr} {p : PhysicalExpr}
    (fuses : fuseProjectionIntoExpr schema below e = .ok p) :
    ∃ bound, bindExpr e schema (below.map (Expr.outputType BoundValueExpr.outputType)) = some bound ∧
      ∀ row middle, below.mapM (·.eval row) = some middle → p.eval row = bound.eval middle := by
  have reads (v : LogicalColumn) (q : PhysicalExpr) (found : fuseColumn schema below v = .ok q) :
      ∃ col, bindColumn schema (below.map (Expr.outputType BoundValueExpr.outputType)) v = some col ∧
        ∀ rows : { rows : Row × Row // below.mapM (·.eval rows.1) = some rows.2 },
          q.eval rows.1.1 = rows.1.2[col.fieldOffset]? := by
    obtain ⟨i, position, here⟩ := fuseColumn_eq_ok.mp found
    refine ⟨_, by rw [bindColumn, position]; simp [here]; rfl, fun rows => ?_⟩
    obtain ⟨val, there, evaluates⟩ := getElem?_of_forall₂ (forall₂_of_mapM rows.2) here
    exact evaluates.trans there.symm
  obtain ⟨bound, binds, same⟩ := Expr.traverse_of_graft reads fuses
  exact ⟨bound, binds, fun row middle evaluated => same ⟨(row, middle), evaluated⟩⟩

/-- A projection that was fused with the one below returns what the two of them would, for every row that the one
below has a result for. -/
theorem ProjectionRule.fused_projection_same_row {expressions : List LogicalExpr} {child : LogicalPlanNode} {base : PlanNode}
    {fused : List PhysicalExpr} (fuses : expressions.mapM (fuseProjectionIntoExpr child.outputSchema below) = .ok fused) :
    apply expressions child (.projection base below) = some (.projection base fused) ∧
      ∃ bound, bindExprs expressions child.outputSchema (PlanNode.projection base below).outputSchema = some bound ∧
        SameRow below fused bound := by
  refine ⟨by rw [apply, fuses], ?_⟩
  have each := mapM_eq_ok.mp fuses
  clear fuses
  induction each with
  | nil => exact ⟨[], rfl, fun _ _ _ => rfl⟩
  | cons first _ ih =>
    obtain ⟨q, binds, same⟩ := bind_of_fuse first
    obtain ⟨bound, others, rows⟩ := ih
    refine ⟨q :: bound, ?_, fun row middle evaluated => ?_⟩
    · rw [bindExprs, List.mapM_cons, PlanNode.outputSchema, binds, ← bindExprs, ← PlanNode.outputSchema, others]
      rfl
    · rw [List.mapM_cons, List.mapM_cons, same row middle evaluated, rows row middle evaluated]

end

open Ascii

/-- `A IS NULL` over `(x, 5)` with the columns `a` and `A`, which are taken for the same one. -/
theorem ProjectionRule.first_of_equal_columns : ∃ bound, bindExprs [.nullCheck 0 (.column ⟨"A", .int, none⟩) .isNull]
    [⟨"a", .int, none⟩, ⟨"A", .int, none⟩] [.int, .int] = some bound ∧
      SameRow [.column ⟨1, .int, "x"⟩, .constant (.int 5)] [.nullCheck 0 (.column ⟨1, .int, "x"⟩) .isNull] bound :=
  (@fused_projection_same_row _ [.column ⟨1, .int, "x"⟩, .constant (.int 5)] [.nullCheck 0 (.column ⟨"A", .int, none⟩) .isNull]
    (.values [] [⟨"a", .int, none⟩, ⟨"A", .int, none⟩] []) (.values [] []) _ (by rfl)).2

end GoDB.Planner
