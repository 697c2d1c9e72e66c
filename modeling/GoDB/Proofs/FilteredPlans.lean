import GoDB.Execution.PlanRows
import GoDB.Proofs.ExprEval

/-! The rows that a filter over a list of conditions lets through. -/

namespace GoDB.Planner
open Common

theorem getReferencedColumns_foldl (first : LogicalExpr) (rest : List LogicalExpr) :
    (rest.foldl conjunction first).getReferencedColumns =
      first.getReferencedColumns ++ rest.flatMap (·.getReferencedColumns) := by
  induction rest generalizing first with
  | nil => simp
  | cons next rest ih => simp [ih, conjunction, Expr.getReferencedColumns]

theorem isBuilt_foldl (first : LogicalExpr) (rest : List LogicalExpr) :
    (rest.foldl conjunction first).isBuilt = (first.isBuilt && rest.all (·.isBuilt)) := by
  induction rest generalizing first with
  | nil => simp
  | cons next rest ih => simp [ih, conjunction, Expr.isBuilt, Bool.and_assoc]

variable {preds : List LogicalExpr} {e : LogicalExpr} {s : LogicalSchema}

theorem exists_mergePredicates {pred : LogicalExpr} (member : pred ∈ preds) : ∃ e, mergePredicates preds = some e := by
  cases preds with
  | nil => cases member
  | cons => exact ⟨_, rfl⟩

theorem isBuilt_mergePredicates (merged : mergePredicates preds = some e)
    (built : ∀ pred ∈ preds, pred.isBuilt = true) : e.isBuilt = true := by
  cases preds with
  | nil => cases merged
  | cons first rest =>
    cases merged
    obtain ⟨builtFirst, builtRest⟩ := List.forall_mem_cons.mp built
    rw [isBuilt_foldl, builtFirst, List.all_eq_true.mpr builtRest]
    rfl

variable [Identifiers]

theorem coversExpr_mergePredicates (merged : mergePredicates preds = some e) :
    s.coversExpr e = true ↔ ∀ pred ∈ preds, s.coversExpr pred = true := by
  cases preds with
  | nil => cases merged
  | cons first rest =>
    cases merged
    simp [LogicalSchema.coversExpr, getReferencedColumns_foldl]

theorem isSome_wrapInFilter_iff {child : PlanNode} (built : ∀ pred ∈ preds, pred.isBuilt = true)
    (typed : child.outputSchema.length = s.length) :
    (wrapInFilter child preds s).isSome = true ↔ ∀ pred ∈ preds, s.coversExpr pred = true := by
  unfold wrapInFilter
  split
  next empty =>
    cases preds with
    | cons => cases empty
    | nil => simp
  next finalPred merged =>
    rw [← coversExpr_mergePredicates merged, ← isSome_bindExpr_iff (isBuilt_mergePredicates merged built) typed]
    cases bindExpr finalPred s child.outputSchema <;> simp

end GoDB.Planner

namespace GoDB.Execution
open Common Lib Planner Option

variable {db : Database}

/-- The plan returns these rows, all of the width of the schema. -/
structure Supplies (db : Database) (plan : PlanNode) (schema : LogicalSchema) (rows : List Row) : Prop where
  produced : planRows db plan = some rows
  typed : plan.outputSchema.length = schema.length
  width : ∀ row ∈ rows, row.length = schema.length

/-- The plan is built, and returns these rows in some order. -/
def Returns (db : Database) (plan : Option PlanNode) (rows : List Row) : Prop :=
  ∃ result, plan.bind (planRows db) = some result ∧ result.Perm rows

variable {child : PlanNode} {kept : List Row} {rows : List Row}

theorem planRows_filter {predicate : PhysicalExpr}
    (produced : planRows db child = some rows) : planRows db (.filter child predicate) = some kept ↔
      (∀ row ∈ rows, (predicate.test row).isSome = true) ∧ kept = rows.filter fun row => predicate.test row = some true := by
  simp only [planRows, produced, bind_eq_bind, bind_some]
  exact select_eq_some_iff

variable [Identifiers]

def Passing (schema : LogicalSchema) (conds : List LogicalExpr) (row : Row) : Prop :=
  ∀ cond ∈ conds, cond.testWith (schema.reader row) = some true

instance (schema : LogicalSchema) (conds : List LogicalExpr) : DecidablePred (Passing schema conds) :=
  fun _ => inferInstanceAs (Decidable (∀ _ ∈ _, _))

def Defined (schema : LogicalSchema) (conds : List LogicalExpr) (row : Row) : Prop :=
  ∀ cond ∈ conds, (cond.testWith (schema.reader row)).isSome = true

instance (schema : LogicalSchema) (conds : List LogicalExpr) : DecidablePred (Defined schema conds) :=
  fun _ => inferInstanceAs (Decidable (∀ _ ∈ _, _))

theorem filter_passing_append (schema : LogicalSchema) (conds others : List LogicalExpr) (rows : List Row) :
    (rows.filter (Passing schema conds)).filter (Passing schema others) =
      rows.filter (Passing schema (conds ++ others)) := by
  rw [List.filter_filter]
  apply List.filter_congr
  intro row _
  rw [Bool.eq_iff_iff, Bool.and_eq_true, decide_eq_true_iff, decide_eq_true_iff, decide_eq_true_iff, and_comm]
  exact List.forall_mem_append.symm

variable {conds : List LogicalExpr} {schema : LogicalSchema} {plan : PlanNode}

theorem planRows_wrapInFilter (produced : planRows db child = some rows)
    (wrapped : wrapInFilter child conds schema = some plan) : planRows db plan = some kept ↔
      (∀ row ∈ rows, Defined schema conds row) ∧ kept = rows.filter (Passing schema conds) := by
  unfold wrapInFilter at wrapped
  split at wrapped
  next empty =>
    cases wrapped
    cases conds with
    | cons => cases empty
    | nil =>
      simp only [produced, some.injEq, Passing, Defined, List.not_mem_nil, false_imp_iff, implies_true,
        decide_true, List.filter_true, true_and]
      exact eq_comm
  next finalPred merged =>
    simp only [bind_eq_some, pure_def, some.injEq] at wrapped
    obtain ⟨bound, binds, rfl⟩ := wrapped
    have truth : ∀ row, Conjunction (schema.reader row) conds (bound.test row) := by
      intro row
      rw [test_bindExpr binds]
      exact conjunction_mergePredicates merged
    rw [planRows_filter produced]
    simp only [(truth _).1, (truth _).2]
    rfl

theorem exists_unfiltered
    (wrapped : wrapInFilter child conds schema = some plan) (produced : planRows db plan = some kept) :
    ∃ rows, planRows db child = some rows := by
  unfold wrapInFilter at wrapped
  split at wrapped
  · cases wrapped
    exact ⟨kept, produced⟩
  · obtain ⟨_, -, same⟩ := bind_eq_some.mp wrapped
    cases same
    obtain ⟨rows, rowsOf, -⟩ := bind_eq_some.mp produced
    exact ⟨rows, rowsOf⟩

end GoDB.Execution
