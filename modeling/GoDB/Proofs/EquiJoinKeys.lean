import GoDB.Execution.PlanRows
import GoDB.Planner.JoinRules
import GoDB.Proofs.ExprEval

/-! What the mined keys of a join condition say and what they leave out. -/

namespace GoDB.Planner
open Common Lib Execution List ComparisonType Planner.Expr

variable {leftSchema rightSchema : LogicalSchema} {read : LogicalColumn → Option Value}

def equalTest (read : LogicalColumn → Option Value) (key : LogicalExpr × LogicalExpr) : Option Bool :=
  (comparison 0 key.1 key.2 .equal).testWith read

theorem compare_eq_iff_comm (val1 val2 : Value) : val1.compare val2 = .eq ↔ val2.compare val1 = .eq := by
  rw [Value.compare_eq_cmp, Value.compare_eq_cmp, cmp_eq_eq_iff, cmp_eq_eq_iff, eq_comm]

theorem equal_eval_comm (val1 val2 : Value) : equal.eval val1 val2 = equal.eval val2 val1 := by
  simp only [eval, holds, compare_eq_iff_comm val1 val2, or_comm, eq_comm]

theorem testWith_comparison (address : Nat) (left right : LogicalExpr) (op : ComparisonType) :
    (comparison address left right op).testWith read =
      (left.evalWith read).bind fun val1 => (right.evalWith read).bind fun val2 =>
        (op.eval val1 val2).map exprIsTrue := by
  simp only [testWith, evalWith]
  cases left.evalWith read <;> cases right.evalWith read <;> rfl

theorem equalTest_comm (left right : LogicalExpr) : equalTest read (left, right) = equalTest read (right, left) := by
  simp only [equalTest, testWith_comparison]
  cases left.evalWith read with
  | none => cases right.evalWith read <;> rfl
  | some val1 =>
    cases right.evalWith read with
    | none => rfl
    | some val2 => simp [equal_eval_comm val1 val2]

variable [Identifiers]

def minedKeys (leftSchema rightSchema : LogicalSchema) (cond : LogicalExpr) : List (LogicalExpr × LogicalExpr) :=
  (isEquiJoin leftSchema rightSchema cond).getD []

def unmined (leftSchema rightSchema : LogicalSchema) : LogicalExpr → List LogicalExpr
  | .logic _ left right .and => unmined leftSchema rightSchema left ++ unmined leftSchema rightSchema right
  | cond => if (isEquiJoin leftSchema rightSchema cond).isSome then [] else [cond]

theorem minedKeys_and (address : Nat) (left right : LogicalExpr) :
    minedKeys leftSchema rightSchema (.logic address left right .and) =
      minedKeys leftSchema rightSchema left ++ minedKeys leftSchema rightSchema right := by
  simp only [minedKeys, isEquiJoin]
  split
  next empty => exact (isEmpty_iff.mp empty).symm
  next => rfl

/-- A condition is the conjunction of its mined equalities and of the conjuncts
that were not mined; where it is defined, so are they. -/
theorem testWith_mined {cond : LogicalExpr} (defined : (cond.testWith read).isSome = true) :
    (∀ key ∈ minedKeys leftSchema rightSchema cond, (equalTest read key).isSome = true) ∧
      (cond.testWith read = some true ↔ (∀ key ∈ minedKeys leftSchema rightSchema cond, equalTest read key = some true) ∧
        ∀ conjunct ∈ unmined leftSchema rightSchema cond, conjunct.testWith read = some true) := by
  induction cond with
  | logic address left right logicType ihLeft ihRight =>
    cases logicType with
    | or => simp [minedKeys, unmined, isEquiJoin]
    | and =>
      have same : (logic address left right .and).testWith read = (conjunction left right).testWith read := rfl
      rw [same, testWith_conjunction] at defined ⊢
      cases first : left.testWith read with
      | none => simp [first] at defined
      | some passedLeft =>
        cases second : right.testWith read with
        | none => simp [first, second] at defined
        | some passedRight =>
          obtain ⟨definedLeft, holdsLeft⟩ := ihLeft (by simp [first])
          obtain ⟨definedRight, holdsRight⟩ := ihRight (by simp [second])
          rw [minedKeys_and, unmined]
          simp only [forall_mem_append]
          refine ⟨⟨definedLeft, definedRight⟩, ?_⟩
          rw [and_and_and_comm, ← holdsLeft, ← holdsRight, first, second]
          simp
  | comparison address left right op =>
    have test : (comparison address left right op).testWith read = (comparison 0 left right op).testWith read := by
      rw [testWith_comparison, testWith_comparison]
    cases op with
    | equal =>
      rw [test] at defined ⊢
      simp only [minedKeys, unmined, isEquiJoin]
      split
      · simpa [equalTest] using defined
      · split
        · have flipped : equalTest read (left, right) = equalTest read (right, left) := equalTest_comm left right
          simp only [equalTest] at flipped
          simpa [equalTest, ← flipped] using defined
        · simp [test]
    | _ => simp [minedKeys, unmined, isEquiJoin]
  | _ => simp [minedKeys, unmined, isEquiJoin]

structure Sided (leftSchema rightSchema : LogicalSchema) (cond : LogicalExpr) (key : LogicalExpr × LogicalExpr) : Prop where
  left : leftSchema.coversExpr key.1 = true
  right : rightSchema.coversExpr key.2 = true
  builtLeft : key.1.isBuilt = true
  builtRight : key.2.isBuilt = true
  columns : ∀ col ∈ key.1.getReferencedColumns ++ key.2.getReferencedColumns, col ∈ cond.getReferencedColumns

theorem sided_of_minedKeys {cond : LogicalExpr} (predicate : cond.isPredicate = true) {key : LogicalExpr × LogicalExpr}
    (mined : key ∈ minedKeys leftSchema rightSchema cond) : Sided leftSchema rightSchema cond key := by
  induction cond with
  | logic address left right logicType ihLeft ihRight =>
    cases logicType with
    | or => simp [minedKeys, isEquiJoin] at mined
    | and =>
      obtain ⟨predLeft, predRight⟩ := Bool.and_eq_true_iff.mp predicate
      rcases mem_append.mp (minedKeys_and address left right ▸ mined) with mined | mined
      · have sided := ihLeft predLeft mined
        exact { sided with columns := fun col inside => mem_append_left _ (sided.columns col inside) }
      · have sided := ihRight predRight mined
        exact { sided with columns := fun col inside => mem_append_right _ (sided.columns col inside) }
  | comparison address left right op =>
    obtain ⟨builtLeft, builtRight⟩ := Bool.and_eq_true_iff.mp predicate
    cases op with
    | equal =>
      simp only [minedKeys, isEquiJoin] at mined
      split at mined
      next covers =>
        cases mem_singleton.mp mined
        exact ⟨covers.1, covers.2, builtLeft, builtRight, fun _ inside => inside⟩
      next =>
        split at mined
        next covers =>
          cases mem_singleton.mp mined
          refine ⟨covers.1, covers.2, builtRight, builtLeft, fun col inside => ?_⟩
          rcases mem_append.mp inside with inside | inside
          · exact mem_append_right _ inside
          · exact mem_append_left _ inside
        next => cases mined
    | _ => simp [minedKeys, isEquiJoin] at mined
  | _ => simp [minedKeys, isEquiJoin] at mined

end GoDB.Planner
