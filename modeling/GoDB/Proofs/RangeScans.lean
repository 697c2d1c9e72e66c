import GoDB.Proofs.PredicateTerms
import Mathlib.Algebra.Group.Nat.Even

/-! What `isRangeScan` finds in a predicate, against the predicate. It turns the
operator round for a constant on the left, and it turns it round for a NOT as
well, where the operator would have to be negated. -/

namespace GoDB.Planner
open Common Lib LogicalSchema Option Planner.Expr ComparisonType

def rangeExpr (col : LogicalColumn) (val : Value) (op : ComparisonType) : LogicalExpr :=
  .comparison 0 (.column col) (.constant val) op

def negations : LogicalExpr → Nat
  | .negation _ child => negations child + 1
  | _ => 0

section Operators

theorem flipComparison_flipComparison (op : ComparisonType) : flipComparison (flipComparison op) = op := by
  cases op <;> rfl

theorem holds_flipComparison (op : ComparisonType) (order : Ordering) :
    (flipComparison op).holds order = op.holds order.swap := by
  cases op <;> cases order <;> rfl

theorem compare_swap (first second : Value) : (first.compare second).swap = second.compare first := by
  rw [Value.compare_eq_cmp, Value.compare_eq_cmp, cmp_swap]

theorem compare_self (val : Value) : val.compare val = .eq := by
  rw [Value.compare_eq_cmp, cmp_self_eq_eq]

theorem eval_flipComparison (op : ComparisonType) (first second : Value) :
    (flipComparison op).eval first second = op.eval second first := by
  simp only [eval, holds_flipComparison, compare_swap, or_comm, eq_comm]

theorem negate_negate {val : Value} (truth : IsTruth val) : negate (negate val) = val := by
  rcases truth with rfl | rfl | rfl <;> rfl

theorem holds_eq_flipComparison (op : ComparisonType) : (flipComparison op).holds .eq = op.holds .eq := by
  cases op <;> rfl

end Operators

variable {read : LogicalColumn → Option Value} {tableAlias : String} {col : LogicalColumn} {val : Value}
  {op : ComparisonType}

theorem evalWith_rangeExpr : (rangeExpr col val op).evalWith read = (read col).bind (op.eval · val) := rfl

theorem negate_rangeExpr :
    (((rangeExpr col val op).evalWith read).map negate).map negate = (rangeExpr col val op).evalWith read := by
  rw [map_map]
  cases evaluated : (rangeExpr col val op).evalWith read with
  | none => rfl
  | some result => exact congrArg some (negate_negate (isTruth_of_isCondition rfl evaluated))

theorem evalWith_comparison {address : Nat} {left right : LogicalExpr} {compType : ComparisonType}
    (found : isRangeScan tableAlias (.comparison address left right compType) = some (some (col, val, op))) :
    (comparison address left right compType).evalWith read = (rangeExpr col val op).evalWith read := by
  unfold isRangeScan at found
  split at found
  next same =>
    cases same
    cases eq_of_ifOn found
    rfl
  next same =>
    cases same
    cases eq_of_ifOn found
    rw [evalWith_rangeExpr]
    simp only [eval_flipComparison]
    rfl
  next same => cases same
  next => cases found

theorem evalWith_of_isRangeScan {e : LogicalExpr} (found : isRangeScan tableAlias e = some (some (col, val, op))) :
    (Even (negations e) → e.evalWith read = (rangeExpr col val op).evalWith read) ∧ (¬ Even (negations e) →
        e.evalWith read = ((rangeExpr col val (flipComparison op)).evalWith read).map negate) := by
  induction e generalizing op with
  | negation address child ih =>
    obtain ⟨inner, below, mapped⟩ := map_eq_some_iff.mp found
    obtain ⟨⟨_, _, op'⟩, rfl, same⟩ := map_eq_some_iff.mp mapped
    cases same
    obtain ⟨plain, negated⟩ := ih below
    have step : (negation address child).evalWith read = (child.evalWith read).map negate := by
      cases evaluated : child.evalWith read <;> simp [evalWith, evaluated]
    rw [step, negations, Nat.even_add_one, flipComparison_flipComparison, not_not]
    refine ⟨fun odd => ?_, fun even => ?_⟩
    · rw [negated odd, negate_rangeExpr]
    · rw [plain even]
  | comparison address left right compType =>
    exact ⟨fun _ => evalWith_comparison found, fun odd => absurd Even.zero odd⟩
  | _ => cases found

section Tuples

def Conforms (s : LogicalSchema) (row : Row) : Prop := row.map Value.type = s.map (·.ctype)

theorem testWith_at_constant {e : LogicalExpr} (found : isRangeScan tableAlias e = some (some (col, val, op)))
    (odd : ¬ Even (negations e)) (here : read col = some val) (known : val.isNull = false) :
    e.testWith read = some (!op.holds .eq) ∧ (rangeExpr col val op).testWith read = some (op.holds .eq) := by
  have evaluated (compType : ComparisonType) :
      (rangeExpr col val compType).evalWith read = some (boolValue (compType.holds .eq)) := by
    rw [evalWith_rangeExpr, here, bind_some, eval]
    simp [known, compare_self]
  rw [testWith, testWith, (evalWith_of_isRangeScan found).2 odd, evaluated, evaluated, holds_eq_flipComparison]
  cases op.holds .eq <;> exact ⟨rfl, rfl⟩

theorem null_of_apart (apart : ∀ v, read col = some v → val.isNull ∨ val.type ≠ v.type) {compType : ComparisonType}
    {result : Value} (evaluated : (rangeExpr col val compType).evalWith read = some result) : result = .null .int := by
  rw [evalWith_rangeExpr] at evaluated
  obtain ⟨v, here, compared⟩ := bind_eq_some.mp evaluated
  simp only [eval] at compared
  split at compared
  · cases compared
    rfl
  · next known =>
    rcases apart v here with null | differs
    · exact absurd (.inr null) known
    · rw [if_neg fun same => differs same.symm] at compared
      cases compared

variable [Identifiers]

theorem type_of_reader {s : LogicalSchema} {row : Row} (conforms : Conforms s row) {v : Value}
    (here : s.reader row col = some v) : v.type = col.ctype := by
  obtain ⟨i, found, here⟩ := bind_eq_some.mp here
  obtain ⟨below, equals, -⟩ := List.findIdx?_eq_some_iff_getElem.mp found
  have types := congrArg (·[i]?) conforms
  simp only [List.getElem?_map, here, map_some, List.getElem?_eq_getElem below, some.injEq] at types
  simp only [LogicalColumn.equals, Bool.and_eq_true, decide_eq_true_eq] at equals
  rw [types, equals.1.2]

/-- The range stands for the predicate on all rows just where the NOTs cancel out, or where the constant never
compares with the column. -/
theorem range_scan_equivalent_iff (e : LogicalExpr) (tableAlias : String)
    (found : isRangeScan tableAlias e = some (some (col, val, op))) :
    (∀ (s : LogicalSchema) (row : Row), Conforms s row →
        (e.testWith (s.reader row) = some true ↔ (rangeExpr col val op).testWith (s.reader row) = some true)) ↔
      Even (negations e) ∨ val.isNull ∨ val.type ≠ col.ctype := by
  constructor
  · intro equivalent
    by_contra none
    obtain ⟨odd, known, same⟩ : ¬ Even (negations e) ∧ val.isNull = false ∧ val.type = col.ctype := by
      simpa [not_or] using none
    have conforms : Conforms [col] [val] := congrArg (fun t => [t]) same
    have here : reader [col] [val] col = some val := by
      simp [reader, position, LogicalColumn.equals_self]
    obtain ⟨first, second⟩ := testWith_at_constant found odd here known
    have differs := equivalent [col] [val] conforms
    rw [first, second] at differs
    cases test : op.holds .eq <;> simp [test] at differs
  · intro condition s row conforms
    obtain ⟨plain, negated⟩ := @evalWith_of_isRangeScan (s.reader row) _ _ _ _ _ found
    by_cases even : Even (negations e)
    · rw [testWith, testWith, plain even]
    have apart (v : Value) (here : s.reader row col = some v) : val.isNull ∨ val.type ≠ v.type := by
      rw [type_of_reader conforms here]
      exact condition.resolve_left even
    refine iff_of_false (fun test => ?_) (fun test => ?_)
    · obtain ⟨result, evaluated, true⟩ := map_eq_some_iff.mp test
      rw [negated even] at evaluated
      obtain ⟨inner, inside, rfl⟩ := map_eq_some_iff.mp evaluated
      rw [null_of_apart apart inside] at true
      cases true
    · obtain ⟨result, evaluated, true⟩ := map_eq_some_iff.mp test
      rw [null_of_apart apart evaluated] at true
      cases true

end Tuples

open Ascii

def ageColumn : LogicalColumn := ⟨"age", .int, some ⟨"people", 1⟩⟩

/-- NOT NOT (5 < age). -/
def older : LogicalExpr :=
  .negation 3 (.negation 2 (.comparison 1 (.constant (.int 5)) (.column ageColumn) .lessThan))

theorem older_scanned_upward : isRangeScan "people" older = some (some (ageColumn, .int 5, .greaterThan)) ∧
      ∀ (s : LogicalSchema) (row : Row), Conforms s row → (older.testWith (s.reader row) = some true ↔
        (rangeExpr ageColumn (.int 5) .greaterThan).testWith (s.reader row) = some true) :=
  ⟨by decide, (range_scan_equivalent_iff older "people" (by decide)).mpr (.inl (by decide))⟩

/-- NOT (age < 5). -/
def notYounger : LogicalExpr := .negation 2 (.comparison 1 (.column ageColumn) (.constant (.int 5)) .lessThan)

theorem not_younger_found : isRangeScan "people" notYounger = some (some (ageColumn, .int 5, .greaterThan)) := by
  decide

/-- Age 5 is not below 5, and it is not above 5 either. -/
theorem not_less_taken_for_greater :
    isRangeScan "people" notYounger = some (some (ageColumn, .int 5, .greaterThan)) ∧ Conforms [ageColumn] [.int 5] ∧
      notYounger.testWith (reader [ageColumn] [.int 5]) = some true ∧
      (rangeExpr ageColumn (.int 5) .greaterThan).testWith (reader [ageColumn] [.int 5]) = some false :=
  ⟨not_younger_found, rfl, by decide, by decide⟩

end GoDB.Planner
