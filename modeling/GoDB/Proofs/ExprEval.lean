import GoDB.Lib.Partial
import GoDB.Planner.AsciiIdentifiers
import GoDB.Planner.Plan

/-! What expressions evaluate to: bound to offsets or not, merged or apart. -/

namespace GoDB.Planner
open Common Lib List Option LogicalSchema

variable {κ μ : Type} {read : κ → Option Value}

namespace Expr
variable {e : Expr κ} {f : κ → Option μ}

theorem evalWith_traverse {readBound : μ → Option Value}
    (reads : ∀ col bound, f col = some bound → readBound bound = read col) {bound : Expr μ}
    (traversed : e.traverse f = some bound) : bound.evalWith readBound = e.evalWith read := by
  induction e generalizing bound with
  | column col =>
    obtain ⟨found, same, rfl⟩ := map_eq_some_iff.mp traversed
    exact reads col found same
  | constant val =>
    cases traversed
    rfl
  | comparison address left right op ihLeft ihRight | logic address left right op ihLeft ihRight
  | arithmetic left right op ihLeft ihRight | concat left right ihLeft ihRight | like address left right ihLeft ihRight =>
    simp only [traverse, bind_eq_some, Option.pure_def, Option.some.injEq] at traversed
    obtain ⟨left', boundLeft, right', boundRight, rfl⟩ := traversed
    simp only [evalWith, ihLeft boundLeft, ihRight boundRight]
  | negation address child ih | nullCheck address child op ih =>
    simp only [traverse, bind_eq_some, Option.pure_def, Option.some.injEq] at traversed
    obtain ⟨child', boundChild, rfl⟩ := traversed
    simp only [evalWith, ih boundChild]

theorem evalWith_congr {other : κ → Option Value} (built : e.isBuilt = true)
    (same : ∀ col ∈ e.getReferencedColumns, read col = other col) : e.evalWith read = e.evalWith other := by
  induction e with
  | column col => exact same col (mem_singleton_self col)
  | constant val => rfl
  | comparison address left right op ihLeft ihRight | logic address left right op ihLeft ihRight
  | arithmetic left right op ihLeft ihRight =>
    obtain ⟨builtLeft, builtRight⟩ := Bool.and_eq_true_iff.mp built
    simp only [evalWith, ihLeft builtLeft fun col inside => same col (mem_append_left _ inside),
      ihRight builtRight fun col inside => same col (mem_append_right _ inside)]
  | negation address child ih => simp only [evalWith, ih built same]
  | nullCheck | concat | like => cases built

def columns : Expr κ → List κ
  | .column col => [col]
  | .constant _ => []
  | .comparison _ left right _ | .logic _ left right _ | .arithmetic left right _ | .concat left right | .like _ left right =>
    left.columns ++ right.columns
  | .negation _ child | .nullCheck _ child _ => child.columns

theorem columns_of_isBuilt (built : e.isBuilt = true) : e.columns = e.getReferencedColumns := by
  induction e with
  | column | constant => rfl
  | comparison address left right op ihLeft ihRight | logic address left right op ihLeft ihRight
  | arithmetic left right op ihLeft ihRight =>
    obtain ⟨builtLeft, builtRight⟩ := Bool.and_eq_true_iff.mp built
    rw [columns, getReferencedColumns, ihLeft builtLeft, ihRight builtRight]
  | negation address child ih => exact ih built
  | nullCheck | concat | like => cases built

theorem isSome_traverse : (e.traverse f).isSome = true ↔ ∀ col ∈ e.columns, (f col).isSome = true := by
  induction e with
  | column | constant => simp [traverse, columns]
  | comparison address left right op ihLeft ihRight | logic address left right op ihLeft ihRight
  | arithmetic left right op ihLeft ihRight | concat left right ihLeft ihRight | like address left right ihLeft ihRight =>
    simp only [columns, forall_mem_append, ← ihLeft, ← ihRight, traverse]
    cases left.traverse f <;> cases right.traverse f <;> simp
  | negation address child ih | nullCheck address child op ih =>
    rw [columns, ← ih, traverse]
    cases child.traverse f <;> simp

theorem evalWith_negation {address : Nat} {child : Expr κ} {val : Value} :
    (negation address child).evalWith read = some val ↔ ∃ inner, child.evalWith read = some inner ∧ negate inner = val := by
  simp [evalWith, bind_eq_some_iff]

theorem evalWith_logic {address : Nat} {left right : Expr κ} {logicType : BinaryLogicType} {val : Value} :
    (logic address left right logicType).evalWith read = some val ↔ ∃ val1, left.evalWith read = some val1 ∧
      ∃ val2, right.evalWith read = some val2 ∧ logicType.eval val1 val2 = val := by
  simp [evalWith, bind_eq_some_iff]

theorem isBuilt_of_isPredicate (predicate : e.isPredicate = true) : e.isBuilt = true := by
  induction e with
  | comparison => exact predicate
  | logic address left right op ihLeft ihRight =>
    obtain ⟨predLeft, predRight⟩ := Bool.and_eq_true_iff.mp predicate
    exact Bool.and_eq_true_iff.mpr ⟨ihLeft predLeft, ihRight predRight⟩
  | negation address child ih => exact ih predicate
  | _ => cases predicate

end Expr

theorem exprIsTrue_and (val1 val2 : Value) :
    exprIsTrue (BinaryLogicType.and.eval val1 val2) = (exprIsTrue val1 && exprIsTrue val2) := by
  unfold BinaryLogicType.eval
  cases exprIsTrue val1 <;> cases exprIsTrue val2 <;> cases exprIsFalse val1 <;> cases exprIsFalse val2 <;> rfl

theorem testWith_conjunction (left right : Expr κ) : (conjunction left right).testWith read =
    (left.testWith read).bind fun first => (right.testWith read).map (first && ·) := by
  simp only [conjunction, Expr.testWith, Expr.evalWith]
  cases left.evalWith read <;> cases right.evalWith read <;> simp [exprIsTrue_and]

def Conjunction (read : κ → Option Value) (preds : List (Expr κ)) (result : Option Bool) : Prop :=
  (result.isSome ↔ ∀ pred ∈ preds, (pred.testWith read).isSome) ∧
    (result = some true ↔ ∀ pred ∈ preds, pred.testWith read = some true)

theorem conjunction_foldl {first : Expr κ} {before : List (Expr κ)}
    (merged : Conjunction read before (first.testWith read)) (rest : List (Expr κ)) :
    Conjunction read (before ++ rest) ((rest.foldl conjunction first).testWith read) := by
  induction rest generalizing first before with
  | nil => simpa using merged
  | cons next rest ih =>
    rw [append_cons, foldl_cons]
    apply ih
    obtain ⟨defined, holds⟩ := merged
    unfold Conjunction
    simp only [testWith_conjunction, forall_mem_append, ← defined, ← holds, forall_mem_singleton]
    cases first.testWith read with
    | none => simp
    | some passed =>
      cases next.testWith read with
      | none => simp
      | some other => cases passed <;> cases other <;> simp

theorem conjunction_mergePredicates {preds : List (Expr κ)} {e : Expr κ} (merged : mergePredicates preds = some e) :
    Conjunction read preds (e.testWith read) := by
  cases preds with
  | nil => cases merged
  | cons first rest =>
    cases merged
    have single : Conjunction read [first] (first.testWith read) := by simp [Conjunction]
    exact conjunction_foldl single rest

section
variable [Identifiers]

namespace LogicalSchema

def reader (s : LogicalSchema) (row : Row) (col : LogicalColumn) : Option Value := (s.position col).bind (row[·]?)

theorem contains_iff (s : LogicalSchema) (col : LogicalColumn) :
    s.contains col = true ↔ (s.position col).isSome = true := by
  simp [contains, position]

variable {col : LogicalColumn}

theorem position_lt {s : LogicalSchema} {i : Nat} (found : s.position col = some i) : i < s.length := by
  obtain ⟨below, -⟩ := findIdx?_eq_some_iff_getElem.mp found
  exact below

theorem position_append (s t : LogicalSchema) (col : LogicalColumn) :
    position (s ++ t) col = (s.position col).or ((t.position col).map (· + s.length)) := by
  simp [position, findIdx?_append]

theorem reader_append_left {left : LogicalSchema} (right : LogicalSchema) {l : Row} (r : Row)
    (width : l.length = left.length) (inside : left.contains col = true) :
    left.reader l col = reader (left ++ right) (l ++ r) col := by
  obtain ⟨i, found⟩ := isSome_iff_exists.mp ((contains_iff ..).mp inside)
  have below := position_lt found
  simp [reader, position_append, found, getElem?_append_left (width ▸ below)]

theorem reader_append_right {left right : LogicalSchema} {l : Row} (r : Row) (width : l.length = left.length)
    (outside : ¬ left.contains col = true) : right.reader r col = reader (left ++ right) (l ++ r) col := by
  have absent : left.position col = none := by simpa [contains_iff] using outside
  simp only [reader, position_append, absent, none_or]
  cases right.position col with
  | none => rfl
  | some j => simp [← width, getElem?_append_right]

end LogicalSchema

variable {s : LogicalSchema} {types : List FieldType} {e : LogicalExpr} {bound : PhysicalExpr}

theorem eval_bindExpr
    (binds : bindExpr e s types = some bound) (row : Row) : bound.eval row = e.evalWith (s.reader row) := by
  apply Expr.evalWith_traverse _ binds
  intro col found same
  simp only [bindColumn, bind_eq_some, Option.pure_def, Option.some.injEq] at same
  obtain ⟨i, position, type, -, rfl⟩ := same
  simp [reader, position]

theorem test_bindExpr (binds : bindExpr e s types = some bound) (row : Row) : bound.test row = e.testWith (s.reader row) :=
  congrArg (Option.map exprIsTrue) (eval_bindExpr binds row)

theorem isSome_bindExpr (wide : types.length = s.length) :
    (bindExpr e s types).isSome = true ↔ ∀ col ∈ e.columns, s.contains col = true := by
  rw [bindExpr, Expr.isSome_traverse]
  refine forall₂_congr fun col _ => ?_
  rw [contains_iff]
  cases found : s.position col with
  | none => simp [bindColumn, found]
  | some i =>
    have below := position_lt found
    simp [bindColumn, found, getElem?_eq_getElem (wide ▸ below)]

theorem isSome_bindExpr_iff (built : e.isBuilt = true)
    (wide : types.length = s.length) : (bindExpr e s types).isSome = true ↔ s.coversExpr e = true := by
  rw [isSome_bindExpr wide, Expr.columns_of_isBuilt built, coversExpr, List.all_eq_true]

def ReadsOnly (s : LogicalSchema) (bound : PhysicalExpr) : Prop :=
  ∀ row other : Row, row.take s.length = other.take s.length → bound.eval row = bound.eval other

theorem readsOnly_of_bindExpr (binds : bindExpr e s types = some bound) : ReadsOnly s bound := by
  intro row other same
  have reads : s.reader row = s.reader other := by
    funext col
    refine bind_congr fun i found => ?_
    have below := position_lt found
    rw [← getElem?_take_of_lt below, same, getElem?_take_of_lt below]
  rw [eval_bindExpr binds, eval_bindExpr binds, reads]

/-- An expression that a schema covers can be bound to it just where the schema has the columns, too, that the
expression does not report. -/
theorem covered_expr_binds_iff {e : LogicalExpr} (wide : types.length = s.length) (covered : s.coversExpr e = true) :
    (∃ bound, bindExpr e s types = some bound ∧ ReadsOnly s bound) ↔
      ∀ col ∈ e.columns, col ∉ e.getReferencedColumns → s.contains col = true := by
  constructor
  · rintro ⟨bound, binds, -⟩ col inside -
    exact (isSome_bindExpr wide).mp (isSome_of_eq_some binds) col inside
  · intro unreported
    have all (col : LogicalColumn) (inside : col ∈ e.columns) : s.contains col = true := by
      by_cases reported : col ∈ e.getReferencedColumns
      · exact all_eq_true.mp covered col reported
      · exact unreported col inside reported
    obtain ⟨bound, binds⟩ := isSome_iff_exists.mp ((isSome_bindExpr wide).mpr all)
    exact ⟨bound, binds, readsOnly_of_bindExpr binds⟩

end

open Ascii

def numberColumn : LogicalColumn := ⟨"a", .int, none⟩

/-- `NOT a` over a row with the column `a`. -/
theorem covered_negation_binds : ∃ bound, bindExpr (.negation 0 (.column numberColumn)) [numberColumn] [.int] = some bound ∧
      ReadsOnly [numberColumn] bound :=
  (covered_expr_binds_iff rfl (by decide)).mpr (by decide)

/-- Every schema covers `a IS NULL` and `a || a`, also one without columns, to which they cannot be bound. -/
theorem hidden_columns_panic : (coversExpr [] (.nullCheck 0 (.column numberColumn) .isNull) = true ∧
      bindExpr (.nullCheck 0 (.column numberColumn) .isNull) [] [] = none) ∧
    coversExpr [] (.concat (.column numberColumn) (.column numberColumn)) = true ∧
      bindExpr (.concat (.column numberColumn) (.column numberColumn)) [] [] = none := by
  decide

end GoDB.Planner
