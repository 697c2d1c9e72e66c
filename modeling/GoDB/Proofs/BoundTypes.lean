import GoDB.Proofs.BoundExprs
import GoDB.Proofs.RangeScans

/-! What becomes of an expression of the front end: it is bound or rejected, and what
it is bound to is evaluated. The binder compares the types of the two sides of a
comparison, and those of no other operation. -/

namespace GoDB.Planner.LogicalPlanBuilder
open Common Lib LogicalSchema LogicalColumn Planner.Expr List

section
variable [Identifiers] (printer : SqlPrinter) (scope : FromScope)

def Numeric : SqlExpr → Prop
  | .binary _ left right => HasType printer scope left .int ∧ HasType printer scope right .int ∧ Numeric left ∧ Numeric right
  | .comparison _ left right | .and left right | .or left right => Numeric left ∧ Numeric right
  | .not expr | .paren expr => Numeric expr
  | .colName _ _ | .sqlVal _ _ | .nullVal | .is _ _ | .func _ _ _ | .other _ _ => True

def IsDivisor : SqlExpr → Prop
  | .sqlVal type val => type = .intVal ∧ parseInt val ≠ some 0
  | .paren expr => IsDivisor expr
  | _ => False

/-- No division may be by zero, and AND and OR are of numbers. Without this an operation on values that are not NULL
may be NULL, and hide that another one has no result. -/
def Steady : SqlExpr → Prop
  | .binary operator left right => Steady left ∧ Steady right ∧ (operator = .div ∨ operator = .mod → IsDivisor right)
  | .and left right | .or left right =>
    HasType printer scope left .int ∧ HasType printer scope right .int ∧ Steady left ∧ Steady right
  | .comparison _ left right => Steady left ∧ Steady right
  | .not expr | .paren expr => Steady expr
  | .colName _ _ | .sqlVal _ _ | .nullVal | .is _ _ | .func _ _ _ | .other _ _ => True

/-- The binder returns, and what it returns evaluates to values of its type wherever it can be bound to offsets. -/
structure TypeSafe (expr : SqlExpr) : Prop where
  returns : ∀ address, bindExpr printer scope address expr ≠ .panics
  evaluates : ∀ address e, bindExpr printer scope address expr = .ok e → ∀ (s : LogicalSchema) (p : PhysicalExpr),
    Planner.bindExpr e s (s.map (·.ctype)) = some p → ∀ row, Conforms s row →
      ∃ v, p.eval row = some v ∧ v.type = e.outputType

end

variable {printer : SqlPrinter} {scope : FromScope} {address : Nat} {expr : SqlExpr} {e : LogicalExpr}

section Bound
variable [Identifiers] (bound : Binds printer scope address expr e)

include bound

theorem Binds.isBuilt : e.isBuilt = true := by
  induction bound with
  | column | constant | func => rfl
  | comparison _ _ _ _ left right | and _ _ left right | or _ _ left right | binary _ _ _ left right =>
    exact Bool.and_eq_true_iff.mpr ⟨left, right⟩
  | not _ child | paren _ child => exact child

theorem Binds.isTyped : e.isTyped ctype = true := by
  induction bound with
  | column | constant | func => rfl
  | comparison _ _ sameType _ left right =>
    simp only [Expr.isTyped, left, right, Bool.and_true, decide_eq_true_eq]
    exact sameType
  | and _ _ left right | or _ _ left right | binary _ _ _ left right => exact Bool.and_eq_true_iff.mpr ⟨left, right⟩
  | not _ child | paren _ child => exact child

theorem Binds.hasType_iff {t : FieldType} : HasType printer scope expr t ↔ e.outputType = t :=
  ⟨fun typed => typed.unique bound, fun same => same ▸ bound.hasType⟩

theorem Binds.isNumeric_iff : e.isNumeric ctype = true ↔ Numeric printer scope expr := by
  induction bound with
  | column | constant | func => simp [isNumeric, Numeric]
  | comparison _ _ _ _ left right | and _ _ left right | or _ _ left right =>
    rw [isNumeric, Bool.and_eq_true, left, right, Numeric]
  | not _ child | paren _ child => exact child
  | binary boundLeft boundRight _ left right =>
    rw [isNumeric, Numeric, Binds.hasType_iff boundLeft, Binds.hasType_iff boundRight]
    simp only [Bool.and_eq_true, decide_eq_true_eq, left, right, and_assoc, LogicalExpr.outputType]

theorem isDivisor_of_binds (divisor : IsDivisor expr) : e.isDivisor = true := by
  induction bound with
  | constant read =>
    obtain ⟨rfl, nonzero⟩ := divisor
    rcases bindConstant_eq_ok.mp read with ⟨text, -⟩ | ⟨-, i, numeral, same⟩
    · rcases text with same | same <;> cases same
    · cases same
      rw [numeral] at nonzero
      simpa [isDivisor] using nonzero
  | paren _ child => exact child divisor
  | _ => cases divisor

theorem Binds.isSteady (steady : Steady printer scope expr) : e.isSteady ctype = true := by
  induction bound with
  | column | func => rfl
  | constant read =>
    rcases bindConstant_eq_ok.mp read with ⟨-, fits, same⟩ | ⟨-, i, -, same⟩ <;> cases same <;> rfl
  | comparison _ _ _ _ left right => exact Bool.and_eq_true_iff.mpr ⟨left steady.1, right steady.2⟩
  | and boundLeft boundRight left right | or boundLeft boundRight left right =>
    obtain ⟨intLeft, intRight, steadyLeft, steadyRight⟩ := steady
    have typeLeft : outputType ctype _ = .int := boundLeft.hasType_iff.mp intLeft
    have typeRight : outputType ctype _ = .int := boundRight.hasType_iff.mp intRight
    simp [Expr.isSteady, typeLeft, typeRight, left steadyLeft, right steadyRight]
  | not _ child | paren _ child => exact child steady
  | @binary _ operator _ _ _ _ op _ boundRight known left right =>
    obtain ⟨steadyLeft, steadyRight, divides⟩ := steady
    simp only [Expr.isSteady, left steadyLeft, right steadyRight, Bool.true_and, Bool.or_eq_true, Bool.and_eq_true,
      decide_eq_true_eq]
    by_cases division : operator = .div ∨ operator = .mod
    · exact .inr (isDivisor_of_binds boundRight (divides division))
    · refine .inl ?_
      cases operator <;> cases known <;> simp at division ⊢

end Bound

section Rows

def someValue : FieldType → Value
  | .int => .int 1
  | .string => .string ⟨[], Nat.zero_le _⟩

theorem type_someValue (t : FieldType) : (someValue t).type = t := by cases t <;> rfl

theorem isNull_someValue (t : FieldType) : (someValue t).isNull = false := by cases t <;> rfl

def someRow (s : LogicalSchema) : Row := s.map fun col => someValue col.ctype

theorem conforms_someRow (s : LogicalSchema) : Conforms s (someRow s) := by
  simp [Conforms, someRow, Function.comp_def, type_someValue]

variable [Identifiers] {s : LogicalSchema} {col : LogicalColumn}

theorem isNull_reader_someRow {v : Value} (here : s.reader (someRow s) col = some v) : v.isNull = false := by
  obtain ⟨i, -, here⟩ := bind_eq_some.mp here
  simp only [someRow, getElem?_map, Option.map_eq_some_iff] at here
  obtain ⟨found, -, rfl⟩ := here
  exact isNull_someValue _

theorem isSome_reader {row : Row} (conforms : Conforms s row)
    (inside : s.contains col = true) : (s.reader row col).isSome = true := by
  obtain ⟨i, found⟩ := Option.isSome_iff_exists.mp ((contains_iff ..).mp inside)
  have wide : row.length = s.length := by simpa using congrArg length conforms
  have below : i < row.length := wide ▸ position_lt found
  simp [reader, found, below]

end Rows

/-- An expression is safe when no text in it is too long and nothing but integers is computed with. This is also
needed, unless an operation can hide by a NULL of its own that another has no result. -/
theorem bound_expr_type_safe [Identifiers] (printer : SqlPrinter) (scope : FromScope) (expr : SqlExpr) :
    (¬ Overlong printer scope expr ∧ ((∃ t, HasType printer scope expr t) → Numeric printer scope expr) →
        TypeSafe printer scope expr) ∧
      (TypeSafe printer scope expr → ¬ Overlong printer scope expr ∧
        (Steady printer scope expr → (∃ t, HasType printer scope expr t) → Numeric printer scope expr)) := by
  constructor
  · rintro ⟨short, numeric⟩
    refine ⟨fun address panicked => short ((bindExpr_eq_panics expr address).mp panicked), ?_⟩
    intro address e accepted s p offsets row conforms
    have bound := bindExpr_eq_ok.mp accepted
    have typed (col : LogicalColumn) (v : Value) (here : s.reader row col = some v) : v.type = col.ctype :=
      type_of_reader conforms here
    have covered : s.coversExpr e = true :=
      (isSome_bindExpr_iff bound.isBuilt (length_map _)).mp (Option.isSome_of_eq_some offsets)
    have readable (col : LogicalColumn) (used : col ∈ e.getReferencedColumns) : (s.reader row col).isSome = true :=
      isSome_reader conforms (all_eq_true.mp covered col used)
    obtain ⟨v, evaluated⟩ := exists_evalWith typed bound.isBuilt bound.isTyped
      (bound.isNumeric_iff.mpr (numeric ⟨_, bound.hasType⟩)) readable
    exact ⟨v, (eval_bindExpr offsets row).trans evaluated, type_of_evalWith typed bound.isBuilt evaluated⟩
  · intro safe
    refine ⟨fun long => safe.returns 0 ((bindExpr_eq_panics expr 0).mpr long), ?_⟩
    rintro steady ⟨t, typedExpr⟩
    obtain ⟨e, bound, -⟩ := typedExpr.binds 0
    -- A row without NULL of the columns that the expression reads shows whether all its operands are integers.
    have covered : coversExpr e.getReferencedColumns e = true := by
      rw [coversExpr, all_eq_true]
      exact fun col used => any_eq_true.mpr ⟨col, used, col.equals_self⟩
    obtain ⟨p, offsets⟩ := Option.isSome_iff_exists.mp ((isSome_bindExpr_iff bound.isBuilt (length_map _)).mpr covered)
    have conforms := conforms_someRow e.getReferencedColumns
    obtain ⟨v, evaluated, -⟩ := safe.evaluates 0 e (bindExpr_eq_ok.mpr bound) _ p offsets _ conforms
    rw [eval_bindExpr offsets] at evaluated
    exact bound.isNumeric_iff.mp (isNumeric_of_evalWith (fun _ _ here => type_of_reader conforms here)
      (fun _ _ here => isNull_reader_someRow here) (bound.isSteady steady) evaluated).2

open Ascii

/-- A literal of 33 letters stops the planner, and `'a' + 1` is accepted and stops the executor. -/
theorem literal_and_sum_panic : bindExpr silentPrinter ⟨[]⟩ 0 (.sqlVal .strVal (replicate 33 97)) = .panics ∧
      ∃ e p, bindExpr silentPrinter ⟨[]⟩ 0 (.binary .plus (.sqlVal .strVal [97]) (.sqlVal .intVal [49])) = .ok e ∧
        Planner.bindExpr e [] [] = some p ∧ p.eval [] = none :=
  ⟨rfl, _, _, rfl, rfl, rfl⟩

end GoDB.Planner.LogicalPlanBuilder
