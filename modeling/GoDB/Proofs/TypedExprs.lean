import GoDB.Proofs.PredicateTerms

/-! Expressions evaluate to values of their types, and evaluate at all when the
operands of comparisons have one type and those of arithmetic are integers. -/

namespace GoDB.Planner
open Common Lib Planner.Expr Bool Option ArithmeticType

variable {κ : Type}

namespace Expr

def isNumeric (typeOf : κ → FieldType) : Expr κ → Bool
  | .arithmetic left right _ =>
    left.outputType typeOf = .int && right.outputType typeOf = .int && left.isNumeric typeOf && right.isNumeric typeOf
  | .comparison _ left right _ | .logic _ left right _ | .concat left right | .like _ left right =>
    left.isNumeric typeOf && right.isNumeric typeOf
  | .negation _ child | .nullCheck _ child _ => child.isNumeric typeOf
  | .column _ | .constant _ => true

def isDivisor : Expr κ → Bool
  | .constant (.int v) => v ≠ 0
  | _ => false

/-- No operation turns values into NULL. The front end has no NULL of its own; what is left are divisions by zero,
and AND and OR, which take a text for neither true nor false. -/
def isSteady (typeOf : κ → FieldType) : Expr κ → Bool
  | .column _ => true
  | .constant val => !val.isNull
  | .comparison _ left right _ => left.isSteady typeOf && right.isSteady typeOf
  | .logic _ left right _ =>
    left.outputType typeOf = .int && right.outputType typeOf = .int && left.isSteady typeOf && right.isSteady typeOf
  | .arithmetic left right op =>
    left.isSteady typeOf && right.isSteady typeOf && ((op ≠ .div && op ≠ .mod) || right.isDivisor)
  | .negation _ child => child.isSteady typeOf
  | .nullCheck _ _ _ | .concat _ _ | .like _ _ _ => false

end Expr

section Operators
variable {val1 val2 result : Value}

theorem IsTruth.type (truth : IsTruth val1) : val1.type = .int := by
  rcases truth with rfl | rfl | rfl <;> rfl

variable {op : ArithmeticType}

theorem type_arithmetic (evaluated : op.eval val1 val2 = some result) : result.type = .int := by
  unfold eval at evaluated
  split at evaluated
  · cases evaluated
    rfl
  · cases evaluated
    rfl
  · cases op
    all_goals
      simp only [some.injEq] at evaluated
      subst evaluated
      first | rfl | (split <;> rfl)
  · cases evaluated

theorem exists_comparison (compType : ComparisonType) (same : val1.type = val2.type) :
    ∃ result, compType.eval val1 val2 = some result := by
  unfold ComparisonType.eval
  rw [if_pos same]
  split <;> exact ⟨_, rfl⟩

theorem exists_arithmetic (op : ArithmeticType) (int1 : val1.type = .int) (int2 : val2.type = .int) :
    ∃ result, op.eval val1 val2 = some result := by
  cases val1 with
  | null => exact ⟨_, rfl⟩
  | string => cases int1
  | int v1 =>
    cases val2 with
    | null => exact ⟨_, rfl⟩
    | string => cases int2
    | int v2 => cases op <;> exact ⟨_, rfl⟩

theorem known_arithmetic (known1 : val1.isNull = false) (known2 : val2.isNull = false)
    (divisor : op = .div ∨ op = .mod → val2 ≠ .int 0) (evaluated : op.eval val1 val2 = some result) :
    result.isNull = false ∧ val1.type = .int ∧ val2.type = .int := by
  cases val1 with
  | null => cases known1
  | string => cases val2 <;> cases evaluated; cases known2
  | int v1 =>
    cases val2 with
    | null => cases known2
    | string => cases evaluated
    | int v2 =>
      refine ⟨?_, rfl, rfl⟩
      have nonzero (division : op = .div ∨ op = .mod) : v2 ≠ 0 := fun zero => divisor division (zero ▸ rfl)
      cases op with
      | add | sub | mult =>
        cases evaluated
        rfl
      | div =>
        simp only [eval, if_neg (nonzero (.inl rfl)), some.injEq] at evaluated
        subst evaluated
        rfl
      | mod =>
        simp only [eval, if_neg (nonzero (.inr rfl)), some.injEq] at evaluated
        subst evaluated
        rfl

theorem known_comparison {compType : ComparisonType} (known1 : val1.isNull = false) (known2 : val2.isNull = false)
    (evaluated : compType.eval val1 val2 = some result) : result.isNull = false := by
  unfold ComparisonType.eval at evaluated
  rw [if_neg (by simp [known1, known2])] at evaluated
  split at evaluated
  · cases evaluated
    rfl
  · cases evaluated

theorem exprIsFalse_eq_not (known : val1.isNull = false) (int : val1.type = .int) : exprIsFalse val1 = !exprIsTrue val1 := by
  cases val1 with
  | null => cases known
  | string => cases int
  | int v => simp [exprIsFalse, exprIsTrue]

theorem known_logic (logicType : BinaryLogicType) (false1 : exprIsFalse val1 = !exprIsTrue val1)
    (false2 : exprIsFalse val2 = !exprIsTrue val2) : (logicType.eval val1 val2).isNull = false := by
  unfold BinaryLogicType.eval
  rw [false1, false2]
  cases logicType <;> cases exprIsTrue val1 <;> cases exprIsTrue val2 <;> rfl

theorem known_negate (known : val1.isNull = false) : (negate val1).isNull = false := by
  rw [negate, known]
  rfl

end Operators

variable {read : κ → Option Value} {typeOf : κ → FieldType} {e : Expr κ}

section
variable (typed : ∀ col v, read col = some v → v.type = typeOf col)

include typed

theorem type_of_evalWith (built : e.isBuilt = true)
    {v : Value} (evaluated : e.evalWith read = some v) : v.type = e.outputType typeOf := by
  cases e with
  | column col => exact typed col v evaluated
  | constant val =>
    cases evaluated
    rfl
  | comparison address left right compType =>
    simp only [evalWith, bind_eq_some] at evaluated
    obtain ⟨val1, -, val2, -, compared⟩ := evaluated
    exact (isTruth_comparison compared).type
  | logic address left right logicType =>
    obtain ⟨val1, -, val2, -, rfl⟩ := evalWith_logic.mp evaluated
    exact (isTruth_logic logicType val1 val2).type
  | negation address child =>
    obtain ⟨inner, -, rfl⟩ := evalWith_negation.mp evaluated
    exact (isTruth_negate inner).type
  | arithmetic left right op =>
    simp only [evalWith, bind_eq_some] at evaluated
    obtain ⟨val1, -, val2, -, computed⟩ := evaluated
    exact type_arithmetic computed
  | nullCheck | concat | like => cases built

theorem exists_evalWith (built : e.isBuilt = true)
    (compared : e.isTyped typeOf = true) (numeric : e.isNumeric typeOf = true)
    (readable : ∀ col ∈ e.getReferencedColumns, (read col).isSome = true) : ∃ v, e.evalWith read = some v := by
  induction e with
  | column col => exact isSome_iff_exists.mp (readable col (List.mem_singleton_self col))
  | constant val => exact ⟨val, rfl⟩
  | comparison address left right compType ihLeft ihRight =>
    simp only [isBuilt, isTyped, isNumeric, and_eq_true, decide_eq_true_eq] at built compared numeric
    simp only [getReferencedColumns, List.forall_mem_append] at readable
    obtain ⟨val1, first⟩ := ihLeft built.1 compared.1.2 numeric.1 readable.1
    obtain ⟨val2, second⟩ := ihRight built.2 compared.2 numeric.2 readable.2
    have same : val1.type = val2.type := by
      rw [type_of_evalWith typed built.1 first, type_of_evalWith typed built.2 second, compared.1.1]
    obtain ⟨result, evaluated⟩ := exists_comparison compType same
    exact ⟨result, by simp only [evalWith, first, second, bind_eq_bind, bind_some, evaluated]⟩
  | logic address left right logicType ihLeft ihRight =>
    simp only [isBuilt, isTyped, isNumeric, and_eq_true] at built compared numeric
    simp only [getReferencedColumns, List.forall_mem_append] at readable
    obtain ⟨val1, first⟩ := ihLeft built.1 compared.1 numeric.1 readable.1
    obtain ⟨val2, second⟩ := ihRight built.2 compared.2 numeric.2 readable.2
    exact ⟨_, evalWith_logic.mpr ⟨val1, first, val2, second, rfl⟩⟩
  | negation address child ih =>
    obtain ⟨inner, evaluated⟩ := ih built compared numeric readable
    exact ⟨_, evalWith_negation.mpr ⟨inner, evaluated, rfl⟩⟩
  | arithmetic left right op ihLeft ihRight =>
    simp only [isBuilt, isTyped, isNumeric, and_eq_true, decide_eq_true_eq] at built compared numeric
    simp only [getReferencedColumns, List.forall_mem_append] at readable
    obtain ⟨⟨⟨intLeft, intRight⟩, numericLeft⟩, numericRight⟩ := numeric
    obtain ⟨val1, first⟩ := ihLeft built.1 compared.1 numericLeft readable.1
    obtain ⟨val2, second⟩ := ihRight built.2 compared.2 numericRight readable.2
    obtain ⟨result, evaluated⟩ := exists_arithmetic op
      ((type_of_evalWith typed built.1 first).trans intLeft) ((type_of_evalWith typed built.2 second).trans intRight)
    exact ⟨result, by simp only [evalWith, first, second, bind_eq_bind, bind_some, evaluated]⟩
  | nullCheck | concat | like => cases built

omit typed in
theorem isBuilt_of_isSteady (steady : e.isSteady typeOf = true) : e.isBuilt = true := by
  induction e with
  | column | constant => rfl
  | comparison address left right op ihLeft ihRight =>
    simp only [isSteady, and_eq_true] at steady
    exact and_eq_true_iff.mpr ⟨ihLeft steady.1, ihRight steady.2⟩
  | logic address left right op ihLeft ihRight =>
    simp only [isSteady, and_eq_true] at steady
    exact and_eq_true_iff.mpr ⟨ihLeft steady.1.2, ihRight steady.2⟩
  | arithmetic left right op ihLeft ihRight =>
    simp only [isSteady, and_eq_true] at steady
    exact and_eq_true_iff.mpr ⟨ihLeft steady.1.1, ihRight steady.1.2⟩
  | negation address child ih => exact ih steady
  | nullCheck | concat | like => cases steady

omit typed in
theorem ne_zero_of_isDivisor (divisor : e.isDivisor = true) {val : Value} (evaluated : e.evalWith read = some val) :
    val ≠ .int 0 := by
  unfold isDivisor at divisor
  split at divisor
  · cases evaluated
    intro zero
    cases zero
    cases divisor
  · cases divisor

theorem isNumeric_of_evalWith (known : ∀ col v, read col = some v → v.isNull = false) (steady : e.isSteady typeOf = true)
    {v : Value} (evaluated : e.evalWith read = some v) : v.isNull = false ∧ e.isNumeric typeOf = true := by
  induction e generalizing v with
  | column col => exact ⟨known col v evaluated, rfl⟩
  | constant val =>
    cases evaluated
    exact ⟨by simpa [isSteady] using steady, rfl⟩
  | comparison address left right compType ihLeft ihRight =>
    simp only [isSteady, and_eq_true] at steady
    simp only [evalWith, bind_eq_some] at evaluated
    obtain ⟨val1, first, val2, second, compared⟩ := evaluated
    obtain ⟨known1, numericLeft⟩ := ihLeft steady.1 first
    obtain ⟨known2, numericRight⟩ := ihRight steady.2 second
    exact ⟨known_comparison known1 known2 compared, and_eq_true_iff.mpr ⟨numericLeft, numericRight⟩⟩
  | logic address left right logicType ihLeft ihRight =>
    simp only [isSteady, and_eq_true, decide_eq_true_eq] at steady
    obtain ⟨⟨⟨intLeft, intRight⟩, steadyLeft⟩, steadyRight⟩ := steady
    obtain ⟨val1, first, val2, second, rfl⟩ := evalWith_logic.mp evaluated
    obtain ⟨known1, numericLeft⟩ := ihLeft steadyLeft first
    obtain ⟨known2, numericRight⟩ := ihRight steadyRight second
    have false1 := exprIsFalse_eq_not known1 ((type_of_evalWith typed (isBuilt_of_isSteady steadyLeft) first).trans intLeft)
    have false2 := exprIsFalse_eq_not known2
      ((type_of_evalWith typed (isBuilt_of_isSteady steadyRight) second).trans intRight)
    exact ⟨known_logic logicType false1 false2, and_eq_true_iff.mpr ⟨numericLeft, numericRight⟩⟩
  | negation address child ih =>
    obtain ⟨inner, below, rfl⟩ := evalWith_negation.mp evaluated
    obtain ⟨knownInner, numeric⟩ := ih steady below
    exact ⟨known_negate knownInner, numeric⟩
  | arithmetic left right op ihLeft ihRight =>
    simp only [isSteady, and_eq_true, or_eq_true, decide_eq_true_eq] at steady
    obtain ⟨⟨steadyLeft, steadyRight⟩, dividing⟩ := steady
    simp only [evalWith, bind_eq_some] at evaluated
    obtain ⟨val1, first, val2, second, computed⟩ := evaluated
    obtain ⟨known1, numericLeft⟩ := ihLeft steadyLeft first
    obtain ⟨known2, numericRight⟩ := ihRight steadyRight second
    have nonzero (division : op = .div ∨ op = .mod) : val2 ≠ .int 0 :=
      ne_zero_of_isDivisor (dividing.resolve_left fun other => division.elim other.1 other.2) second
    obtain ⟨knownResult, int1, int2⟩ := known_arithmetic known1 known2 nonzero computed
    have intLeft := (type_of_evalWith typed (isBuilt_of_isSteady steadyLeft) first).symm.trans int1
    have intRight := (type_of_evalWith typed (isBuilt_of_isSteady steadyRight) second).symm.trans int2
    exact ⟨knownResult, by simp [isNumeric, intLeft, intRight, numericLeft, numericRight]⟩
  | nullCheck | concat | like => cases steady

end

end GoDB.Planner
