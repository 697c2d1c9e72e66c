import GoDB.Planner.Like

/-! Expressions. Those of a logical plan name their columns and those of a
physical plan hold offsets into the row, so the type of a column is a parameter.
The rules compare conditions by pointer: the nodes that a condition can be made
of carry the address they were allocated at. A missing result is a panic. -/

namespace GoDB.Planner
open Common

abbrev Row := List Value

inductive ComparisonType where
  | equal
  | notEqual
  | greaterThan
  | lessThan
  | greaterThanOrEqual
  | lessThanOrEqual
deriving DecidableEq

inductive BinaryLogicType where
  | and
  | or
deriving DecidableEq

inductive NullCheckType where
  | isNull
  | isNotNull
deriving DecidableEq

inductive ArithmeticType where
  | add
  | sub
  | mult
  | div
  | mod
deriving DecidableEq

inductive Expr (κ : Type) where
  | column (col : κ)
  | constant (val : Value)
  | comparison (address : Nat) (left right : Expr κ) (compType : ComparisonType)
  | logic (address : Nat) (left right : Expr κ) (logicType : BinaryLogicType)
  | negation (address : Nat) (child : Expr κ)
  | nullCheck (address : Nat) (child : Expr κ) (checkType : NullCheckType)
  | arithmetic (left right : Expr κ) (op : ArithmeticType)
  | concat (left right : Expr κ)
  | like (address : Nat) (left right : Expr κ)
deriving DecidableEq

def exprIsTrue : Value → Bool
  | .int v => v ≠ 0
  | .string _ | .null _ => false

def exprIsFalse : Value → Bool
  | .int v => v = 0
  | .string _ | .null _ => false

def boolValue (result : Bool) : Value := .int (if result then 1 else 0)

def ComparisonType.holds (compType : ComparisonType) (cmp : Ordering) : Bool :=
  match compType with
  | .equal => cmp = .eq
  | .notEqual => cmp ≠ .eq
  | .greaterThan => cmp = .gt
  | .lessThan => cmp = .lt
  | .greaterThanOrEqual => cmp ≠ .lt
  | .lessThanOrEqual => cmp ≠ .gt

/-- `Compare` asserts that the types agree. -/
def ComparisonType.eval (compType : ComparisonType) (val1 val2 : Value) : Option Value :=
  if val1.isNull ∨ val2.isNull then some (.null .int)
  else if val1.type = val2.type then some (boolValue (compType.holds (val1.compare val2)))
  else none

def BinaryLogicType.eval (logicType : BinaryLogicType) (val1 val2 : Value) : Value :=
  match logicType with
  | .and =>
    if exprIsTrue val1 ∧ exprIsTrue val2 then .int 1
    else if exprIsFalse val1 ∨ exprIsFalse val2 then .int 0
    else .null .int
  | .or =>
    if exprIsTrue val1 ∨ exprIsTrue val2 then .int 1
    else if exprIsFalse val1 ∧ exprIsFalse val2 then .int 0
    else .null .int

def negate (val : Value) : Value := if val.isNull then .null .int else boolValue (!exprIsTrue val)

def NullCheckType.eval (checkType : NullCheckType) (val : Value) : Value :=
  match checkType with
  | .isNull => boolValue val.isNull
  | .isNotNull => boolValue !val.isNull

def ArithmeticType.eval (op : ArithmeticType) (val1 val2 : Value) : Option Value :=
  match val1, val2 with
  | .null _, _ | _, .null _ => some (.null .int)
  | .int v1, .int v2 =>
    match op with
    | .add => some (.int (v1 + v2))
    | .sub => some (.int (v1 - v2))
    | .mult => some (.int (v1 * v2))
    | .div => some (if v2 = 0 then .null .int else .int (v1 / v2))
    | .mod => some (if v2 = 0 then .null .int else .int (v1 % v2))
  | _, _ => none

/-- `NewStringValue` panics on a text that is too long. -/
def concatenate (val1 val2 : Value) : Option Value :=
  match val1, val2 with
  | .null _, _ | _, .null _ => some (.null .string)
  | .string s1, .string s2 =>
    if fits : (s1.val ++ s2.val).length ≤ stringLength then some (.string ⟨s1.val ++ s2.val, fits⟩) else none
  | _, _ => none

namespace Expr
variable {κ μ : Type}

/-- `Eval`, with a way to read a column. Both operands of AND and OR are
evaluated whatever the first one gives. The pattern of a LIKE is not evaluated for NULL. -/
def evalWith (read : κ → Option Value) : Expr κ → Option Value
  | .column col => read col
  | .constant val => some val
  | .comparison _ left right compType => do compType.eval (← left.evalWith read) (← right.evalWith read)
  | .logic _ left right logicType => do return logicType.eval (← left.evalWith read) (← right.evalWith read)
  | .negation _ child => do return negate (← child.evalWith read)
  | .nullCheck _ child checkType => do return checkType.eval (← child.evalWith read)
  | .arithmetic left right op => do op.eval (← left.evalWith read) (← right.evalWith read)
  | .concat left right => do concatenate (← left.evalWith read) (← right.evalWith read)
  | .like _ left right => do
    let val ← left.evalWith read
    if val.isNull then return .null .int else Planner.like val (← right.evalWith read)

def testWith (read : κ → Option Value) (e : Expr κ) : Option Bool := (e.evalWith read).map exprIsTrue

/-- Rebuild the expression with other columns, failing where one has none. -/
def traverse (f : κ → Option μ) : Expr κ → Option (Expr μ)
  | .column col => (f col).map .column
  | .constant val => some (.constant val)
  | .comparison address left right compType => do
    return .comparison address (← left.traverse f) (← right.traverse f) compType
  | .logic address left right logicType => do
    return .logic address (← left.traverse f) (← right.traverse f) logicType
  | .negation address child => do return .negation address (← child.traverse f)
  | .nullCheck address child checkType => do return .nullCheck address (← child.traverse f) checkType
  | .arithmetic left right op => do return .arithmetic (← left.traverse f) (← right.traverse f) op
  | .concat left right => do return .concat (← left.traverse f) (← right.traverse f)
  | .like address left right => do return .like address (← left.traverse f) (← right.traverse f)

/-- The columns under a NULL check or a concatenation are not reported. -/
def getReferencedColumns : Expr κ → List κ
  | .column col => [col]
  | .comparison _ left right _ | .logic _ left right _ | .arithmetic left right _ | .like _ left right =>
    left.getReferencedColumns ++ right.getReferencedColumns
  | .negation _ child => child.getReferencedColumns
  | .constant _ | .nullCheck _ _ _ | .concat _ _ => []

def outputType (typeOf : κ → FieldType) : Expr κ → FieldType
  | .column col => typeOf col
  | .constant val => val.type
  | .concat _ _ => .string
  | .comparison _ _ _ _ | .logic _ _ _ _ | .negation _ _ | .nullCheck _ _ _ | .arithmetic _ _ _ | .like _ _ _ => .int

/-- What the statements of the front end are built from: it has neither NULL
checks nor concatenations nor LIKE. -/
def isBuilt : Expr κ → Bool
  | .column _ | .constant _ => true
  | .comparison _ left right _ | .logic _ left right _ | .arithmetic left right _ => left.isBuilt && right.isBuilt
  | .negation _ child => child.isBuilt
  | .nullCheck _ _ _ | .concat _ _ | .like _ _ _ => false

/-- AND, OR and NOT over comparisons. -/
def isPredicate : Expr κ → Bool
  | .comparison _ left right _ => left.isBuilt && right.isBuilt
  | .logic _ left right _ => left.isPredicate && right.isPredicate
  | .negation _ child => child.isPredicate
  | .column _ | .constant _ | .nullCheck _ _ _ | .arithmetic _ _ _ | .concat _ _ | .like _ _ _ => false

/-- AND, OR and NOT over comparisons, NULL checks and LIKE of any expressions. -/
def isCondition : Expr κ → Bool
  | .comparison _ _ _ _ | .nullCheck _ _ _ | .like _ _ _ => true
  | .logic _ left right _ => left.isCondition && right.isCondition
  | .negation _ child => child.isCondition
  | .column _ | .constant _ | .arithmetic _ _ _ | .concat _ _ => false

/-- The binder compares values of one type only. -/
def isTyped (typeOf : κ → FieldType) : Expr κ → Bool
  | .comparison _ left right _ =>
    left.outputType typeOf = right.outputType typeOf && left.isTyped typeOf && right.isTyped typeOf
  | .logic _ left right _ | .arithmetic left right _ | .concat left right | .like _ left right =>
    left.isTyped typeOf && right.isTyped typeOf
  | .negation _ child | .nullCheck _ child _ => child.isTyped typeOf
  | .column _ | .constant _ => true

end Expr

/-- No condition is kept or dropped by the address of a node made here. -/
def conjunction {κ : Type} (left right : Expr κ) : Expr κ := .logic 0 left right .and

/-- There is nothing to merge in an empty list. -/
def mergePredicates {κ : Type} : List (Expr κ) → Option (Expr κ)
  | [] => none
  | first :: rest => some (rest.foldl conjunction first)

end GoDB.Planner
