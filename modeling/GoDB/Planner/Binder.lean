import GoDB.Catalog.SystemCatalog
import GoDB.Common.Successor
import GoDB.Lib.Outcome
import GoDB.Planner.LogicalPlan
import GoDB.Planner.PlanError

/-! The binder of the front end: names are looked up in a scope, and the parser's
expressions become logical ones. -/

namespace GoDB.Planner
open Common Lib Catalog

/-- `sqlparser.String`, by which calls of functions are looked up. -/
structure SqlPrinter where
  expr : SqlExpr → String
  selectExpr : SelectExpr → String
  selectStatement : SelectStatement → String

structure SourceTable where
  tableRef : TableRef
  schema : LogicalSchema
  table : Option CatalogTable

structure FromScope where
  sourceTables : List SourceTable

def SourceTable.isAggregated (source : SourceTable) : Bool := "agg".toList.isPrefixOf source.tableRef.tableAlias.toList

variable [Identifiers]

namespace FromScope
variable (scope : FromScope)

def visible (qualifier : String) : List SourceTable :=
  scope.sourceTables.filter fun source =>
    qualifier = "" || source.isAggregated || source.tableRef.tableAlias = qualifier

def findInScope (name : String) : Option LogicalColumn :=
  (scope.sourceTables.flatMap (·.schema)).find? (equalFold ·.cname name)

end FromScope

def columnsNamed (sources : List SourceTable) (name : String) : List LogicalColumn :=
  (sources.flatMap (·.schema)).filter (equalString name ·.cname)

/-- The loop gives up at the second column of the name. -/
def onlyColumn (found : List LogicalColumn) (ambiguous absent : PlanError) : Outcome PlanError LogicalColumn :=
  match found with
  | [] => .error absent
  | [col] => .ok col
  | _ :: _ :: _ => .error ambiguous

namespace LogicalPlanBuilder

def bindColumn (scope : FromScope) (qualifier name : String) : Outcome PlanError LogicalColumn :=
  onlyColumn (columnsNamed (scope.visible qualifier) name) (.ambiguousReference name) (.referenceNotFound name)

def bindUnqualifiedCol (scope : FromScope) (name : String) : Outcome PlanError LogicalColumn :=
  onlyColumn (columnsNamed scope.sourceTables name) (.ambiguousColumn name) (.columnNotFound name)

/-- `NewStringValue` asserts that the text is not too long. -/
def bindConstant (type : ValType) (val : List Byte) : Outcome PlanError LogicalExpr :=
  match type with
  | .strVal | .hexVal => do return .constant (← .ofOption (newStringValue val))
  | .intVal =>
    match parseInt val with
    | some i => .ok (.constant (.int i))
    | none => .error (.intSyntax val)
  | .floatVal | .hexNum | .valArg | .bitVal => .error (.constantType type)

def sqlOpToComparisonType : ComparisonOperator → Option ComparisonType
  | .equal => some .equal
  | .notEqual => some .notEqual
  | .greaterThan => some .greaterThan
  | .lessThan => some .lessThan
  | .greaterEqual => some .greaterThanOrEqual
  | .lessEqual => some .lessThanOrEqual
  | .nullSafeEqual | .in_ | .notIn | .like | .notLike | .regexp | .notRegexp => none

def sqlOpToArithmeticType : BinaryOperator → Option ArithmeticType
  | .plus => some .add
  | .minus => some .sub
  | .mult => some .mult
  | .div => some .div
  | .mod => some .mod
  | .bitAnd | .bitOr | .bitXor | .intDiv | .shiftLeft | .shiftRight => none

/-- The types are compared before the operator is looked at. -/
def compared (address : Nat) (left right : LogicalExpr) (operator : ComparisonOperator) : Outcome PlanError LogicalExpr :=
  if left.outputType = right.outputType then
    match sqlOpToComparisonType operator with
    | some compType => .ok (.comparison address left right compType)
    | none => .error (.comparisonOperator operator)
  else .error .comparedTypes

def computed (left right : LogicalExpr) (operator : BinaryOperator) : Outcome PlanError LogicalExpr :=
  match sqlOpToArithmeticType operator with
  | some op => .ok (.arithmetic left right op)
  | none => .error (.binaryOperator operator)

section
variable (printer : SqlPrinter) (scope : FromScope)

/-- The column of an aggregation goes by the text of the call. -/
def calledColumn (name : String) (distinct : Bool) (exprs : List SelectExpr) : Option LogicalColumn :=
  (scope.findInScope (printer.expr (.func name distinct exprs))).or <|
    if equalFold name "COUNT" then
      match exprs with
      | [.star _] => scope.findInScope "COUNT(1)"
      | [.aliased expr as] => scope.findInScope ("COUNT(" ++ printer.selectExpr (.aliased expr as) ++ ")")
      | _ => none
    else none

def bindCall (name : String) (distinct : Bool) (exprs : List SelectExpr) : Outcome PlanError LogicalExpr :=
  match calledColumn printer scope name distinct exprs with
  | some col => .ok (.column col)
  | none => .error (.unsupportedFunction (printer.expr (.func name distinct exprs)))

/-- The nodes that binding an expression allocates. -/
def nodes : SqlExpr → Nat
  | .comparison _ left right | .and left right | .or left right | .binary _ left right => nodes left + nodes right + 1
  | .not expr => nodes expr + 1
  | .paren expr => nodes expr
  | .colName _ _ | .sqlVal _ _ | .nullVal | .is _ _ | .func _ _ _ | .other _ _ => 0

/-- The nodes of the result are allocated one after the other from `address` on. -/
def bindExpr (address : Nat) : SqlExpr → Outcome PlanError LogicalExpr
  | .nullVal => .error .nullUnsupported
  | .colName qualifier name => do return .column (← bindColumn scope qualifier name)
  | .sqlVal type val => bindConstant type val
  | .comparison operator left right => do
    let l ← bindExpr (address + 1) left
    let r ← bindExpr (address + 1 + nodes left) right
    compared address l r operator
  | .and left right => do
    let l ← bindExpr (address + 1) left
    let r ← bindExpr (address + 1 + nodes left) right
    return .logic address l r .and
  | .or left right => do
    let l ← bindExpr (address + 1) left
    let r ← bindExpr (address + 1 + nodes left) right
    return .logic address l r .or
  | .not expr => do return .negation address (← bindExpr (address + 1) expr)
  | .binary operator left right => do
    let l ← bindExpr (address + 1) left
    let r ← bindExpr (address + 1 + nodes left) right
    computed l r operator
  | .is _ _ => .error .isUnsupported
  | .paren expr => bindExpr address expr
  | .func name distinct exprs => bindCall printer scope name distinct exprs
  | .other typeName _ => .error (.unsupportedExpression typeName)

end

end LogicalPlanBuilder
end GoDB.Planner
