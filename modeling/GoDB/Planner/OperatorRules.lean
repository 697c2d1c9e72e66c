import GoDB.Catalog.SystemCatalog
import GoDB.Lib.Outcome
import GoDB.Planner.LogicalPlan

/-! The rules that turn the operators with one child into a physical plan. A rule
without a result panics: it was given a node of another kind or a column that is
not there. -/

namespace GoDB.Planner
open Common Lib Catalog

variable [Identifiers]

def Expr.graft {m : Type → Type} [Monad m] {κ μ : Type} (f : κ → m (Expr μ)) : Expr κ → m (Expr μ)
  | .column col => f col
  | .constant val => pure (.constant val)
  | .comparison address left right compType => do
    return .comparison address (← left.graft f) (← right.graft f) compType
  | .logic address left right logicType => do return .logic address (← left.graft f) (← right.graft f) logicType
  | .negation address child => do return .negation address (← child.graft f)
  | .nullCheck address child checkType => do return .nullCheck address (← child.graft f) checkType
  | .arithmetic left right op => do return .arithmetic (← left.graft f) (← right.graft f) op
  | .concat left right => do return .concat (← left.graft f) (← right.graft f)
  | .like address left right => do return .like address (← left.graft f) (← right.graft f)

namespace LimitRule

def apply (node : LogicalPlanNode) (childPlan : PlanNode) : Option PlanNode :=
  match node, childPlan with
  | .limit _ limit _ _, .sort child orderBy => some (.topN child limit orderBy)
  | .limit _ limit _ _, _ => some (.limit childPlan limit)
  | _, _ => none

end LimitRule

namespace ProjectionRule

/-- The expression of the child below for a column of its schema. A column that is not there is reported. -/
def fuseColumn (childLogicalSchema : LogicalSchema) (childExpressions : List PhysicalExpr) (v : LogicalColumn) :
    Outcome LogicalColumn PhysicalExpr :=
  match childLogicalSchema.findIdx? (v.equals ·) with
  | some i => .ofOption childExpressions[i]?
  | none => .error v

def fuseProjectionIntoExpr (childLogicalSchema : LogicalSchema) (childExpressions : List PhysicalExpr) (e : LogicalExpr) :
    Outcome LogicalColumn PhysicalExpr :=
  e.graft (fuseColumn childLogicalSchema childExpressions)

/-- A projection that is attached to a scan reads the columns of the table. -/
def inputSchema : LogicalPlanNode → LogicalSchema
  | .scan _ _ rawOutputSchema _ _ _ => rawOutputSchema
  | child => child.outputSchema

def separate (expressions : List LogicalExpr) (child : LogicalPlanNode) (childPlan : PlanNode) : Option PlanNode := do
  return .projection childPlan (← bindExprs expressions (inputSchema child) childPlan.outputSchema)

/-- A projection on top of a projection becomes one, unless a column is not found. -/
def apply (expressions : List LogicalExpr) (child : LogicalPlanNode) (childPlan : PlanNode) : Option PlanNode :=
  match childPlan with
  | .projection base childExpressions =>
    match expressions.mapM (fuseProjectionIntoExpr child.outputSchema childExpressions) with
    | .ok fused => some (.projection base fused)
    | .error _ => separate expressions child childPlan
    | .panics => none
  | _ => separate expressions child childPlan

end ProjectionRule

namespace ValuesRule

def apply (values : List (List LogicalExpr)) (schema : LogicalSchema) : Option PlanNode := do
  return .values (← values.mapM fun row => bindExprs row [] []) (schema.map (·.ctype))

end ValuesRule

namespace PhysicalPlanBuilder

/-- The plan of the rows that a statement reads or writes. The rules for the other nodes are given. -/
def build (other : LogicalPlanNode → Option PlanNode) : LogicalPlanNode → Option PlanNode
  | .projection child node _ => do ProjectionRule.apply node.expressions child (← build other child)
  | .values values schema _ => ValuesRule.apply values schema
  | node => other node

end PhysicalPlanBuilder
end GoDB.Planner
