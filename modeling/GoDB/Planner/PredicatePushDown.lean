import GoDB.Planner.Optimizer

/-! The rule that moves filters towards the scans. -/

namespace GoDB.Planner

variable [Identifiers]

def splitPredicate {κ : Type} : Expr κ → List (Expr κ)
  | .logic _ left right .and => splitPredicate left ++ splitPredicate right
  | expr => [expr]

namespace PredicatePushDownRule

/-- A column without an origin is derived. -/
def canPushToScan (expr : LogicalExpr) (tableAlias : String) : Bool :=
  expr.getReferencedColumns.all fun col =>
    match col.origin with
    | none => false
    | some origin => origin.tableAlias = tableAlias

structure Distribution where
  joinType : JoinType
  leftPush : List LogicalExpr
  rightPush : List LogicalExpr
  joinConds : List LogicalExpr
  keep : List LogicalExpr

/-- A condition that neither side can check alone turns a cross join into an inner one. -/
def distribute (left right : LogicalSchema) (d : Distribution) (pred : LogicalExpr) : Distribution :=
  let appliesLeft := left.coversExpr pred
  let appliesRight := right.coversExpr pred
  match d.joinType with
  | .inner =>
    if appliesLeft && !appliesRight then { d with leftPush := d.leftPush ++ [pred] }
    else if appliesRight && !appliesLeft then { d with rightPush := d.rightPush ++ [pred] }
    else { d with joinConds := d.joinConds ++ [pred] }
  | .left =>
    if appliesLeft && !appliesRight then { d with leftPush := d.leftPush ++ [pred] }
    else { d with keep := d.keep ++ [pred] }
  | .right =>
    if appliesRight && !appliesLeft then { d with rightPush := d.rightPush ++ [pred] }
    else { d with keep := d.keep ++ [pred] }
  | .fullOuter => { d with keep := d.keep ++ [pred] }
  | .cross =>
    if appliesLeft && !appliesRight then { d with leftPush := d.leftPush ++ [pred] }
    else if appliesRight && !appliesLeft then { d with rightPush := d.rightPush ++ [pred] }
    else { d with joinType := .inner, joinConds := d.joinConds ++ [pred] }

def distribution (left right : LogicalSchema) (joinType : JoinType) (predicate : LogicalExpr) : Distribution :=
  (splitPredicate predicate).foldl (distribute left right) ⟨joinType, [], [], [], []⟩

/-- Nothing is put above the child when no condition is pushed to it. -/
def pushTo (child : LogicalPlanNode) (preds : List LogicalExpr) : LogicalPlanNode :=
  match mergePredicates preds with
  | none => child
  | some predicate => .newLogicalFilterNode child predicate

/-- A filter with nothing left to check is absorbed. -/
def keepAbove (join : LogicalPlanNode) (keep : List LogicalExpr) (filterRequired : LogicalSchema) : Rewritten :=
  match mergePredicates keep with
  | some kept => ⟨.filter join kept filterRequired, false⟩
  | none => ⟨join, true⟩

def pushThroughJoin (predicate : LogicalExpr) (filterRequired : LogicalSchema) (left right : LogicalPlanNode)
    (joinOn : List LogicalExpr) (joinType : JoinType) (joinRequired : LogicalSchema) : Rewritten :=
  let d := distribution left.outputSchema right.outputSchema joinType predicate
  keepAbove
    (.join (pushTo left d.leftPush) (pushTo right d.rightPush) (joinOn ++ d.joinConds) d.joinType joinRequired) d.keep
    filterRequired

def apply : LogicalPlanNode → Rewritten
  | .filter (.scan tableRef tableOid schema projection predicates scanRequired) predicate required =>
    if canPushToScan predicate tableRef.tableAlias then
      ⟨.scan tableRef tableOid schema projection (predicates ++ [predicate]) scanRequired, true⟩
    else ⟨.filter (.scan tableRef tableOid schema projection predicates scanRequired) predicate required, false⟩
  | .filter (.join left right joinOn joinType joinRequired) predicate required =>
    pushThroughJoin predicate required left right joinOn joinType joinRequired
  | node => ⟨node, false⟩

def matchNode : LogicalPlanNode → Bool
  | .filter _ _ _ => true
  | _ => false

end PredicatePushDownRule

def predicatePushDownRule : LogicalRule where
  matchNode := PredicatePushDownRule.matchNode
  apply node := some (PredicatePushDownRule.apply node)
  postProcess node := some ⟨node, false⟩

end GoDB.Planner
