import GoDB.Planner.LogicalPlan

/-! Rules that rewrite logical plans, and the optimizer that takes one of them through a tree. Nodes
are compared by pointer and rules may change them in place, so a rewriting tells whether the node it
returns is another one. There is no result where the source panics. -/

namespace GoDB.Planner

structure Rewritten where
  node : LogicalPlanNode
  changed : Bool

namespace LogicalPlanNode

def children : LogicalPlanNode → List LogicalPlanNode
  | .scan _ _ _ _ _ _ | .values _ _ _ => []
  | .filter child _ _ | .projection child _ _ | .aggregation child _ _ _ | .sort child _ _ | .limit child _ _ _
  | .subquery _ child _ _ | .insert _ child _ | .delete _ child _ | .update _ child _ _ => [child]
  | .join left right _ _ _ => [left, right]

/-- Children that were changed in place. -/
def keepChildren : LogicalPlanNode → List LogicalPlanNode → LogicalPlanNode
  | .filter _ predicate required, [child] => .filter child predicate required
  | .projection _ node required, [child] => .projection child node required
  | .aggregation _ groupBy aggregates required, [child] => .aggregation child groupBy aggregates required
  | .sort _ orderBy required, [child] => .sort child orderBy required
  | .limit _ count offset required, [child] => .limit child count offset required
  | .subquery tableRef _ schema required, [child] => .subquery tableRef child schema required
  | .insert tableOid _ required, [child] => .insert tableOid child required
  | .delete tableOid _ required, [child] => .delete tableOid child required
  | .update tableOid _ updates required, [child] => .update tableOid child updates required
  | .join _ _ joinOn joinType required, [left, right] => .join left right joinOn joinType required
  | node, _ => node

def setChildren : LogicalPlanNode → List LogicalPlanNode → Option LogicalPlanNode
  | .projection _ node _, [child] => some (newLogicalProjectionNode child node.expressions node.outputSchema)
  | .filter _ predicate _, [child] => some (newLogicalFilterNode child predicate)
  | .sort _ orderBy _, [child] => some (newLogicalSortNode child orderBy)
  | .limit _ count offset _, [child] => some (newLogicalLimitNode child count offset)
  | .aggregation _ groupBy aggregates _, [child] => some (newLogicalAggregationNode child groupBy aggregates)
  | .join _ _ joinOn joinType _, [left, right] => some (newLogicalJoinNode left right joinOn joinType)
  | .insert tableOid _ _, [child] => some (newLogicalInsertNode tableOid child)
  | .delete tableOid _ _, [child] => some (newLogicalDeleteNode tableOid child)
  | .update tableOid _ updates _, [child] => some (newLogicalUpdateNode tableOid child updates)
  | .subquery tableRef _ schema _, [child] => some (newLogicalSubqueryNode tableRef schema child)
  | _, _ => none

/-- Children that are the same nodes as before need not be put back. -/
def attach (node : LogicalPlanNode) (newChildren : List Rewritten) : Option LogicalPlanNode :=
  if newChildren.any (·.changed) then node.setChildren (newChildren.map (·.node))
  else some (node.keepChildren (newChildren.map (·.node)))

end LogicalPlanNode

structure LogicalRule where
  matchNode : LogicalPlanNode → Bool
  apply : LogicalPlanNode → Option Rewritten
  postProcess : LogicalPlanNode → Option Rewritten

namespace LogicalRule

def applyMatching (rule : LogicalRule) (node : LogicalPlanNode) : Option Rewritten :=
  if rule.matchNode node then rule.apply node else some ⟨node, false⟩

def postProcessMatching (rule : LogicalRule) (node : LogicalPlanNode) : Option Rewritten :=
  if rule.matchNode node then rule.postProcess node else some ⟨node, false⟩

end LogicalRule

/-- The rule is applied until it returns the node it was given, then the children have their turn. -/
def optimizeWithRule (rule : LogicalRule) : Nat → LogicalPlanNode → Option Rewritten
  | 0, _ => none
  | fuel + 1, node => do
    let applied ← rule.applyMatching node
    if applied.changed then
      return ⟨(← optimizeWithRule rule fuel applied.node).node, true⟩
    else
      let newChildren ← applied.node.children.mapM (optimizeWithRule rule fuel)
      let last ← rule.postProcessMatching (← applied.node.attach newChildren)
      return ⟨last.node, newChildren.any (·.changed) || last.changed⟩

end GoDB.Planner
