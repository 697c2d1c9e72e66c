import GoDB.Planner.Plan

/-! The rules that turn a join into a physical plan. A rule without a result
returns an error or panics. -/

namespace GoDB.Planner
open Common

variable [Identifiers]

/-- The equalities between the two sides that a condition is mined for, each as a
key of the left side and one of the right. -/
def isEquiJoin (leftSchema rightSchema : LogicalSchema) : LogicalExpr → Option (List (LogicalExpr × LogicalExpr))
  | .comparison _ leftExpr rightExpr .equal =>
    if leftSchema.coversExpr leftExpr ∧ rightSchema.coversExpr rightExpr then some [(leftExpr, rightExpr)]
    else if leftSchema.coversExpr rightExpr ∧ rightSchema.coversExpr leftExpr then some [(rightExpr, leftExpr)]
    else none
  | .logic _ left right .and =>
    let keys := (isEquiJoin leftSchema rightSchema left).getD [] ++ (isEquiJoin leftSchema rightSchema right).getD []
    if keys.isEmpty then none else some keys
  | _ => none

structure JoinKeyPair where
  left : LogicalExpr
  right : LogicalExpr
  originalExpr : LogicalExpr

def getEquiJoinKeys (n : LogicalJoinNode) : List JoinKeyPair :=
  n.joinOn.flatMap fun cond =>
    ((isEquiJoin n.left.outputSchema n.right.outputSchema cond).getD []).map fun key => ⟨key.1, key.2, cond⟩

def getNonEquiConditions (n : LogicalJoinNode) (equiKeys : List JoinKeyPair) : List LogicalExpr :=
  n.joinOn.filter fun cond => cond ∉ equiKeys.map (·.originalExpr)

/-- What the hash and the sort-merge rule do alike. -/
def applyEquiJoin (node : PlanNode → PlanNode → List PhysicalExpr → List PhysicalExpr → PlanNode)
    (join : LogicalJoinNode) (leftPlan rightPlan : PlanNode) : Option PlanNode := do
  let keys := getEquiJoinKeys join
  let physLeftKeys ← bindExprs (keys.map (·.left)) join.left.outputSchema leftPlan.outputSchema
  let physRightKeys ← bindExprs (keys.map (·.right)) join.right.outputSchema rightPlan.outputSchema
  wrapInFilter (node leftPlan rightPlan physLeftKeys physRightKeys) (getNonEquiConditions join keys)
    (join.left.outputSchema ++ join.right.outputSchema)

namespace HashJoinRule

def isMatch (join : LogicalJoinNode) : Bool := !(getEquiJoinKeys join).isEmpty

def apply (join : LogicalJoinNode) (leftPlan rightPlan : PlanNode) : Option PlanNode :=
  applyEquiJoin .hashJoin join leftPlan rightPlan

end HashJoinRule

namespace SortMergeJoinRule

/-- An index scan or a projection on top of one. -/
def isSorted : PlanNode → Bool
  | .indexScan _ _ _ _ _ | .projection (.indexScan _ _ _ _ _) _ => true
  | _ => false

def isMatch (join : LogicalJoinNode) (leftPlan rightPlan : PlanNode) : Bool :=
  !(getEquiJoinKeys join).isEmpty && isSorted leftPlan && isSorted rightPlan

def apply (join : LogicalJoinNode) (leftPlan rightPlan : PlanNode) : Option PlanNode :=
  applyEquiJoin .sortMergeJoin join leftPlan rightPlan

end SortMergeJoinRule

namespace BlockNestedLoopJoinRule

def materialized (rightPlan : PlanNode) : PlanNode :=
  match rightPlan with
  | .seqScan _ _ | .indexScan _ _ _ _ _ | .indexLookup _ _ _ _ | .materialize _ => rightPlan
  | _ => .materialize rightPlan

def apply (join : LogicalJoinNode) (leftPlan rightPlan : PlanNode) : Option PlanNode := do
  let rightPlan := materialized rightPlan
  let finalPred := (mergePredicates join.joinOn).getD (.constant (.int 1))
  let physPred ← bindExpr finalPred (join.left.outputSchema ++ join.right.outputSchema)
    (leftPlan.outputSchema ++ rightPlan.outputSchema)
  return .nestedLoopJoin leftPlan rightPlan physPred

end BlockNestedLoopJoinRule

structure JoinIndexMatch where
  probeKeys : List LogicalExpr
  matchedJoinOns : List LogicalExpr

def keyOn (equiKeys : List JoinKeyPair) (idxCol : String) : Option JoinKeyPair :=
  equiKeys.find? fun pair =>
    match pair.right with
    | .column rightCol => rightCol.cname = idxCol
    | _ => false

/-- Stops at the first column of the index without a pair. -/
def analyzeJoinIndex (equiKeys : List JoinKeyPair) : List String → JoinIndexMatch
  | [] => ⟨[], []⟩
  | idxCol :: rest =>
    match keyOn equiKeys idxCol with
    | none => ⟨[], []⟩
    | some pair =>
      let rest := analyzeJoinIndex equiKeys rest
      ⟨pair.left :: rest.probeKeys, pair.originalExpr :: rest.matchedJoinOns⟩

def getIdentityPhysicalExprs (logicalSchema : LogicalSchema) (physicalInputSchema : List FieldType) :
    Option (List PhysicalExpr) :=
  bindExprs (logicalSchema.map .column) logicalSchema physicalInputSchema

namespace IndexNestedLoopJoinRule

/-- An index without columns would be an index out of range. -/
def isMatch (join : LogicalJoinNode) (c : Catalog) : Bool :=
  match join.right with
  | .other _ => false
  | .scan rightScan =>
    match c.getTableByOid rightScan.tableOid with
    | none => false
    | some table => table.indexes.any fun idx => idx.keySchema.head?.any fun first =>
        (keyOn (getEquiJoinKeys join) first).isSome

def chooseIndex (equiKeys : List JoinKeyPair) (table : Catalog.Table) : Option (Catalog.Index × JoinIndexMatch) :=
  table.indexes.findSome? fun idx =>
    let found := analyzeJoinIndex equiKeys idx.keySchema
    if found.probeKeys.length = idx.keySchema.length then some (idx, found) else none

def apply (join : LogicalJoinNode) (leftPlan rightPlan : PlanNode) (c : Catalog) : Option PlanNode :=
  match join.right with
  | .other _ => none
  | .scan rightScan => do
    let table ← c.getTableByOid rightScan.tableOid
    let (bestIdx, bestMatch) ← chooseIndex (getEquiJoinKeys join) table
    let physProbeKeys ← bindExprs bestMatch.probeKeys join.left.outputSchema leftPlan.outputSchema
    let joinNode := PlanNode.indexNestedLoopJoin leftPlan rightScan.tableOid bestIdx.oid physProbeKeys
      (tableSchemaToTypes table)
    let residuals := join.joinOn.filter (· ∉ bestMatch.matchedJoinOns)
    let fullLogicalSchema := join.left.outputSchema ++ join.right.outputSchema
    match rightScan.projection, rightPlan with
    | none, _ => wrapInFilter joinNode residuals fullLogicalSchema
    | some _, .projection _ expressions =>
      let fullProjections ← getIdentityPhysicalExprs join.left.outputSchema leftPlan.outputSchema
      let leftWidth := fullProjections.length
      wrapInFilter (.projection joinNode (fullProjections ++ expressions.map (shiftExpr leftWidth))) residuals
        fullLogicalSchema
    | some _, _ => none

end IndexNestedLoopJoinRule
end GoDB.Planner
