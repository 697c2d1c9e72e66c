import GoDB.Catalog.Tables
import GoDB.Indexing.Scan
import GoDB.Planner.Schema

/-! The nodes of a physical plan, and the logical nodes that the scan and join
rules turn into them. -/

namespace GoDB.Planner
open Common Indexing

inductive SortDirection where
  | ascending
  | descending
deriving DecidableEq

structure OrderByClause (κ : Type) where
  expr : Expr κ
  direction : SortDirection

inductive AggregatorType where
  | count
  | sum
  | min
  | max
deriving DecidableEq

structure AggregateClause (κ : Type) where
  type : AggregatorType
  expr : Expr κ

inductive PlanNode where
  | seqScan (tableOid : ObjectID) (outputSchema : List FieldType)
  | indexScan (indexOid tableOid : ObjectID) (outputSchema : List FieldType) (direction : ScanDirection) (startKey : Key)
  | indexLookup (indexOid tableOid : ObjectID) (outputSchema : List FieldType) (equalityKey : Key)
  | filter (child : PlanNode) (predicate : PhysicalExpr)
  | projection (child : PlanNode) (expressions : List PhysicalExpr)
  | materialize (child : PlanNode)
  | nestedLoopJoin (left right : PlanNode) (predicate : PhysicalExpr)
  | hashJoin (left right : PlanNode) (leftKeys rightKeys : List PhysicalExpr)
  | sortMergeJoin (left right : PlanNode) (leftKeys rightKeys : List PhysicalExpr)
  | indexNestedLoopJoin (left : PlanNode) (rightTableOid rightIndexOid : ObjectID) (leftKeys : List PhysicalExpr)
      (innerSchema : List FieldType)
  | values (values : List (List PhysicalExpr)) (schema : List FieldType)
  | limit (child : PlanNode) (limit : Int)
  | sort (child : PlanNode) (orderBy : List (OrderByClause BoundValueExpr))
  | topN (child : PlanNode) (limit : Int) (orderBy : List (OrderByClause BoundValueExpr))
  | aggregate (child : PlanNode) (groupByClause : List PhysicalExpr) (aggClauses : List (AggregateClause BoundValueExpr))

def PlanNode.outputSchema : PlanNode → List FieldType
  | .seqScan _ outputSchema | .indexScan _ _ outputSchema _ _ | .indexLookup _ _ outputSchema _ => outputSchema
  | .filter child _ | .materialize child | .limit child _ | .sort child _ | .topN child _ _ => child.outputSchema
  | .projection _ expressions => expressions.map (Expr.outputType BoundValueExpr.outputType)
  | .nestedLoopJoin left right _ | .hashJoin left right _ _ | .sortMergeJoin left right _ _ =>
    left.outputSchema ++ right.outputSchema
  | .indexNestedLoopJoin left _ _ _ innerSchema => left.outputSchema ++ innerSchema
  | .values _ schema => schema
  | .aggregate _ groupByClause aggClauses =>
    (groupByClause ++ aggClauses.map (·.expr)).map (Expr.outputType BoundValueExpr.outputType)

def tableSchemaToTypes (t : Catalog.Table) : List FieldType := t.columns.map (·.type)

structure LogicalProjectionNode where
  expressions : List LogicalExpr
  outputSchema : LogicalSchema

variable [Identifiers]

/-- A predicate that is pushed into a scan reads columns of the scan alone, and
each of them is the only one of its name, as the names are compared later. -/
structure LogicalScanNode where
  tableOid : ObjectID
  tableAlias : String
  rawOutputSchema : LogicalSchema
  projection : Option LogicalProjectionNode
  predicates : List LogicalExpr
  predicate : ∀ pred ∈ predicates, pred.isPredicate = true
  typed : ∀ pred ∈ predicates, pred.isTyped LogicalColumn.ctype = true
  resolved : ∀ pred ∈ predicates, ∀ col ∈ pred.getReferencedColumns,
    rawOutputSchema.filter (equalFold ·.cname col.cname) = [col]

def LogicalScanNode.outputSchema (n : LogicalScanNode) : LogicalSchema :=
  match n.projection with
  | none => n.rawOutputSchema
  | some projection => projection.outputSchema

/-- The child of a join, as far as the rules look into it. -/
inductive LogicalChild where
  | scan (node : LogicalScanNode)
  | other (outputSchema : LogicalSchema)

def LogicalChild.outputSchema : LogicalChild → LogicalSchema
  | .scan node => node.outputSchema
  | .other outputSchema => outputSchema

/-- Every table reference of a query has an id of its own, so a column belongs to
one side only. -/
structure LogicalJoinNode where
  left : LogicalChild
  right : LogicalChild
  joinOn : List LogicalExpr
  predicate : ∀ cond ∈ joinOn, cond.isPredicate = true
  separate : ∀ cond ∈ joinOn, ∀ col ∈ cond.getReferencedColumns,
    ¬ (left.outputSchema.contains col = true ∧ right.outputSchema.contains col = true)

/-- Nothing is wrapped around the child when there is no predicate. -/
def wrapInFilter (child : PlanNode) (preds : List LogicalExpr) (logicalInputSchema : LogicalSchema) : Option PlanNode :=
  match mergePredicates preds with
  | none => some child
  | some finalPred => do return .filter child (← bindExpr finalPred logicalInputSchema child.outputSchema)

end GoDB.Planner
