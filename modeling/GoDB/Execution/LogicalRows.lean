import GoDB.Lib.Joins
import GoDB.Planner.LogicalPlan
import GoDB.Proofs.FilteredPlans

/-! What a logical plan means. A filter keeps the rows in which its predicate is
true, which neither NULL nor a panic is, and a join is the one of its type. -/

namespace GoDB.Execution
open Common Lib Planner

variable [Identifiers] (schema : LogicalSchema)

def nullRow : Row := schema.map fun col => .null col.ctype

def joinRows (joinType : JoinType) (leftSchema rightSchema : LogicalSchema) (joinOn : List LogicalExpr)
    (left right : List Row) : List Row :=
  let related := fun l r => decide (Passing (leftSchema ++ rightSchema) joinOn (l ++ r))
  match joinType with
  | .inner | .cross => (innerJoin related left right).map joined
  | .left => (leftJoin related left right).map fun pair => pair.1 ++ pair.2.getD (nullRow rightSchema)
  | .right => (rightJoin related left right).map fun pair => pair.1.getD (nullRow leftSchema) ++ pair.2
  | .fullOuter => (fullJoin related left right).map fun pair =>
      pair.1.getD (nullRow leftSchema) ++ pair.2.getD (nullRow rightSchema)

def projectRows (expressions : List LogicalExpr) (rows : List Row) : Option (List Row) :=
  rows.mapM fun row => expressions.mapM fun e => e.evalWith (schema.reader row)

def bindTo (e : LogicalExpr) : Option PhysicalExpr := bindExpr e schema (schema.map (·.ctype))

def sortLogicalRows (orderBy : List (OrderByClause LogicalColumn)) (rows : List Row) : Option (List Row) := do
  let orderBy ← orderBy.mapM fun order => do return OrderByClause.mk (← bindTo schema order.expr) order.direction
  sortRows id orderBy rows

def aggregateLogicalRows (groupByClause : List LogicalExpr)
    (aggClauses : List (AggregateClause LogicalColumn)) (rows : List Row) : Option (List Row) := do
  let groupByClause ← groupByClause.mapM (bindTo schema)
  let aggClauses ← aggClauses.mapM fun agg => do return AggregateClause.mk agg.type (← bindTo schema agg.expr)
  aggregateRows groupByClause aggClauses rows

/-- The one row that a statement without a result of its own returns. -/
def countRow (rows : List Row) : List Row := [[.int (.ofNat rows.length)]]

/-- The rows in their order. Inserting, deleting and updating returns the number of
rows. -/
def logicalRows (db : Database) : LogicalPlanNode → Option (List Row)
  | .scan _ tableOid rawOutputSchema projection predicates _ => do
    let table ← db.tables tableOid
    let kept := (table.rows.map table.rowOf).filter (Passing rawOutputSchema predicates)
    match projection with
    | none => return kept
    | some attached => projectRows rawOutputSchema attached.expressions kept
  | .filter child predicate _ => do return (← logicalRows db child).filter (Passing child.outputSchema [predicate])
  | .projection child node _ => do projectRows child.outputSchema node.expressions (← logicalRows db child)
  | .join left right joinOn joinType _ => do
    return joinRows joinType left.outputSchema right.outputSchema joinOn (← logicalRows db left) (← logicalRows db right)
  | .aggregation child groupByClause aggClauses _ => do
    aggregateLogicalRows child.outputSchema groupByClause aggClauses (← logicalRows db child)
  | .sort child orderBy _ => do sortLogicalRows child.outputSchema orderBy (← logicalRows db child)
  | .limit child limit offset _ => do return ((← logicalRows db child).drop offset.toNat).take limit.toNat
  | .subquery _ child _ _ => logicalRows db child
  | .values values schema _ => do
    valuesRows (schema.map fun _ => none) (← values.mapM fun row => row.mapM (bindTo []))
  | .insert _ child _ | .delete _ child _ | .update _ child _ _ => do return countRow (← logicalRows db child)

inductive Change where
  | insert (tableOid : ObjectID) (rows : List Row)
  | delete (tableOid : ObjectID) (rows : List Row)
  | update (tableOid : ObjectID) (rows : List (Row × List (LogicalColumn × Value)))

structure Effect where
  rows : List Row
  change : Option Change

def effect (db : Database) (node : LogicalPlanNode) : Option Effect :=
  match node with
  | .insert tableOid child _ => do
    let rows ← logicalRows db child
    return ⟨countRow rows, some (.insert tableOid rows)⟩
  | .delete tableOid child _ => do
    let rows ← logicalRows db child
    return ⟨countRow rows, some (.delete tableOid rows)⟩
  | .update tableOid child updates _ => do
    let rows ← logicalRows db child
    let assigned ← rows.mapM fun row => do
      return (row, ← updates.mapM fun update => do
        return (update.1, ← update.2.evalWith (child.outputSchema.reader row)))
    return ⟨countRow rows, some (.update tableOid assigned)⟩
  | _ => do return ⟨← logicalRows db node, none⟩

end GoDB.Execution
