import GoDB.Execution.Executors
import GoDB.Execution.PlanRows

/-! Trees of executors that only read. -/

namespace GoDB.Execution
open Common Lib Storage Indexing Planner

/-- What the constructors of the executors are given. The keys of the index
executors are bound to the index already. -/
inductive ExecutorTree where
  | seqScan (tableHeap : TableHeap) (outputSchema : List FieldType)
  | indexScan (index : Index) (tableHeap : TableHeap) (outputSchema : List FieldType) (startKey : Key)
      (direction : ScanDirection)
  | indexLookup (index : Index) (tableHeap : TableHeap) (outputSchema : List FieldType) (equalityKey : Key)
  | values (values : List (List PhysicalExpr)) (schema : List FieldType)
  | filter (child : ExecutorTree) (predicate : PhysicalExpr)
  | projection (child : ExecutorTree) (expressions : List PhysicalExpr)
  | limit (child : ExecutorTree) (limit : Int)
  | sort (child : ExecutorTree) (orderBy : List (OrderByClause BoundValueExpr))
  | aggregate (child : ExecutorTree) (groupByClause : List PhysicalExpr)
      (aggClauses : List (AggregateClause BoundValueExpr))
  | blockNestedLoopJoin (left right : ExecutorTree) (predicate : PhysicalExpr)

namespace ExecutorTree

def outputSchema : ExecutorTree → List FieldType
  | .seqScan _ outputSchema | .indexScan _ _ outputSchema _ _ | .indexLookup _ _ outputSchema _ => outputSchema
  | .values _ schema => schema
  | .filter child _ | .limit child _ | .sort child _ => child.outputSchema
  | .projection _ expressions => expressions.map (Expr.outputType BoundValueExpr.outputType)
  | .aggregate _ groupByClause aggClauses =>
    (groupByClause ++ aggClauses.map (·.expr)).map (Expr.outputType BoundValueExpr.outputType)
  | .blockNestedLoopJoin left right _ => left.outputSchema ++ right.outputSchema

def State : ExecutorTree → Type
  | .seqScan _ _ => SeqScanExecutor
  | .indexScan _ _ _ _ _ => IndexScanExecutor
  | .indexLookup _ _ _ _ => IndexLookupExecutor
  | .values _ _ => ValuesExecutor
  | .filter child _ => FilterExecutor child.State
  | .projection child _ => ProjectionExecutor child.State
  | .limit child _ => LimitExecutor child.State
  | .sort child _ => SortExecutor child.State
  | .aggregate child _ _ => AggregateExecutor child.State
  | .blockNestedLoopJoin left right _ => BlockNestedLoopJoinExecutor left.State right.State

def newBuffer (tableHeap : TableHeap) : RawTuple := List.replicate tableHeap.desc.bytesPerTuple 0

def fresh : (tree : ExecutorTree) → tree.State
  | .seqScan tableHeap _ => SeqScanExecutor.mk ⟨tableHeap, 0, 0, 0, none, none⟩ none
  | .indexScan _ tableHeap _ _ _ => IndexScanExecutor.mk none none (newBuffer tableHeap) none
  | .indexLookup _ tableHeap _ _ => IndexLookupExecutor.mk [] 0 none (newBuffer tableHeap) none
  | .values _ _ => ValuesExecutor.mk 0 []
  | .filter child _ => FilterExecutor.mk child.fresh none
  | .projection child _ => ProjectionExecutor.mk child.fresh none
  | .limit child _ => LimitExecutor.mk child.fresh 0 none
  | .sort child _ => SortExecutor.mk child.fresh none [] (-1) false none
  | .aggregate child _ _ => AggregateExecutor.mk child.fresh [] (-1) none
  | .blockNestedLoopJoin left right _ =>
    BlockNestedLoopJoinExecutor.mk left.fresh right.fresh none none [] none none [] 0 false

/-- The executor at the root, when every executor of the tree is called through `seen`. -/
def executorThrough (seen : {σ : Type} → Executor σ → Executor σ) (fuel : Nat) : (tree : ExecutorTree) → Executor tree.State
  | .seqScan tableHeap _ => seen (seqScanExecutor tableHeap)
  | .indexScan index tableHeap _ startKey direction => seen (indexScanExecutor index tableHeap startKey direction)
  | .indexLookup index tableHeap _ equalityKey => seen (indexLookupExecutor index tableHeap equalityKey)
  | .values rows schema => seen (valuesExecutor rows schema)
  | .filter child predicate => seen (filterExecutor fuel (child.executorThrough seen fuel) predicate)
  | .projection child expressions => seen (projectionExecutor (child.executorThrough seen fuel) expressions)
  | .limit child count => seen (limitExecutor (child.executorThrough seen fuel) count)
  | .sort child orderBy => seen (sortExecutor fuel (child.executorThrough seen fuel) child.outputSchema orderBy)
  | .aggregate child groupByClause aggClauses =>
    seen (aggregateExecutor fuel (child.executorThrough seen fuel) groupByClause aggClauses)
  | .blockNestedLoopJoin left right predicate =>
    seen (blockNestedLoopJoinExecutor fuel (left.executorThrough seen fuel) (right.executorThrough seen fuel)
      left.outputSchema right.outputSchema predicate)

def executor (fuel : Nat) (tree : ExecutorTree) : Executor tree.State := tree.executorThrough (fun e => e) fuel

/-- The same executors, of which no call returns that leaves an error in one of them. -/
def quietExecutor (fuel : Nat) (tree : ExecutorTree) : Executor tree.State := tree.executorThrough Cursor.quiet fuel

end ExecutorTree

/-- The nodes that only read. A table or an index that is not there is an error, and
so is a key that is too short for its index. -/
def buildExecutorTree (tables : ObjectID → Option TableHeap) (indexes : ObjectID → Option Index) :
    PlanNode → Option ExecutorTree
  | .seqScan tableOid outputSchema => do return .seqScan (← tables tableOid) outputSchema
  | .indexScan indexOid tableOid outputSchema direction startKey => do
    let index ← indexes indexOid
    let tableHeap ← tables tableOid
    return .indexScan index tableHeap outputSchema (← bindKey index startKey) direction
  | .indexLookup indexOid tableOid outputSchema equalityKey => do
    let index ← indexes indexOid
    let tableHeap ← tables tableOid
    return .indexLookup index tableHeap outputSchema (← bindKey index equalityKey)
  | .values values schema => some (.values values schema)
  | .nestedLoopJoin left right predicate => do
    return .blockNestedLoopJoin (← buildExecutorTree tables indexes left) (← buildExecutorTree tables indexes right) predicate
  | .filter child predicate => do return .filter (← buildExecutorTree tables indexes child) predicate
  | .projection child expressions => do return .projection (← buildExecutorTree tables indexes child) expressions
  | .limit child limit => do return .limit (← buildExecutorTree tables indexes child) limit
  | .sort child orderBy => do return .sort (← buildExecutorTree tables indexes child) orderBy
  | .aggregate child groupByClause aggClauses => do
    return .aggregate (← buildExecutorTree tables indexes child) groupByClause aggClauses
  -- the constructors of these executors panic
  | .indexNestedLoopJoin .. | .hashJoin .. | .sortMergeJoin .. | .topN .. | .materialize _ => none

end GoDB.Execution
