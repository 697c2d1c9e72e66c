import GoDB.Execution.ExecutorPipeline

/-! The page latches of one statement. An iterator keeps the read latch of its page from
a `Next` that returns true to its next call. A statement that changes a table takes write
latches of its pages, and it waits for itself when one of its iterators has the page. -/

namespace GoDB.Execution
open Common Lib Storage Indexing Planner

/-- A scan of a table as it is now, and the read latches that its iterators hold: the
current one, and those that were replaced by `Init` before their end. -/
structure LatchedScan where
  tableHeap : TableHeap
  scan : SeqScanExecutor
  latched : Option PageID
  leaked : List PageID

namespace LatchedScan

def executor : Executor LatchedScan where
  init e := do
    let (err, scan) ← (seqScanExecutor e.tableHeap).init e.scan
    return (err, { e with scan, latched := none, leaked := e.leaked ++ e.latched.toList })
  next e := do
    let (found, scan) ← (seqScanExecutor e.tableHeap).next e.scan
    return (found, { e with scan, latched := if found then some scan.iterator.currentRID.pageID else none })
  current e := (seqScanExecutor e.tableHeap).current e.scan
  error e := (seqScanExecutor e.tableHeap).error e.scan

def latches (e : LatchedScan) : List PageID := e.leaked ++ e.latched.toList

def new (tableHeap : TableHeap) : LatchedScan := ⟨tableHeap, ⟨⟨tableHeap, 0, 0, 0, none, none⟩, none⟩, none, []⟩

/-- The table has changed. The page under the cursor has not: the iterator has its latch. -/
def refresh (tableHeap : TableHeap) (e : LatchedScan) : LatchedScan :=
  if tableHeap.oid = e.tableHeap.oid then
    { e with tableHeap, scan := { e.scan with iterator := { e.scan.iterator with tableHeap } } }
  else e

end LatchedScan

/-- A sequential scan, or an executor that holds no latch between two calls. -/
inductive Leaf : Type 1 where
  | scan (tableHeap : TableHeap)
  | other (source : Source)

def Leaf.source : Leaf → Source
  | .scan tableHeap => ⟨LatchedScan, LatchedScan.executor, .new tableHeap⟩
  | .other source => source

namespace Pipeline

def sources (tree : Pipeline Leaf) : Pipeline Source := tree.map Leaf.source

def latches : (tree : Pipeline Leaf) → tree.sources.State → List PageID
  | .leaf (.scan _), (e : LatchedScan × Bool) => e.1.latches
  | .leaf (.other _), _ => []
  | .filter _ child _, (e : FilterExecutor child.sources.State) => child.latches e.child
  | .projection child _, (e : ProjectionExecutor child.sources.State) => child.latches e.child
  | .limit child _, (e : LimitExecutor child.sources.State) => child.latches e.child
  | .sort _ child _ _, (e : SortExecutor child.sources.State) => child.latches e.child
  | .aggregate _ child _ _, (e : AggregateExecutor child.sources.State) => child.latches e.child
  | .join _ left right _ _ _, (e : BlockNestedLoopJoinExecutor (left.sources.State × Bool) right.sources.State) =>
    left.latches e.left.1 ++ right.latches e.right

def refresh : (tree : Pipeline Leaf) → TableHeap → tree.sources.State → tree.sources.State
  | .leaf (.scan _), tableHeap, (e : LatchedScan × Bool) => (e.1.refresh tableHeap, e.2)
  | .leaf (.other _), _, e => e
  | .filter _ child _, tableHeap, (e : FilterExecutor child.sources.State) =>
    { e with child := child.refresh tableHeap e.child }
  | .projection child _, tableHeap, (e : ProjectionExecutor child.sources.State) =>
    { e with child := child.refresh tableHeap e.child }
  | .limit child _, tableHeap, (e : LimitExecutor child.sources.State) =>
    { e with child := child.refresh tableHeap e.child }
  | .sort _ child _ _, tableHeap, (e : SortExecutor child.sources.State) =>
    { e with child := child.refresh tableHeap e.child }
  | .aggregate _ child _ _, tableHeap, (e : AggregateExecutor child.sources.State) =>
    { e with child := child.refresh tableHeap e.child }
  | .join _ left right _ _ _, tableHeap,
      (e : BlockNestedLoopJoinExecutor (left.sources.State × Bool) right.sources.State) =>
    { e with left := (left.refresh tableHeap e.left.1, e.left.2), right := right.refresh tableHeap e.right }

end Pipeline

/-- The page whose write latch `InsertTuple` takes first. -/
def TableHeap.insertionPage (heap : TableHeap) : Option PageID :=
  if heap.pages = [] then none else some ⟨heap.oid, (heap.pages.length - 1 : Nat)⟩

/-- One turn of the loop of `InsertExecutor.Next`. The answer is whether the statement
waits for itself. -/
def insertTurn (tree : Pipeline Leaf) (state : Int64 × TableState × tree.sources.State) :
    Option (Int64 × TableState × tree.sources.State ⊕ Bool) := do
  let (count, table, below) := state
  let (found, below) ← tree.sources.executor.next below
  if found then
    if table.heap.insertionPage.any (tree.latches below).contains then return .inr true
    match ← InsertExecutor.insertRows table count [← tree.sources.executor.current below] with
    | (.ok count, table) => return .inl (count, table, tree.refresh table.heap below)
    | (.error _, _) => return .inr false
  else return .inr false

/-- The rows to delete are known, and the iterators still hold the latches `held`. -/
def deleteTurns (held : List PageID) (state : TableState) : List Tuple → Option Bool
  | [] => some false
  | tuple :: rest => do
    let indexes ← state.indexes.mapM (DeleteExecutor.deleteRow tuple)
    if held.contains tuple.rid.pageID then return true
    match ← state.heap.deleteTuple tuple.rid with
    | (.error _, _) => return false
    | (.ok _, heap) => deleteTurns held ⟨heap, indexes⟩ rest

def updateTurns (expressions : List (Option PhysicalExpr)) (held : List PageID) (state : TableState) :
    List Tuple → Option Bool
  | [] => some false
  | oldTuple :: rest => do
    let newValues ← UpdateExecutor.newValues expressions oldTuple
    let rawBuf ← storedForm state.heap (.fromValues newValues)
    if held.contains oldTuple.rid.pageID then return true
    match ← state.heap.updateTuple oldTuple.rid rawBuf with
    | (.error _, _) => return false
    | (.ok _, heap) =>
      let indexes ← state.indexes.mapM (UpdateExecutor.moveRow oldTuple newValues)
      updateTurns expressions held ⟨heap, indexes⟩ rest

/-- `Init` and the first `Next` of a statement that collects its rows first. -/
def collectTurns (fuel : Nat) (tree : Pipeline Leaf) (table : TableState)
    (turns : List PageID → TableState → List Tuple → Option Bool) : Option Bool := do
  let (err, below) ← tree.sources.executor.init tree.sources.fresh
  if err.isSome then return false
  let (rows, below) ← drain fuel tree.sources.executor
    (fun rows tuple => do return rows ++ [← tuple.deepCopy table.heap.desc]) [] below
  turns (tree.latches below) table rows

/-- The rows of one table access that pass the filters: what `planUpdate` gives an update. -/
def selection (fuel : Nat) (leaf : Leaf) : List PhysicalExpr → Pipeline Leaf
  | [] => .leaf leaf
  | predicate :: filters => .filter fuel (selection fuel leaf filters) predicate

/-- `planDelete` also heeds ORDER BY and LIMIT. -/
def deletion (fuel : Nat) (leaf : Leaf) (filters : List PhysicalExpr)
    (orderBy : Option (List FieldType × List (OrderByClause BoundValueExpr))) (limit : Option Int) : Pipeline Leaf :=
  let rows := match orderBy with
    | none => selection fuel leaf filters
    | some (schema, orderBy) => .sort fuel (selection fuel leaf filters) schema orderBy
  match limit with
  | none => rows
  | some count => .limit rows count

namespace Root

/-- Whether the statement comes to wait for itself. -/
def waitsForItself : Root Leaf → Option Bool
  | .read _ => some false
  | .insert fuel tree table => do
    let (err, below) ← tree.sources.executor.init tree.sources.fresh
    if err.isSome then return false
    repeatUntil (insertTurn tree) fuel (0, table, below)
  | .delete fuel tree table => collectTurns fuel tree table deleteTurns
  | .update fuel tree table expressions => collectTurns fuel tree table (updateTurns expressions)

end Root
end GoDB.Execution
