import GoDB.Execution.Operators
import GoDB.Execution.TableHeap
import GoDB.Lib.Cursor

/-! The executors that only read. Each is a cursor over its own fields and those of
its children; the fields keep what earlier calls left in them. A loop that pulls
from a child is given fuel. The latches and pins of a scan are left out, and there
is no transaction. -/

namespace GoDB.Execution
open Common Lib Storage Indexing Planner

inductive ExecError where
  | heap (err : HeapError)
  /-- A hash index cannot be scanned. -/
  | scanUnsupported
deriving DecidableEq

abbrev Executor (σ : Type) := Cursor σ Tuple ExecError

structure SeqScanExecutor where
  iterator : TableHeapIterator
  current : Option Tuple

def seqScanExecutor (tableHeap : TableHeap) : Executor SeqScanExecutor where
  init e := some (none, { e with iterator := tableHeap.iterator })
  next e := do
    let (found, iterator) ← e.iterator.next
    if found then
      let row ← iterator.currentTuple
      return (true, ⟨iterator, some (.fromRawTuple row tableHeap.desc iterator.currentRID)⟩)
    else return (false, { e with iterator })
  current e := e.current
  error e := e.iterator.err.map .heap

def readRow (tableHeap : TableHeap) (rid : RecordID) (buffer : RawTuple) : Option (Except ExecError RawTuple) := do
  match ← tableHeap.readTuple rid buffer with
  | (.ok buffer, _) => return .ok buffer
  | (.error err, _) => return .error (.heap err)

/-- The iterator is given by the entries that it has not passed yet; it is nil
before the first `Init` and after one that fails. -/
structure IndexScanExecutor where
  iterator : Option (List RecordID)
  current : Option Tuple
  buffer : RawTuple
  lastErr : Option ExecError

def indexScanExecutor (index : Index) (tableHeap : TableHeap) (startKey : Key) (direction : ScanDirection) :
    Executor IndexScanExecutor where
  init e :=
    match index.scan (some startKey) direction with
    | some rids => some (none, { e with iterator := some rids })
    | none => some (some .scanUnsupported, { e with iterator := none })
  next e := do
    match ← e.iterator with
    | [] => return (false, e)
    | rid :: ahead =>
      match ← readRow tableHeap rid e.buffer with
      | .ok buffer =>
        return (true, ⟨some ahead, some (.fromRawTuple buffer tableHeap.desc rid), buffer, e.lastErr⟩)
      | .error err => return (false, { e with iterator := some ahead, lastErr := some err })
  current e := e.current
  error e := e.lastErr

structure IndexLookupExecutor where
  rids : List RecordID
  ridIdx : Nat
  current : Option Tuple
  buffer : RawTuple
  lastErr : Option ExecError

def indexLookupExecutor (index : Index) (tableHeap : TableHeap) (equalityKey : Key) : Executor IndexLookupExecutor where
  init e := some (none, { e with rids := index.scanKey equalityKey, ridIdx := 0 })
  next e :=
    match e.rids[e.ridIdx]? with
    | none => some (false, e)
    | some rid => do
      match ← readRow tableHeap rid e.buffer with
      | .ok buffer =>
        return (true, ⟨e.rids, e.ridIdx + 1, some (.fromRawTuple buffer tableHeap.desc rid), buffer, e.lastErr⟩)
      | .error err => return (false, { e with ridIdx := e.ridIdx + 1, lastErr := some err })
  current e := e.current
  error e := e.lastErr

structure ValuesExecutor where
  cursor : Nat
  currentValues : List (Option Value)

def valuesExecutor (values : List (List PhysicalExpr)) (schema : List FieldType) : Executor ValuesExecutor where
  init _ := some (none, ⟨0, schema.map fun _ => none⟩)
  next e :=
    match values[e.cursor]? with
    | none => some (false, e)
    | some row => do return (true, ⟨e.cursor + 1, ← putValues e.currentValues row⟩)
  current e := do return .fromValues (← e.currentValues.mapM id)
  error _ := none

variable {σ τ β : Type}

structure FilterExecutor (σ : Type) where
  child : σ
  current : Option Tuple

def filterStep (child : Executor σ) (predicate : PhysicalExpr) (e : FilterExecutor σ) :
    Option (FilterExecutor σ ⊕ Bool × FilterExecutor σ) := do
  let (found, below) ← child.next e.child
  if found then
    let tuple ← child.current below
    if ← predicate.test tuple.values then return .inr (true, ⟨below, some tuple⟩)
    else return .inl { e with child := below }
  else return .inr (false, { e with child := below })

variable (fuel : Nat)

def filterExecutor (child : Executor σ) (predicate : PhysicalExpr) : Executor (FilterExecutor σ) where
  init e := do
    let (err, below) ← child.init e.child
    return (err, { e with child := below })
  next := repeatUntil (filterStep child predicate) fuel
  current e := e.current
  error e := child.error e.child

structure ProjectionExecutor (σ : Type) where
  child : σ
  current : Option Tuple

def projectionExecutor (child : Executor σ) (expressions : List PhysicalExpr) : Executor (ProjectionExecutor σ) where
  init e := do
    let (err, below) ← child.init e.child
    return (err, { e with child := below })
  next e := do
    let (found, below) ← child.next e.child
    if found then
      let inputTuple ← child.current below
      let projectedValues ← expressions.mapM (·.eval inputTuple.values)
      return (true, ⟨below, some (.fromValues projectedValues)⟩)
    else return (false, { e with child := below })
  current e := e.current
  error e := child.error e.child

structure LimitExecutor (σ : Type) where
  child : σ
  count : Int
  current : Option Tuple

def limitExecutor (child : Executor σ) (limit : Int) : Executor (LimitExecutor σ) where
  init e := do
    let (err, below) ← child.init e.child
    return (err, { e with child := below, count := 0 })
  next e :=
    if limit ≤ e.count then some (false, e)
    else do
      let (found, below) ← child.next e.child
      if found then return (true, ⟨below, e.count + 1, some (← child.current below)⟩)
      else return (false, { e with child := below })
  current e := e.current
  error e := child.error e.child

def drainStep (child : Executor σ) (body : β → Tuple → Option β) (state : β × σ) : Option (β × σ ⊕ β × σ) := do
  let (found, below) ← child.next state.2
  if found then return .inl (← body state.1 (← child.current below), below) else return .inr (state.1, below)

/-- `for child.Next() { body(child.Current()) }`. -/
def drain (child : Executor σ) (body : β → Tuple → Option β) (start : β) (below : σ) : Option (β × σ) :=
  repeatUntil (drainStep child body) fuel (start, below)

/-- The descriptor is nil before the first `Init`. -/
structure SortExecutor (σ : Type) where
  child : σ
  desc : Option RawTupleDesc
  buffer : List Tuple
  pos : Int
  loaded : Bool
  err : Option ExecError

/-- The rows of the child are pulled and sorted by the first `Next`. -/
def loadBuffer (child : Executor σ) (orderBy : List (OrderByClause BoundValueExpr)) (e : SortExecutor σ) :
    Option (SortExecutor σ) := do
  if e.loaded then return e
  let (buffer, below) ← drain fuel child (fun buffer tuple => do return buffer ++ [← tuple.deepCopy (← e.desc)])
    e.buffer e.child
  match child.error below with
  | some err => return { e with child := below, buffer, err := some err }
  | none => return { e with child := below, buffer := ← sortRows Tuple.values orderBy buffer, loaded := true }

def sortExecutor (child : Executor σ) (schema : List FieldType)
    (orderBy : List (OrderByClause BoundValueExpr)) : Executor (SortExecutor σ) where
  init e := do
    let (err, below) ← child.init e.child
    let e := { e with child := below, buffer := [], pos := -1, loaded := false, err := none }
    match err with
    | some err => return (some err, e)
    | none => return (none, { e with desc := some (← newRawTupleDesc schema) })
  next e := do
    if e.err.isSome then return (false, e)
    let e ← loadBuffer fuel child orderBy e
    if e.err.isSome ∨ e.buffer.length ≤ e.pos + 1 then return (false, e)
    return (true, { e with pos := e.pos + 1 })
  current e := if 0 ≤ e.pos then e.buffer[e.pos.toNat]? else none
  error e := e.err

structure AggregateExecutor (σ : Type) where
  child : σ
  results : List Tuple
  pos : Int
  err : Option ExecError

/-- All the work is done by `Init`. -/
def aggregateExecutor (child : Executor σ) (groupByClause : List PhysicalExpr)
    (aggClauses : List (AggregateClause BoundValueExpr)) : Executor (AggregateExecutor σ) where
  init e := do
    let (err, below) ← child.init e.child
    match err with
    | some err => return (some err, ⟨below, [], -1, none⟩)
    | none =>
      let groupDesc ← newRawTupleDesc (groupByClause.map (Expr.outputType BoundValueExpr.outputType))
      let (groups, below) ← drain fuel child
        (fun groups tuple => aggregateRow groupByClause aggClauses groupDesc groups tuple.values) [] below
      match child.error below with
      | some err => return (some err, ⟨below, [], -1, some err⟩)
      | none => return (none, ⟨below, groups.map fun group => .fromValues (group.output aggClauses), -1, none⟩)
  next e :=
    if e.err.isSome ∨ e.results.length ≤ e.pos + 1 then some (false, e) else some (true, { e with pos := e.pos + 1 })
  current e := if 0 ≤ e.pos then e.results[e.pos.toNat]? else none
  error e := e.err

def blockSize : Nat := 2 ^ 15

def tupleSize (t : Tuple) : Nat := bytesOf (t.values.map (·.type))

/-- The descriptors are nil before the first `Init`. -/
structure BlockNestedLoopJoinExecutor (σ τ : Type) where
  left : σ
  right : τ
  leftDesc : Option RawTupleDesc
  joinedDesc : Option RawTupleDesc
  joinedBuf : RawTuple
  current : Option Tuple
  err : Option ExecError
  leftblock : List Tuple
  blockidx : Nat
  rightHasCur : Bool

/-- A block under construction: the bytes in it, its rows and the child that they
come from. -/
abbrev Loading (σ : Type) := Nat × List Tuple × σ

def loadStep (left : Executor σ) (leftDesc : RawTupleDesc) (state : Loading σ) :
    Option (Loading σ ⊕ Option ExecError × List Tuple × σ) := do
  let (usedSize, block, below) := state
  if blockSize ≤ usedSize then return .inr (none, block, below)
  let (found, below) ← left.next below
  if found then
    match left.error below with
    | some err => return .inr (some err, block, below)
    | none =>
      let tuple ← (← left.current below).deepCopy leftDesc
      return .inl (usedSize + tupleSize tuple, block ++ [tuple], below)
  else return .inr (none, block, below)

def loadLeftBlock (left : Executor σ) (e : BlockNestedLoopJoinExecutor σ τ) :
    Option (Option ExecError × BlockNestedLoopJoinExecutor σ τ) := do
  let (err, block, below) ← repeatUntil (loadStep left (← e.leftDesc)) fuel (0, [], e.left)
  return (err, { e with leftblock := block, left := below })

/-- The right child has no more rows for this block. -/
def nextBlock (left : Executor σ) (right : Executor τ) (e : BlockNestedLoopJoinExecutor σ τ) :
    Option (BlockNestedLoopJoinExecutor σ τ ⊕ Bool × BlockNestedLoopJoinExecutor σ τ) := do
  match right.error e.right with
  | some err => return .inr (false, { e with err := some err })
  | none =>
    let (err, e) ← loadLeftBlock fuel left e
    if err.isSome then return .inr (false, { e with err })
    if e.leftblock.isEmpty then return .inr (false, e)
    let (err, below) ← right.init e.right
    let e := { e with right := below }
    if err.isSome then return .inr (false, { e with err }) else return .inl e

/-- One turn of either of the two loops of `Next`. -/
def joinStep (left : Executor σ) (right : Executor τ) (predicate : PhysicalExpr) (e : BlockNestedLoopJoinExecutor σ τ) :
    Option (BlockNestedLoopJoinExecutor σ τ ⊕ Bool × BlockNestedLoopJoinExecutor σ τ) := do
  if e.leftblock.isEmpty then return .inr (false, e)
  if e.rightHasCur then
    match e.leftblock[e.blockidx]? with
    | none => return .inl { e with rightHasCur := false }
    | some lefttuple =>
      let joinedDesc ← e.joinedDesc
      let joinedBuf ← Tuple.mergeTuples e.joinedBuf joinedDesc lefttuple (← right.current e.right)
      let e := { e with blockidx := e.blockidx + 1, joinedBuf }
      if ← predicate.test (joinedDesc.values joinedBuf) then
        return .inr (true, { e with current := some (.fromRawTuple joinedBuf joinedDesc zeroRID) })
      else return .inl e
  else
    let (found, below) ← right.next e.right
    let e := { e with right := below }
    if found then return .inl { e with rightHasCur := true, blockidx := 0 } else nextBlock fuel left right e

/-- An error stays in its field: `Init` does not clear it. -/
def blockNestedLoopJoinExecutor (left : Executor σ) (right : Executor τ)
    (leftSchema rightSchema : List FieldType) (predicate : PhysicalExpr) :
    Executor (BlockNestedLoopJoinExecutor σ τ) where
  init e := do
    let (err, belowLeft) ← left.init e.left
    let e := { e with left := belowLeft }
    if err.isSome then return (err, e)
    let (err, belowRight) ← right.init e.right
    let e := { e with right := belowRight }
    if err.isSome then return (err, e)
    let leftDesc ← newRawTupleDesc leftSchema
    let joinedDesc ← newRawTupleDesc (leftSchema ++ rightSchema)
    loadLeftBlock fuel left { e with
      leftDesc := some leftDesc, joinedDesc := some joinedDesc
      joinedBuf := List.replicate joinedDesc.bytesPerTuple 0, leftblock := [], blockidx := 0, rightHasCur := false }
  next := repeatUntil (joinStep fuel left right predicate) fuel
  current e := e.current
  error e := e.err

end GoDB.Execution
