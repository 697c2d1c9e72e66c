import GoDB.Execution.TableHeap
import GoDB.Indexing.Index
import GoDB.Planner.Schema
import GoDB.Storage.HybridTuple

/-! The executors that change a table, run without a transaction. Each of them does
all of its work in the first `Next`; the child is given by the rows that it returns. -/

namespace GoDB.Execution
open Common Lib Storage Indexing Planner

structure TableState where
  heap : TableHeap
  indexes : List Index

/-- What stopped the executor, or what it counted, and the state that it leaves. -/
abbrev Outcome := Except HeapError Int64 × TableState

/-- Without a transaction no index leaves a task behind, so it does not matter which
object it is. -/
def insertKey (key : Key) (rid : RecordID) (index : Index) : Option Index :=
  (index.insertEntry 0 key rid none).map Prod.fst

def deleteKey (key : Key) (rid : RecordID) (index : Index) : Option Index :=
  (index.deleteEntry 0 key rid none).map Prod.fst

/-- `FromValues`, `WriteToBuffer` and `AsKey`. -/
def makeKey (md : IndexMetadata) (keyValues : List Value) : Option Key := do
  let keyBuf ← (Tuple.fromValues keyValues).writeToBuffer (List.replicate md.keySize 0) md.keySchema
  return md.asKey keyBuf

def storedForm (heap : TableHeap) (t : Tuple) : Option RawTuple :=
  t.writeToBuffer (List.replicate heap.desc.bytesPerTuple 0) heap.desc

namespace InsertExecutor

def insertRow (t : Tuple) (rid : RecordID) (index : Index) : Option Index := do
  let keyValues ← index.metadata.projectionList.mapM t.getValue
  insertKey (← makeKey index.metadata keyValues) rid index

def insertRows (state : TableState) (count : Int64) : List Tuple → Option Outcome
  | [] => some (.ok count, state)
  | childTuple :: rest => do
    let rawBuf ← storedForm state.heap childTuple
    match ← state.heap.insertTuple rawBuf with
    | (.error err, heap) => return (.error err, { state with heap := heap })
    | (.ok rid, heap) =>
      let indexes ← state.indexes.mapM (insertRow childTuple rid)
      insertRows ⟨heap, indexes⟩ (count + 1) rest

def next (state : TableState) (child : List Tuple) : Option Outcome := insertRows state 0 child

end InsertExecutor

namespace UpdateExecutor

/-- An expression is nil for a column that keeps its value. -/
def newValues (expressions : List (Option PhysicalExpr)) (oldTuple : Tuple) : Option (List Value) :=
  (List.range oldTuple.numColumns).mapM fun i => do
    match ← expressions[i]? with
    | some e => e.eval oldTuple.values
    | none => oldTuple.getValue i

def moveRow (oldTuple : Tuple) (newValues : List Value) (index : Index) : Option Index := do
  let md := index.metadata
  let oldKeyValues ← md.projectionList.mapM oldTuple.getValue
  let newKeyValues ← md.projectionList.mapM (newValues[·]?)
  if (oldKeyValues.zip newKeyValues).any fun vals => vals.1.compare vals.2 ≠ .eq then
    let index ← deleteKey (← makeKey md oldKeyValues) oldTuple.rid index
    insertKey (← makeKey md newKeyValues) oldTuple.rid index
  else return index

def updateRows (expressions : List (Option PhysicalExpr)) (state : TableState) (count : Int64) : List Tuple → Option Outcome
  | [] => some (.ok count, state)
  | oldTuple :: rest => do
    let newValues ← newValues expressions oldTuple
    let rawBuf ← storedForm state.heap (.fromValues newValues)
    match ← state.heap.updateTuple oldTuple.rid rawBuf with
    | (.error err, heap) => return (.error err, { state with heap := heap })
    | (.ok _, heap) =>
      let indexes ← state.indexes.mapM (moveRow oldTuple newValues)
      updateRows expressions ⟨heap, indexes⟩ (count + 1) rest

def next (expressions : List (Option PhysicalExpr)) (state : TableState) (child : List Tuple) : Option Outcome := do
  updateRows expressions state 0 (← child.mapM (·.deepCopy state.heap.desc))

end UpdateExecutor

namespace DeleteExecutor

def deleteRow (t : Tuple) (index : Index) : Option Index := do
  let keyValues ← index.metadata.projectionList.mapM t.getValue
  deleteKey (← makeKey index.metadata keyValues) t.rid index

def deleteRows (state : TableState) (count : Int64) : List Tuple → Option Outcome
  | [] => some (.ok count, state)
  | tuple :: rest => do
    let indexes ← state.indexes.mapM (deleteRow tuple)
    match ← state.heap.deleteTuple tuple.rid with
    | (.error err, heap) => return (.error err, ⟨heap, indexes⟩)
    | (.ok _, heap) => deleteRows ⟨heap, indexes⟩ (count + 1) rest

def next (state : TableState) (child : List Tuple) : Option Outcome := do
  deleteRows state 0 (← child.mapM (·.deepCopy state.heap.desc))

end DeleteExecutor
end GoDB.Execution
