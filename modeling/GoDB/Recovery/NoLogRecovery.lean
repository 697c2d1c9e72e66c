import GoDB.Execution.TableHeap
import GoDB.Indexing.IndexManager

/-! Rebuilding the indexes of all tables when the database is opened. A result is
missing where the source panics or returns an error. -/

namespace GoDB.Recovery
open Common Lib Storage Indexing Execution

abbrev RuntimeIndexes := ObjectID → Option Index

def newIndex (table : Catalog.Table) (i : Catalog.Index) : Option Index :=
  (indexMetadata table i).map fun metadata =>
    match i.type with
    | .hash => .hash (newMemHashIndex metadata)
    | .btree => .btree (newMemBTreeIndex metadata)

def newIndexManager (c : Catalog) : Option RuntimeIndexes :=
  c.foldlM (fun im table => table.indexes.foldlM (fun im i =>
    (newIndex table i).map fun idx => Function.update im i.oid (some idx)) im) fun _ => none

/-- Project a row of the heap into the key buffer of an index. -/
def fillKey (md : IndexMetadata) (desc : RawTupleDesc) (tupleBytes : RawTuple) (keyBuffer : List Byte) : Option (List Byte) :=
  md.projectionList.zipIdx.foldlM (fun buf entry => do
    md.keySchema.setValue buf entry.2 (← desc.getValue tupleBytes entry.1)) keyBuffer

/-- The body of the scan: each index with its key buffer, which is used again for
the next row. -/
def insertKeys (desc : RawTupleDesc) (rid : RecordID) (tupleBytes : RawTuple) (im : RuntimeIndexes) :
    List (ObjectID × List Byte) → Option (List (ObjectID × List Byte) × RuntimeIndexes)
  | [] => some ([], im)
  | (oid, keyBuffer) :: rest => do
    let index ← im oid
    let keyBuffer ← fillKey index.metadata desc tupleBytes keyBuffer
    let (index, _) ← index.insertEntry oid (index.metadata.asKey keyBuffer) rid none
    let (rest, im) ← insertKeys desc rid tupleBytes (Function.update im oid (some index)) rest
    return ((oid, keyBuffer) :: rest, im)

def rebuildRows (desc : RawTupleDesc) (iter : TableHeapIterator) (active : List (ObjectID × List Byte))
    (im : RuntimeIndexes) : Option RuntimeIndexes :=
  match _advanced : iter.next with
  | none => none
  | some (false, iter) => if iter.err = none then some im else none
  | some (true, iter) => do
    let tupleBytes ← iter.currentTuple
    let (active, im) ← insertKeys desc iter.currentRID tupleBytes im active
    rebuildRows desc iter active im
termination_by iter.ahead
decreasing_by exact TableHeapIterator.ahead_of_next _advanced

def rebuildTable (tables : ObjectID → Option TableHeap) (im : RuntimeIndexes) (tableDef : Catalog.Table) :
    Option RuntimeIndexes :=
  if tableDef.indexes.isEmpty then some im
  else do
    let heap ← tables tableDef.oid
    let active ← tableDef.indexes.mapM fun i => do
      let indexObject ← im i.oid
      return (i.oid, List.replicate indexObject.metadata.keySize 0)
    rebuildRows heap.desc heap.iterator active im

def rebuildIndexes (c : Catalog) (tables : ObjectID → Option TableHeap) (im : RuntimeIndexes) : Option RuntimeIndexes :=
  c.foldlM (rebuildTable tables) im

end GoDB.Recovery
