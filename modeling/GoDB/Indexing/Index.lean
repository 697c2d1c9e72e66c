import GoDB.Indexing.Key
import GoDB.Lib.GoMap
import GoDB.Lib.OrderedSet
import GoDB.Transaction.IndexTask

/-! The two kinds of index. A call without a transaction takes effect at once;
within one, an insertion takes effect at once and leaves its undo behind, and a
deletion is left for the commit. -/

namespace GoDB.Indexing
open Common Lib Storage Transaction

structure IndexMetadata where
  keySchema : RawTupleDesc
  projectionList : List Nat
deriving DecidableEq

/-- An index on one integer, for samples. -/
abbrev IndexMetadata.oneInt : IndexMetadata := ⟨.oneInt, [0]⟩

abbrev intKey (v : Int64) : Key := (Value.int v).writeTo

def IndexMetadata.keySize (md : IndexMetadata) : Nat := md.keySchema.bytesPerTuple

def IndexMetadata.asKey (md : IndexMetadata) (rawTuple : RawTuple) : Key := rawTuple.take md.keySize

structure BTreeItem where
  key : Key
  rid : RecordID
deriving DecidableEq

namespace BTreeItem
variable (schema : RawTupleDesc)

def less (a b : BTreeItem) : Bool :=
  match a.key.compare schema b.key with
  | .lt => true
  | .gt => false
  | .eq =>
    if a.rid.pageID.oid ≠ b.rid.pageID.oid then a.rid.pageID.oid < b.rid.pageID.oid
    else if a.rid.pageID.pageNum ≠ b.rid.pageID.pageNum then a.rid.pageID.pageNum < b.rid.pageID.pageNum
    else a.rid.slot < b.rid.slot

def rank (item : BTreeItem) : List (ℕ ×ₗ ℤ ×ₗ List Byte) ×ₗ ℕ ×ₗ ℤ ×ₗ ℤ :=
  toLex (item.key.rank schema, toLex (item.rid.pageID.oid, toLex (item.rid.pageID.pageNum, item.rid.slot)))

theorem less_iff (a b : BTreeItem) : less schema a b = true ↔ a.rank schema < b.rank schema := by
  unfold less rank
  rw [Key.compare_eq_cmp, Prod.Lex.toLex_lt_toLex, Prod.Lex.toLex_lt_toLex, Prod.Lex.toLex_lt_toLex]
  rcases lt_trichotomy (a.key.rank schema) (b.key.rank schema) with less | same | more
  · rw [(cmp_eq_lt_iff ..).mpr less]
    simp [less]
  · rw [same, cmp_self_eq_eq]
    rcases lt_trichotomy a.rid.pageID.oid b.rid.pageID.oid with less | equal | more
    · simp [less, less.ne]
    · simp only [equal]
      rcases lt_trichotomy a.rid.pageID.pageNum b.rid.pageID.pageNum with less | equal | more
      · simp [less, less.ne]
      · simp [equal]
      · simp [more.not_gt, more.ne']
    · simp [more.not_gt, more.ne']
  · rw [(cmp_eq_gt_iff ..).mpr more]
    simp [more.not_gt, more.ne']

instance (schema : RawTupleDesc) : IsTrans BTreeItem fun a b => less schema a b = true where
  trans a b c first second := by
    rw [less_iff] at first second ⊢
    exact first.trans second

end BTreeItem

structure MemBTreeIndex where
  metadata : IndexMetadata
  tree : OrderedSet (BTreeItem.less metadata.keySchema)

def newMemBTreeIndex (metadata : IndexMetadata) : MemBTreeIndex := ⟨metadata, .empty⟩

namespace MemBTreeIndex

/-- The calls assert that the key has the schema of the index, so its bytes have
the size of the schema; they fail here where they panic there. -/
def insertEntry (index : MemBTreeIndex) (self : ObjectID) (key : Key) (rid : RecordID)
    (txn : Option TransactionContext) : Option (MemBTreeIndex × Option TransactionContext) :=
  if key.length = index.metadata.keySize then
    some ({ index with tree := index.tree.set ⟨key, rid⟩ }, txn.map (·.addAbortTask ⟨self, .undoInsert, key, rid⟩))
  else none

def deleteEntry (index : MemBTreeIndex) (self : ObjectID) (key : Key) (rid : RecordID)
    (txn : Option TransactionContext) : Option (MemBTreeIndex × Option TransactionContext) :=
  if key.length = index.metadata.keySize then
    match txn with
    | none => some ({ index with tree := index.tree.delete ⟨key, rid⟩ }, none)
    | some txn =>
      match index.tree.get ⟨key, rid⟩ with
      | none => some (index, some txn)
      | some stored => some (index, some (txn.addCommitTask ⟨self, .delete, stored.key, rid⟩))
  else none

end MemBTreeIndex

/-- A bucket leaves the map with its last record, so the flag that tells
concurrent callers so is left out. -/
structure MemHashIndex where
  metadata : IndexMetadata
  m : GoMap Key (List RecordID)

def newMemHashIndex (metadata : IndexMetadata) : MemHashIndex := ⟨metadata, ∅⟩

namespace MemHashIndex

/-- The range loop of `DeleteEntry`. It runs over the array that the bucket had at
its start, and each match swaps in the last live entry and shortens the bucket;
a match beyond the live part is an index out of range. -/
def removeLoop (rid : RecordID) : Nat → Nat → List RecordID → Nat → Option (List RecordID × Nat)
  | 0, _, array, live => some (array, live)
  | todo + 1, i, array, live =>
    if array[i]? = some rid then
      if i < live then
        removeLoop rid todo (i + 1) (array.set i ((array[live - 1]?).getD rid)) (live - 1)
      else none
    else removeLoop rid todo (i + 1) array live

def removeRid (rid : RecordID) (rids : List RecordID) : Option (List RecordID) :=
  (removeLoop rid rids.length 0 rids rids.length).map fun (array, live) => array.take live

def insertEntry (index : MemHashIndex) (self : ObjectID) (key : Key) (rid : RecordID)
    (txn : Option TransactionContext) : Option (MemHashIndex × Option TransactionContext) :=
  if key.length = index.metadata.keySize then
    some ({ index with m := index.m.insert key ((index.m.lookup key).getD [] ++ [rid]) },
      txn.map (·.addAbortTask ⟨self, .undoInsert, key, rid⟩))
  else none

def deleteEntry (index : MemHashIndex) (self : ObjectID) (key : Key) (rid : RecordID)
    (txn : Option TransactionContext) : Option (MemHashIndex × Option TransactionContext) :=
  if key.length = index.metadata.keySize then
    match index.m.lookup key with
    | none => some (index, txn)
    | some rids =>
      match txn with
      | some txn => some (index, some (txn.addCommitTask ⟨self, .delete, key, rid⟩))
      | none => (removeRid rid rids).map fun left =>
          ({ index with m := index.m.putBack key left left.isEmpty }, none)
  else none

end MemHashIndex

inductive Index where
  | hash (index : MemHashIndex)
  | btree (index : MemBTreeIndex)

namespace Index

def metadata : Index → IndexMetadata
  | .hash index => index.metadata
  | .btree index => index.metadata

variable (index : Index) (self : ObjectID)

def insertEntry (key : Key) (rid : RecordID)
    (txn : Option TransactionContext) : Option (Index × Option TransactionContext) :=
  match index with
  | .hash index => (index.insertEntry self key rid txn).map (Prod.map .hash id)
  | .btree index => (index.insertEntry self key rid txn).map (Prod.map .btree id)

def deleteEntry (key : Key) (rid : RecordID)
    (txn : Option TransactionContext) : Option (Index × Option TransactionContext) :=
  match index with
  | .hash index => (index.deleteEntry self key rid txn).map (Prod.map .hash id)
  | .btree index => (index.deleteEntry self key rid txn).map (Prod.map .btree id)

def invoke (opType : IndexOpType) (key : RawTuple) (rid : RecordID) : Option Index :=
  match opType with
  | .undoInsert | .delete => (index.deleteEntry self (index.metadata.asKey key) rid none).map Prod.fst

end Index

abbrev Indexes := ObjectID → Index

def Indexes.invoke (indexes : Indexes) (task : IndexTask) : Option Indexes :=
  ((indexes task.target).invoke task.target task.type task.key task.rid).map fun index =>
    Function.update indexes task.target index

end GoDB.Indexing
