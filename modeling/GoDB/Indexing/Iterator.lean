import GoDB.Indexing.Scan

/-! The iterator of a range scan, call by call. It walks over the copy of the tree
that was taken when it was made. -/

namespace GoDB.Indexing
open Common Lib Transaction

/-- `firstCall` is set until `Next` is called; `hasMore` says whether the iterator of
the tree is on an item. -/
structure MemBTreeIndexIterator where
  snapshot : List BTreeItem
  pos : Nat
  direction : ScanDirection
  firstCall : Bool
  hasMore : Bool

/-- The iterator of the tree after `First`. -/
def atFirst (items : List BTreeItem) : Nat × Bool := (0, !items.isEmpty)

def atLast (items : List BTreeItem) : Nat × Bool := (items.length - 1, !items.isEmpty)

/-- `Seek`, and whether there is an item at or after the pivot. -/
def atPivot (index : MemBTreeIndex) (key : Key) : Nat × Bool :=
  (index.seek key, index.seek key < index.tree.items.length)

/-- `Prev`: the first item has none before it. -/
def stepBack (pos : Nat) : Nat × Bool := (pos - 1, 0 < pos)

/-- `Scan`. No start is `NilKey`. -/
def MemBTreeIndex.openScan (index : MemBTreeIndex) (start : Option Key) (direction : ScanDirection) :
    MemBTreeIndexIterator :=
  let items := index.tree.items
  let (pos, hasMore) := match direction, start with
    | .forward, some key => atPivot index key
    | .forward, none => atFirst items
    | .backward, none => atLast items
    | .backward, some key =>
      match items[index.seek key]? with
      | none => atLast items
      | some item =>
        if item.key.compare index.metadata.keySchema key = .gt then stepBack (index.seek key)
        else (index.seek key, true)
  ⟨items, pos, direction, true, hasMore⟩

namespace MemBTreeIndexIterator

def next (it : MemBTreeIndexIterator) : Bool × MemBTreeIndexIterator :=
  if it.firstCall then (it.hasMore, { it with firstCall := false })
  else if !it.hasMore then (false, it)
  else
    let (pos, hasMore) := match it.direction with
      | .forward => (it.pos + 1, decide (it.pos + 1 < it.snapshot.length))
      | .backward => stepBack it.pos
    (hasMore, { it with pos, hasMore })

def item (it : MemBTreeIndexIterator) : Option BTreeItem := it.snapshot[it.pos]?

end MemBTreeIndexIterator

/-- A scan that is open while its index is changed by others. -/
structure OpenScan where
  index : MemBTreeIndex
  iterator : MemBTreeIndexIterator

inductive ScanCall where
  | next
  | insertEntry (self : ObjectID) (key : Key) (rid : RecordID) (txn : Option TransactionContext)
  | deleteEntry (self : ObjectID) (key : Key) (rid : RecordID) (txn : Option TransactionContext)

def ScanCall.isNext : ScanCall → Bool
  | .next => true
  | .insertEntry .. | .deleteEntry .. => false

namespace OpenScan

def changed (scan : OpenScan) (result : Option (MemBTreeIndex × Option TransactionContext)) : OpenScan :=
  { scan with index := (result.map Prod.fst).getD scan.index }

/-- What `Next` answers, if it is called: an item, or that there is none. -/
def step (scan : OpenScan) : ScanCall → List (Option BTreeItem) × OpenScan
  | .next =>
    let (found, iterator) := scan.iterator.next
    ([if found then iterator.item else none], { scan with iterator })
  | .insertEntry self key rid txn => ([], scan.changed (scan.index.insertEntry self key rid txn))
  | .deleteEntry self key rid txn => ([], scan.changed (scan.index.deleteEntry self key rid txn))

def answers (scan : OpenScan) : List ScanCall → List (Option BTreeItem)
  | [] => []
  | call :: rest => (scan.step call).1 ++ (scan.step call).2.answers rest

end OpenScan
end GoDB.Indexing
