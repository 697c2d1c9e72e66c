import GoDB.Indexing.Index

/-! Reading an index. A scan is given by the entries that its iterator passes, in
order; the tree is copied at its start, so later changes do not show. -/

namespace GoDB.Indexing
open Common Lib

inductive ScanDirection where
  | forward
  | backward
deriving DecidableEq

def zeroRID : RecordID := ⟨⟨0, 0⟩, 0⟩

namespace MemBTreeIndex
variable (index : MemBTreeIndex)

def seek (key : Key) : Nat :=
  index.tree.items.findIdx fun item => !BTreeItem.less index.metadata.keySchema item ⟨key, zeroRID⟩

def scanKey (key : Key) : List RecordID :=
  ((index.tree.items.drop (index.seek key)).takeWhile (·.key = key)).map (·.rid)

/-- No start is `NilKey`. -/
def scan (start : Option Key) (direction : ScanDirection) : List BTreeItem :=
  let items := index.tree.items
  match direction, start with
  | .forward, none => items
  | .forward, some key => items.drop (index.seek key)
  | .backward, none => items.reverse
  | .backward, some key =>
    match items[index.seek key]? with
    | none => items.reverse
    | some item =>
      if item.key.compare index.metadata.keySchema key = .gt then (items.take (index.seek key)).reverse
      else (items.take (index.seek key + 1)).reverse

end MemBTreeIndex

def MemHashIndex.scanKey (index : MemHashIndex) (key : Key) : List RecordID := (index.m.lookup key).getD []

namespace Index

def scanKey : Index → Key → List RecordID
  | .hash index, key => index.scanKey key
  | .btree index, key => index.scanKey key

def scan : Index → Option Key → ScanDirection → Option (List RecordID)
  | .hash _, _, _ => none
  | .btree index, start, direction => some ((index.scan start direction).map (·.rid))

end Index
end GoDB.Indexing
