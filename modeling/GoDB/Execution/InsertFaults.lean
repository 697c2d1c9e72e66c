import GoDB.Execution.TableHeap
import GoDB.Storage.PoolCalls

/-! `InsertTuple` while the storage manager fails, in a call of the heap itself or in one that
the buffer pool makes in `GetPage`. -/

namespace GoDB.Execution
open Common Lib Storage

variable {n : Nat}

/-- A call of `GetPage` that fails: the pool, the pages of all files and what goes wrong. -/
structure FailedGet (n : Nat) where
  pool : BufferPool Unit n
  pages : PageID → Bool
  faults : GetFaults

def FailedGet.call (get : FailedGet n) (pageID : PageID) : GetResult n × BufferPool Unit n :=
  get.pool.getPage get.pages () pageID get.faults

/-- What fails in a call, which then returns: `GetDBFile`, `NumPages`, `GetPage` of the last page,
`AllocatePage`, or `GetPage` of the page that was just allocated. -/
inductive InsertFault (n : Nat) where
  | none
  | file
  | numPages
  | lastPage (get : FailedGet n)
  | allocate
  | newPage (get : FailedGet n)

namespace TableHeap

def reload (heap : TableHeap) (pool : BufferPool Unit n) : TableHeap :=
  { heap with pages := heap.pages.mapIdx fun p _ => pool.content ⟨heap.oid, p⟩ }

def allocatePage (heap : TableHeap) : TableHeap := { heap with pages := heap.pages ++ [PageBytes.zero] }

/-- The file grows by a page of zeros before the page is fetched and given its header. -/
def insertInNewPageWith (fault : InsertFault n) (heap : TableHeap) (row : RawTuple) : Option (Answer RecordID) :=
  match fault with
  | .allocate => some (.error .storage, heap)
  | .newPage get =>
    if heap.pages.length + 1 < 2 ^ 31 then
      some (.error .storage, heap.allocatePage.reload (get.call ⟨heap.oid, heap.pages.length⟩).2)
    else some (.error .storage, heap)
  | _ => heap.insertInNewPage row

def insertTupleWith (fault : InsertFault n) (heap : TableHeap) (row : RawTuple) : Option (Answer RecordID) :=
  match fault with
  | .file | .numPages => some (.error .storage, heap)
  | _ => match heap.pages.getLast? with
    | none => heap.insertInNewPageWith fault row
    | some frame => match fault with
      | .lastPage get => some (.error .storage, heap.reload (get.call ⟨heap.oid, (heap.pages.length - 1 : Nat)⟩).2)
      | _ => do
        let page := HeapPage.asHeapPage frame
        match ← page.findFreeSlot with
        | some slot =>
          let rid : RecordID := ⟨⟨heap.oid, (heap.pages.length - 1 : Nat)⟩, slot⟩
          return (.ok rid, heap.putPage rid.pageID (← fillSlot page rid row))
        | none => heap.insertInNewPageWith fault row

/-- Only insertions are made to fail. -/
def invokeWith (heap : TableHeap) : HeapCall × InsertFault n → Option (HeapReply × TableHeap)
  | (.insertTuple row, fault) => reply .inserted (heap.insertTupleWith fault row)
  | (call, _) => heap.invoke call

end TableHeap
end GoDB.Execution
