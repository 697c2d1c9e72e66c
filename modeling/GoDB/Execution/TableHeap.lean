import GoDB.Storage.HeapPage

/-! A table stored as a file of heap pages. Every page is read and changed through
the buffer pool, which hands out the bytes last written to it, so the file is
the list of these. A result is missing where the source panics. -/

namespace GoDB.Execution
open Common Lib Storage

inductive HeapError where
  | errTupleDeleted
  | storage
deriving DecidableEq

structure TableHeap where
  oid : ObjectID
  desc : RawTupleDesc
  pages : List PageBytes

abbrev Answer (α : Type) := Except HeapError α × TableHeap

namespace TableHeap

def newTableHeap (oid : ObjectID) (desc : RawTupleDesc) : TableHeap := ⟨oid, desc, []⟩

variable (heap : TableHeap) (pageID : PageID)

def getPage : Option PageBytes :=
  if pageID.oid = heap.oid ∧ 0 ≤ pageID.pageNum then heap.pages[pageID.pageNum.toNat]? else none

variable (page : HeapPage) (rid : RecordID) (row : RawTuple)

def putPage : TableHeap :=
  { heap with pages := heap.pages.set pageID.pageNum.toNat page.frame }

def fillSlot : Option HeapPage := do
  (← page.markAllocated rid true).copyTuple rid row

/-- The number of pages is kept in 32 bits: the file does not grow beyond. -/
def insertInNewPage : Option (Answer RecordID) :=
  if heap.pages.length + 1 < 2 ^ 31 then do
    let rid : RecordID := ⟨⟨heap.oid, heap.pages.length⟩, 0⟩
    let page ← fillSlot (.asHeapPage (← initializeHeapPage heap.desc)) rid row
    return (.ok rid, { heap with pages := heap.pages ++ [page.frame] })
  else some (.error .storage, heap)

def insertTuple : Option (Answer RecordID) :=
  match heap.pages.getLast? with
  | none => heap.insertInNewPage row
  | some frame => do
    let page := HeapPage.asHeapPage frame
    match ← page.findFreeSlot with
    | some slot =>
      let rid : RecordID := ⟨⟨heap.oid, (heap.pages.length - 1 : Nat)⟩, slot⟩
      return (.ok rid, heap.putPage rid.pageID (← fillSlot page rid row))
    | none => heap.insertInNewPage row

/-- `!page.IsAllocated(rid) || page.IsDeleted(rid)`. -/
def isGone : Option Bool := do
  if ← page.isAllocated rid then page.isDeleted rid else return true

def onTuple {α : Type} (heap : TableHeap) (rid : RecordID) (act : HeapPage → Option (α × TableHeap)) : Option (Answer α) :=
  match heap.getPage rid.pageID with
  | none => some (.error .storage, heap)
  | some frame => do
    let page := HeapPage.asHeapPage frame
    if ← isGone page rid then return (.error .errTupleDeleted, heap)
    let (result, heap) ← act page
    return (.ok result, heap)

def deleteTuple : Option (Answer Unit) :=
  heap.onTuple rid fun page => do
    return ((), heap.putPage rid.pageID (← page.markDeleted rid true))

def readTuple (buffer : List Byte) : Option (Answer (List Byte)) :=
  heap.onTuple rid fun page => do
    return (copy buffer (← page.accessTuple rid), heap)

def updateTuple (updatedTuple : RawTuple) : Option (Answer Unit) :=
  heap.onTuple rid fun page => do
    return ((), heap.putPage rid.pageID (← page.copyTuple rid updatedTuple))

def vacuumSlot (i : Nat) : Option HeapPage := do
  let rid : RecordID := ⟨pageID, i⟩
  let free ← if ← page.isDeleted rid then pure true else Bool.not <$> page.isAllocated rid
  if free then (← page.markDeleted rid false).markAllocated rid false else return page

def vacuumPage : Option (Answer Unit) :=
  match heap.getPage pageID with
  | none => some (.error .storage, heap)
  | some frame => do
    let page := HeapPage.asHeapPage frame
    let page ← (List.range page.numSlots).foldlM (vacuumSlot pageID) page
    return (.ok (), heap.putPage pageID page)

end TableHeap

inductive HeapCall where
  | insertTuple (row : RawTuple)
  | updateTuple (rid : RecordID) (row : RawTuple)
  | deleteTuple (rid : RecordID)
  | readTuple (rid : RecordID) (buffer : List Byte)
  | vacuumPage (pageID : PageID)

inductive HeapReply where
  | inserted (rid : RecordID)
  | bytes (row : RawTuple)
  | done
  | failed (error : HeapError)
deriving DecidableEq

def reply {α : Type} (success : α → HeapReply) : Option (Answer α) → Option (HeapReply × TableHeap) :=
  Option.map fun
    | (.ok result, heap) => (success result, heap)
    | (.error error, heap) => (.failed error, heap)

def TableHeap.invoke (heap : TableHeap) : HeapCall → Option (HeapReply × TableHeap)
  | .insertTuple row => reply .inserted (heap.insertTuple row)
  | .updateTuple rid row => reply (fun _ => .done) (heap.updateTuple rid row)
  | .deleteTuple rid => reply (fun _ => .done) (heap.deleteTuple rid)
  | .readTuple rid buffer => reply .bytes (heap.readTuple rid buffer)
  | .vacuumPage pageID => reply (fun _ => .done) (heap.vacuumPage pageID)

/-- The latches and the pin on the current page are left out. -/
structure TableHeapIterator where
  tableHeap : TableHeap
  numPages : Nat
  currentPageNum : Nat
  currentSlot : Int
  currentHeapPage : Option HeapPage
  err : Option HeapError

namespace TableHeapIterator
variable (it : TableHeapIterator)

def currentRID : RecordID := ⟨⟨it.tableHeap.oid, it.currentPageNum⟩, it.currentSlot⟩

def currentTuple : Option RawTuple := do
  (← it.currentHeapPage).accessTuple it.currentRID

def fetch : Option HeapPage :=
  it.currentHeapPage.or ((it.tableHeap.getPage ⟨it.tableHeap.oid, it.currentPageNum⟩).map .asHeapPage)

/-- How much of the table lies ahead: no page has as many slots. -/
def ahead : Nat := (it.numPages - it.currentPageNum) * 65538 + (65536 - it.currentSlot).toNat

/-- One turn of the source's loop is one unfolding. -/
def next (it : TableHeapIterator) : Option (Bool × TableHeapIterator) :=
  if it.numPages ≤ it.currentPageNum then some (false, { it with currentSlot := it.currentSlot + 1 })
  else match it.fetch with
    | none => some (false, { it with currentSlot := it.currentSlot + 1, err := some .storage })
    | some page =>
      if page.numSlots ≤ it.currentSlot + 1 then
        next { it with currentHeapPage := none, currentPageNum := it.currentPageNum + 1, currentSlot := -1 }
      else
        let moved := { it with currentSlot := it.currentSlot + 1, currentHeapPage := some page }
        match TableHeap.isGone page moved.currentRID with
        | none => none
        | some false => some (true, moved)
        | some true => next moved
termination_by it.ahead
decreasing_by
  · simp only [ahead]
    omega
  · have bounded : page.numSlots < 65536 := page.frame.uint16_lt 10
    simp only [ahead]
    omega

theorem ahead_of_next {it after : TableHeapIterator} (advanced : it.next = some (true, after)) : after.ahead < it.ahead := by
  fun_induction next it with
  | case1 | case2 | case4 => cases advanced
  | case3 it inside page fetched past ih =>
    refine (ih advanced).trans ?_
    simp only [ahead]
    omega
  | case5 it inside page fetched more moved live =>
    have same : moved = after := congrArg Prod.snd (Option.some.inj advanced)
    have bounded : page.numSlots < 65536 := page.frame.uint16_lt 10
    rw [← same]
    simp only [ahead, moved]
    omega
  | case6 it inside page fetched more moved gone ih =>
    have bounded : page.numSlots < 65536 := page.frame.uint16_lt 10
    refine (ih advanced).trans ?_
    simp only [ahead, moved]
    omega

/-- A pass from here to the end: every `Next` that returns true, with what
`CurrentRID` and `CurrentTuple` return then. -/
inductive Pass : TableHeapIterator → List (RecordID × RawTuple) → Prop where
  | done {it after} (finished : it.next = some (false, after)) (clean : after.err = none) : Pass it []
  | yield {it after row rest} (advanced : it.next = some (true, after)) (current : after.currentTuple = some row)
      (more : Pass after rest) : Pass it ((after.currentRID, row) :: rest)

end TableHeapIterator

def TableHeap.iterator (heap : TableHeap) : TableHeapIterator := ⟨heap, heap.pages.length, 0, -1, none, none⟩

end GoDB.Execution
