import GoDB.Execution.TableHeap
import GoDB.Lib.Linearization
import GoDB.Lib.Run
import GoDB.Storage.PageAccesses

/-! A table heap under any interleaving of its callers. A section under the latch of a page
is one step, and so is every access to a page that is made without the latch. The latch that
an iterator keeps after a row only holds writers back; it is left out, so that there are more
interleavings here. -/

namespace GoDB.Execution
open Common Lib Storage

/-- The calls on a heap and the turns of the loop of `TableHeapIterator.Next`. -/
inductive SharedCall where
  | call (call : HeapCall)
  | visit (pageID : PageID) (slot : Nat)

inductive HeapMethod where
  | insertTuple
  | updateTuple
  | deleteTuple
  | readTuple
  | vacuumPage
  /-- `TableHeapIterator.Next`. -/
  | next
deriving DecidableEq

def SharedCall.method : SharedCall → HeapMethod
  | .call (.insertTuple _) => .insertTuple
  | .call (.updateTuple _ _) => .updateTuple
  | .call (.deleteTuple _) => .deleteTuple
  | .call (.readTuple _ _) => .readTuple
  | .call (.vacuumPage _) => .vacuumPage
  | .visit _ _ => .next

inductive SharedReply where
  | reply (reply : HeapReply)
  | past
  | skipped
  | row (row : RawTuple)
deriving DecidableEq

def SharedReply.storage : SharedReply := .reply (.failed .storage)

namespace TableHeap

/-- The part of a turn under the latch: the slot is checked, and `CurrentTuple` reads its row. -/
def visitSlot (layout : PageLayout) (frame : PageBytes) (rid : RecordID) : Option SharedReply := do
  if ← isGone (layout.view frame) rid then return .skipped
  else return .row (← (layout.view frame).accessTuple rid)

variable (heap : TableHeap)

def visit (pageID : PageID) (slot : Nat) : Option SharedReply :=
  match heap.getPage pageID with
  | none => some .storage
  | some frame =>
    if frame.uint16 10 ≤ slot then some .past
    else visitSlot (.ofSlots (frame.uint16 10)) frame ⟨pageID, slot⟩

def serve : SharedCall → Option (SharedReply × TableHeap)
  | .call call => (heap.invoke call).map fun (reply, later) => (.reply reply, later)
  | .visit pageID slot => (heap.visit pageID slot).map fun reply => (reply, heap)

def Serves (call : SharedCall) (answer : SharedReply) (later : TableHeap) : Prop :=
  heap.serve call = some (answer, later)

def HasSlot (rid : RecordID) : Prop :=
  (heap.getPage rid.pageID).isSome ∧ 0 ≤ rid.slot ∧ rid.slot < maxSlots heap.desc.bytesPerTuple

def Proper : SharedCall → Prop
  | .call (.insertTuple _) => True
  | .call (.updateTuple rid _) | .call (.deleteTuple rid) | .call (.readTuple rid _) => heap.HasSlot rid
  | .call (.vacuumPage pageID) | .visit pageID _ => (heap.getPage pageID).isSome

/-- The part of `InsertTuple` under the latch of the last page. Nothing is inserted when
the page is full. -/
def insertInLastPage (layout : PageLayout) (row : RawTuple) : Option (Option (RecordID × TableHeap)) := do
  let page := layout.view (← heap.pages.getLast?)
  match ← page.findFreeSlot with
  | some slot =>
    let rid : RecordID := ⟨⟨heap.oid, (heap.pages.length - 1 : Nat)⟩, slot⟩
    return some (rid, heap.putPage rid.pageID (← fillSlot page rid row))
  | none => return none

def lastPage : PageID := ⟨heap.oid, (heap.pages.length - 1 : Nat)⟩

/-- The page that `AllocatePage` adds, and its first slot. -/
def nextRID : RecordID := ⟨⟨heap.oid, heap.pages.length⟩, 0⟩

end TableHeap

inductive HeapPhase where
  /-- Before `mu.Lock` in `InsertTuple`, before `GetPage` in the others. -/
  | waiting
  /-- `InsertTuple` has `mu`; before `AsHeapPage`. -/
  | locked
  /-- Before the latch of the last page. -/
  | decoded
  /-- The last page is full; before `AllocatePage`. -/
  | allocating
  /-- Without the latch on a page, before these accesses. -/
  | working (pageID : PageID) (rest : PageAccesses Unit) (answer : SharedReply)
  /-- The iterator has its page; before `NumSlots`. -/
  | fetched
  /-- Before the latch of the iterator's page. -/
  | inRange
  | finished (answer : SharedReply)
  | returned (answer : SharedReply)
  | panicked

/-- The call neither has to add a page nor has a page in hand without its latch. -/
def HeapPhase.Idle : HeapPhase → Prop
  | .allocating | .working _ _ _ => False
  | .waiting | .locked | .decoded | .fetched | .inRange | .finished _ | .returned _ | .panicked => True

/-- A call and its variable `heapPage`. An iterator keeps that from one turn to the next. -/
structure RunningHeapCall where
  call : SharedCall
  heapPage : Option PageLayout
  phase : HeapPhase

structure SharedTableHeap where
  heap : TableHeap
  /-- The insertion that holds `mu`. -/
  mu : Option Nat
  calls : List RunningHeapCall

inductive HeapAction where
  /-- A turn of an iterator may follow an earlier one on the same page. -/
  | invoke (id : Nat) (call : SharedCall) (previous : Option Nat)
  | step (id : Nat)
  | respond (id : Nat) (answer : SharedReply)

def HeapAction.event : HeapAction → Option (Event SharedCall SharedReply)
  | .invoke id call _ => some (.invoke id call)
  | .step _ => none
  | .respond id answer => some (.respond id answer)

namespace SharedTableHeap

def new (heap : TableHeap) : SharedTableHeap := ⟨heap, none, []⟩

variable (state : SharedTableHeap) (id : Nat)

def goto (phase : HeapPhase) : SharedTableHeap :=
  { state with calls := state.calls.modify id fun running => { running with phase } }

/-- `heapPage := frame.AsHeapPage()`. -/
def decode (frame : PageBytes) (phase : HeapPhase) : SharedTableHeap :=
  { state with
    calls := state.calls.modify id fun running =>
      { running with heapPage := some (.ofSlots (frame.uint16 10)), phase } }

variable (pageID : PageID)

def setPage (frame : PageBytes) : SharedTableHeap :=
  { state with heap := { state.heap with pages := state.heap.pages.set pageID.pageNum.toNat frame } }

/-- The next access to a page without its latch. -/
def work (answer : SharedReply) (frame : PageBytes) (code : PageAccesses Unit) : SharedTableHeap :=
  let (rest, frame) := code.step frame
  (state.setPage pageID frame).goto id <|
    match rest with
    | .done _ => .finished answer
    | .failed => .panicked
    | rest => .working pageID rest answer

/-- A call that does all of its work under the latch. -/
def runLatched (call : HeapCall) : SharedTableHeap :=
  match state.heap.invoke call with
  | some (reply, heap) => { state with heap }.goto id (.finished (.reply reply))
  | none => state.goto id .panicked

def start : SharedCall → Option SharedTableHeap
  | .call (.insertTuple _) =>
    if state.mu.isSome then none else some ({ state with mu := some id }.goto id .locked)
  | .call (.vacuumPage pageID) =>
    match state.heap.getPage pageID with
    | some frame => some (state.work id pageID (.reply .done) frame (PageAccesses.vacuumPage pageID))
    | none => some (state.goto id (.finished .storage))
  | .call call => some (state.runLatched id call)
  | .visit pageID _ =>
    match state.heap.getPage pageID with
    | some frame => some (state.decode id frame .fetched)
    | none => some (state.goto id (.finished .storage))

/-- `NumPages`, and `AsHeapPage` for the last page. -/
def openLastPage : SharedTableHeap :=
  match state.heap.pages.getLast? with
  | some frame => state.decode id frame .decoded
  | none => state.goto id .allocating

def insertLatched (layout : PageLayout) (row : RawTuple) : SharedTableHeap :=
  match state.heap.insertInLastPage layout row with
  | some (some (rid, heap)) => { state with heap }.goto id (.finished (.reply (.inserted rid)))
  | some none => state.goto id .allocating
  | none => state.goto id .panicked

/-- The new page is there for all from now on. -/
def allocatePage (row : RawTuple) : SharedTableHeap :=
  if state.heap.pages.length + 1 < 2 ^ 31 then
    let rid := state.heap.nextRID
    { state with heap := { state.heap with pages := state.heap.pages ++ [PageBytes.zero] } }.goto id
      (.working rid.pageID (PageAccesses.fillNewPage state.heap.desc rid row) (.reply (.inserted rid)))
  else state.goto id (.finished .storage)

def compareSlot (slot : Nat) (frame : PageBytes) : SharedTableHeap :=
  state.goto id (if frame.uint16 10 ≤ slot then .finished .past else .inRange)

def visitLatched (layout : PageLayout) (frame : PageBytes) (rid : RecordID) : SharedTableHeap :=
  match TableHeap.visitSlot layout frame rid with
  | some answer => state.goto id (.finished answer)
  | none => state.goto id .panicked

/-- The next step of a call. Only `mu` keeps a call waiting. -/
def advance (running : RunningHeapCall) : Option SharedTableHeap :=
  match running.phase, running.call with
  | .waiting, call => state.start id call
  | .locked, _ => some (state.openLastPage id)
  | .decoded, .call (.insertTuple row) => do return state.insertLatched id (← running.heapPage) row
  | .allocating, .call (.insertTuple row) => some (state.allocatePage id row)
  | .working pageID rest answer, _ => do return state.work id pageID answer (← state.heap.getPage pageID) rest
  | .fetched, .visit pageID slot => do return state.compareSlot id slot (← state.heap.getPage pageID)
  | .inRange, .visit pageID slot => do
    return state.visitLatched id (← running.heapPage) (← state.heap.getPage pageID) ⟨pageID, slot⟩
  | _, _ => none

/-- An iterator comes to a page at its first slot, or goes on from the slot before. -/
def enter (call : SharedCall) : Option Nat → Option RunningHeapCall
  | none =>
    match call with
    | .visit _ (_ + 1) => none
    | call => some ⟨call, none, .waiting⟩
  | some previous =>
    match call, state.calls[previous]? with
    | .visit pageID slot, some ⟨.visit pageID' slot', some layout, .returned _⟩ =>
      if pageID = pageID' ∧ slot = slot' + 1 then some ⟨call, some layout, .fetched⟩ else none
    | _, _ => none

/-- `mu` is released on return. -/
def unlock : SharedTableHeap :=
  if state.mu = some id then { state with mu := none } else state

def step : HeapAction → Option SharedTableHeap
  | .invoke id call previous =>
    if id = state.calls.length then do
      let running ← state.enter call previous
      return { state with calls := state.calls ++ [running] }
    else none
  | .step id => do state.advance id (← state.calls[id]?)
  | .respond id answer =>
    match state.calls[id]? with
    | some ⟨_, _, .finished result⟩ =>
      if result = answer then some ((state.unlock id).goto id (.returned answer)) else none
    | _ => none

abbrev Stepped (state : SharedTableHeap) (action : HeapAction) (later : SharedTableHeap) : Prop :=
  state.step action = some later

def touched (running : RunningHeapCall) : Option PageID :=
  match running.phase, running.call with
  | .waiting, .call (.vacuumPage pageID) | .waiting, .visit pageID _ | .fetched, .visit pageID _
  | .inRange, .visit pageID _ | .working pageID _ _, _ => some pageID
  | .waiting, .call (.updateTuple rid _) | .waiting, .call (.deleteTuple rid)
  | .waiting, .call (.readTuple rid _) => some rid.pageID
  | .locked, _ | .decoded, _ => some state.heap.lastPage
  | _, _ => none

/-- No other call is at work on the page without its latch. -/
def Spared : Prop :=
  ∀ other call heapPage rest answer, other ≠ id → state.calls[other]? ≠ some ⟨call, heapPage, .working pageID rest answer⟩

/-- The step does not come between the accesses of another call to a page. -/
def Undisturbed : HeapAction → Prop
  | .step id => ∀ running pageID, state.calls[id]? = some running → state.touched running = some pageID →
      state.Spared id pageID
  | .invoke _ _ _ | .respond _ _ => True

def ProperAction : HeapAction → Prop
  | .invoke _ call _ => state.heap.Proper call
  | .step _ | .respond _ _ => True

def Issued (rid : RecordID) : Prop :=
  ∃ (id : Nat) (call : SharedCall) (heapPage : Option PageLayout),
    state.calls[id]? = some ⟨call, heapPage, .returned (.reply (.inserted rid))⟩

/-- Only these methods are called, for rows that were inserted and for pages that are there. -/
def Client (allowed : HeapMethod → Prop) (state : SharedTableHeap) : HeapAction → Prop
  | .invoke _ call _ => allowed call.method ∧
      match call with
      | .call (.insertTuple _) => True
      | .call (.updateTuple rid _) | .call (.deleteTuple rid) | .call (.readTuple rid _) => state.Issued rid
      | .call (.vacuumPage pageID) | .visit pageID _ => (state.heap.getPage pageID).isSome
  | .step _ | .respond _ _ => True

/-- No call is in the middle of its work. -/
def Quiet : Prop :=
  ∀ (id : Nat) (running : RunningHeapCall), state.calls[id]? = some running → running.phase.Idle

/-- No call has panicked, and the calls took effect in some order, one at a time, on the
pages as they are once no call is in the middle of its work. -/
def Linearizable (start : TableHeap) (steps : List (Taken SharedTableHeap HeapAction)) (final : SharedTableHeap) : Prop :=
  (∀ (id : Nat) (running : RunningHeapCall), final.calls[id]? = some running → running.phase ≠ .panicked) ∧
    ∃ order heap, Linearization TableHeap.Serves start (steps.filterMap (·.label.event)) order heap ∧
      (final.Quiet → heap = final.heap)

end SharedTableHeap
end GoDB.Execution
