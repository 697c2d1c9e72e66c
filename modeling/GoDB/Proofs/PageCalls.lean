import GoDB.Execution.ConcurrentTableHeap
import GoDB.Proofs.PageAccessRuns

/-! What a call does to one page, the same in every heap that has this page. -/

namespace GoDB.Execution
open Common Lib Storage HeapPage Option PageAccesses

namespace TableHeap
variable {heap : TableHeap} {rowSize : Nat} {frame later : PageBytes} {pageID : PageID} {rid : RecordID} {i : Nat}

def setFrame (heap : TableHeap) (pageID : PageID) (frame : PageBytes) : TableHeap :=
  { heap with pages := heap.pages.set pageID.pageNum.toNat frame }

abbrev Laid (rowSize : Nat) (frame : PageBytes) : Prop := (asHeapPage frame).Formatted rowSize

variable {page : HeapPage}

theorem laid_of_formatted (format : page.Formatted rowSize) : Laid rowSize page.frame := by
  rw [Laid, format.viewed]
  exact format

theorem setFrame_same (fetched : heap.getPage pageID = some frame) : heap.setFrame pageID frame = heap := by
  obtain ⟨n, rfl, found⟩ := getPage_eq_some fetched
  obtain ⟨inside, rfl⟩ := List.getElem?_eq_some_iff.mp found
  rw [setFrame, Int.toNat_natCast, List.set_getElem_self]

def Answers (call : HeapCall) (pageID : PageID) (frame : PageBytes) (reply : HeapReply) (later : PageBytes) : Prop :=
  ∀ heap : TableHeap, heap.getPage pageID = some frame → heap.invoke call = some (reply, heap.setFrame pageID later)

variable {call : HeapCall}

theorem exists_answers {α : Type} {act : TableHeap → HeapPage → Option (α × TableHeap)}
    {success : α → HeapReply} (result : α) (laid : Laid rowSize frame) (inside : i < maxSlots rowSize)
    (calls : ∀ heap : TableHeap, heap.invoke call = reply success (heap.onTuple ⟨pageID, i⟩ (act heap)))
    (acts : ∀ heap : TableHeap, heap.getPage pageID = some frame →
      act heap (.asHeapPage frame) = some (result, heap.setFrame pageID later))
    (kept : Laid rowSize later) : ∃ reply later, Answers call pageID frame reply later ∧ Laid rowSize later := by
  have gone := @isGone_eq i _ _ pageID laid inside
  cases vanished : !((asHeapPage frame).slotView i).allocated || ((asHeapPage frame).slotView i).deleted with
  | true =>
    rw [vanished] at gone
    refine ⟨.failed .errTupleDeleted, frame, fun heap fetched => ?_, laid⟩
    simp [calls, onTuple, fetched, gone, reply, setFrame_same]
  | false =>
    rw [vanished] at gone
    refine ⟨success result, later, fun heap fetched => ?_, kept⟩
    simp [calls, onTuple, fetched, gone, reply, acts heap fetched]

theorem exists_answers_delete (laid : Laid rowSize frame) (inside : i < maxSlots rowSize) (pageID : PageID) :
    ∃ reply later, Answers (.deleteTuple ⟨pageID, i⟩) pageID frame reply later ∧ Laid rowSize later := by
  obtain ⟨page, marked, edits⟩ := @markDeleted_edits _ _ _ pageID laid inside true
  refine exists_answers () laid inside (fun _ => rfl) (fun heap fetched => ?_) (laid_of_formatted edits.format)
  rw [marked]
  rfl

theorem exists_answers_update (laid : Laid rowSize frame) (inside : i < maxSlots rowSize) (pageID : PageID)
    (row : RawTuple) :
    ∃ reply later, Answers (.updateTuple ⟨pageID, i⟩ row) pageID frame reply later ∧ Laid rowSize later := by
  obtain ⟨page, copied, format⟩ := @copyTuple_formatted _ _ _ pageID laid inside row
  refine exists_answers () laid inside (fun _ => rfl) (fun heap fetched => ?_) (laid_of_formatted format)
  rw [copied]
  rfl

theorem exists_answers_read (laid : Laid rowSize frame) (inside : i < maxSlots rowSize) (pageID : PageID)
    (buffer : List Byte) :
    ∃ reply later, Answers (.readTuple ⟨pageID, i⟩ buffer) pageID frame reply later ∧ Laid rowSize later := by
  have read := @accessTuple_eq _ _ _ pageID laid inside
  refine exists_answers (copy buffer ((asHeapPage frame).slotView i).row) laid inside (fun _ => rfl)
    (fun heap fetched => ?_) laid
  rw [read, setFrame_same fetched]
  rfl

def AboutRow (rid : RecordID) : HeapCall → Prop
  | .updateTuple named _ | .deleteTuple named | .readTuple named _ => named = rid
  | .insertTuple _ | .vacuumPage _ => False

theorem exists_answers_row (about : AboutRow rid call) (laid : Laid rowSize frame) (positive : 0 ≤ rid.slot)
    (inside : rid.slot < maxSlots rowSize) :
    ∃ reply later, Answers call rid.pageID frame reply later ∧ Laid rowSize later := by
  obtain ⟨pageID, slot⟩ := rid
  lift slot to Nat using positive
  have inside : slot < maxSlots rowSize := Int.ofNat_lt.mp inside
  cases call with
  | updateTuple named row =>
    cases about
    exact exists_answers_update laid inside pageID row
  | deleteTuple named =>
    cases about
    exact exists_answers_delete laid inside pageID
  | readTuple named buffer =>
    cases about
    exact exists_answers_read laid inside pageID buffer
  | insertTuple | vacuumPage => exact about.elim

variable {reply : HeapReply}

theorem not_inserted {later : TableHeap} (about : AboutRow rid call)
    (invoked : heap.invoke call = some (reply, later)) (given : RecordID) : reply ≠ .inserted given := by
  rintro rfl
  cases call with
  | insertTuple | vacuumPage => exact about.elim
  | updateTuple | deleteTuple | readTuple =>
    obtain ⟨⟨answer, _⟩, -, same⟩ := map_eq_some_iff.mp invoked
    cases answer <;> cases same

theorem exists_answers_vacuum (laid : Laid rowSize frame) (pageID : PageID) :
    ∃ later, (PageAccesses.vacuumPage pageID).run frame = some ((), later) ∧
      Answers (.vacuumPage pageID) pageID frame .done later ∧ Laid rowSize later := by
  obtain ⟨page, folded, format, -⟩ := @vacuumSlots_spec _ _ pageID laid (maxSlots rowSize) (Nat.le_refl _)
  rw [← laid.slots] at folded
  refine ⟨page.frame, ?_, fun heap fetched => ?_, laid_of_formatted format⟩
  · rw [run_vacuumPage pageID laid, folded]
    rfl
  · simp [invoke, vacuumPage, fetched, folded, reply, putPage, setFrame]

theorem fillSlot_formatted (format : page.Formatted rowSize) (inside : i < maxSlots rowSize)
    (pageID : PageID) (row : RawTuple) :
    ∃ later, fillSlot page ⟨pageID, i⟩ row = some later ∧ later.Formatted rowSize := by
  obtain ⟨marked, allocated, edits⟩ := @markAllocated_edits _ _ _ pageID format inside true
  obtain ⟨later, copied, kept⟩ := @copyTuple_formatted _ _ _ pageID edits.format inside row
  exact ⟨later, by simp [fillSlot, allocated, copied], kept⟩

theorem exists_filled (heap : TableHeap) (row : RawTuple) (room : heap.pages.length + 1 < 2 ^ 31) :
    ∃ later, (∀ frame, (fillNewPage heap.desc heap.nextRID row).run frame = some ((), later)) ∧
      heap.insertInNewPage row = some (.ok heap.nextRID, { heap with pages := heap.pages ++ [later] }) ∧
      Laid heap.desc.bytesPerTuple later := by
  obtain ⟨start, initialized, format, -⟩ := initializeHeapPage_eq heap.desc
  obtain ⟨page, filled, kept⟩ := @fillSlot_formatted _ 0 _ format (maxSlots_pos heap.desc.fits) heap.nextRID.pageID row
  refine ⟨page.frame, fun frame => ?_, ?_, laid_of_formatted kept⟩
  · rw [run_fillNewPage, initialized, bind_some]
    exact congrArg (Option.map _) filled
  · rw [insertInNewPage, if_pos room, initialized]
    exact congrArg (bind · _) filled

theorem insert_cases (laid : Laid rowSize frame) (row : RawTuple) :
    (∃ slot later, slot < maxSlots rowSize ∧ Laid rowSize later ∧ ∀ heap : TableHeap, heap.pages.getLast? = some frame →
      heap.insertInLastPage (.ofSlots (maxSlots rowSize)) row =
        some (some (⟨heap.lastPage, (slot : Nat)⟩, heap.setFrame heap.lastPage later)) ∧
      heap.insertTuple row = some (.ok ⟨heap.lastPage, (slot : Nat)⟩, heap.setFrame heap.lastPage later)) ∨
    ∀ heap : TableHeap, heap.pages.getLast? = some frame →
      heap.insertInLastPage (.ofSlots (maxSlots rowSize)) row = some none ∧
      heap.insertTuple row = heap.insertInNewPage row := by
  have seen : (PageLayout.ofSlots (maxSlots rowSize)).view frame = .asHeapPage frame := by
    rw [← laid.slots]
    rfl
  rcases findFreeSlot_eq laid with ⟨slot, inside, free, -⟩ | full
  · obtain ⟨page, filled, kept⟩ := fillSlot_formatted laid inside ⟨0, 0⟩ row
    refine .inl ⟨slot, page.frame, inside, laid_of_formatted kept, fun heap last => ?_⟩
    -- The slot of a record id is all that a page looks at.
    have filled (pageID : PageID) : fillSlot (.asHeapPage frame) ⟨pageID, slot⟩ row = some page := filled
    constructor
    · simp [insertInLastPage, last, seen, free, filled]
      exact ⟨rfl, rfl⟩
    · simp [insertTuple, last, free, filled]
      exact ⟨rfl, rfl⟩
  · refine .inr fun heap last => ⟨?_, ?_⟩
    · simp [insertInLastPage, last, seen, full]
    · simp [insertTuple, last, full]

theorem numSlots_of_laid (laid : Laid rowSize frame) : frame.uint16 10 = maxSlots rowSize := laid.slots

theorem exists_visit (laid : Laid rowSize frame) (inside : i < maxSlots rowSize) (pageID : PageID) :
    ∃ answer, visitSlot (.ofSlots (maxSlots rowSize)) frame ⟨pageID, i⟩ = some answer ∧
      (∀ rid, answer ≠ .reply (.inserted rid)) ∧ ∀ heap : TableHeap, heap.getPage pageID = some frame →
        heap.Serves (.visit pageID i) answer heap := by
  have slots := numSlots_of_laid laid
  obtain ⟨answer, visited, barren⟩ : ∃ answer, visitSlot (.ofSlots (maxSlots rowSize)) frame ⟨pageID, i⟩ = some answer ∧
      ∀ rid, answer ≠ .reply (.inserted rid) := by
    have seen : (PageLayout.ofSlots (maxSlots rowSize)).view frame = .asHeapPage frame := by
      rw [← slots]
      rfl
    simp only [visitSlot, seen, isGone_eq laid inside, accessTuple_eq laid inside, bind_eq_bind, bind_some]
    split <;> exact ⟨_, rfl, nofun⟩
  refine ⟨answer, visited, barren, fun heap fetched => ?_⟩
  simp [Serves, serve, visit, fetched, slots, Nat.not_le.mpr inside, visited]

theorem serves_call {later : TableHeap} (invoked : heap.invoke call = some (reply, later)) :
    heap.Serves (.call call) (.reply reply) later := by
  rw [Serves, serve, invoked, map_some]

variable {row : RawTuple}

theorem serves_insert {later : TableHeap} (inserted : heap.insertTuple row = some (.ok rid, later)) :
    heap.Serves (.call (.insertTuple row)) (.reply (.inserted rid)) later := by
  refine serves_call ?_
  rw [invoke, inserted]
  rfl

theorem serves_storage (failed : heap.insertTuple row = some (.error .storage, heap)) :
    heap.Serves (.call (.insertTuple row)) .storage heap := by
  refine serves_call ?_
  rw [invoke, failed]
  rfl

theorem serves_past (laid : Laid rowSize frame) (behind : maxSlots rowSize ≤ i) (fetched : heap.getPage pageID = some frame) :
    heap.Serves (.visit pageID i) .past heap := by
  simp [Serves, serve, visit, fetched, numSlots_of_laid laid, behind]

end TableHeap
end GoDB.Execution
