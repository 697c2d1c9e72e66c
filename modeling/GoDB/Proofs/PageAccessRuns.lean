import GoDB.Proofs.TableHeapMap
import GoDB.Storage.PageAccesses

/-! The accesses to a page, when nothing comes between them, do what the operations of a heap
page do. -/

namespace GoDB.Storage
open Common Lib List Option Accesses Execution.TableHeap HeapPage PageBytes

namespace PageAccesses
variable {layout : PageLayout} {frame : PageBytes} {rid : RecordID}

theorem view_ofSlots (frame : PageBytes) : (PageLayout.ofSlots (frame.uint16 10)).view frame = .asHeapPage frame := rfl

@[simp] theorem frame_view (layout : PageLayout) (frame : PageBytes) : (layout.view frame).frame = frame := rfl

theorem run_loadBit (start stop numBits : Nat) (i : Int) (frame : PageBytes) : (loadBit start stop numBits i).run frame =
      ((bitmapAt start stop numBits frame).bind (·.loadBit i)).map fun bit => (bit, frame) := by
  simp only [loadBit, run]
  cases (bitmapAt start stop numBits frame).bind (·.loadBit i) <;> rfl

theorem run_setBit (start stop numBits : Nat) (i : Int) (on : Bool) (frame : PageBytes) :
    (setBit start stop numBits i on).run frame = (bitmapAt start stop numBits frame).bind fun bitmap =>
      (bitmap.setBit i on).bind fun r => (frame.write start stop r.2.bytes).map fun later => (r.1, later) := by
  simp only [setBit, run]
  cases viewed : bitmapAt start stop numBits frame with
  | none => rfl
  | some bitmap =>
    cases found : bitmap.board i with
    | none => simp [found, run, Bitmap.setBit]
    | some word =>
      simp only [bind_some, found, run, storeWord, viewed, Bitmap.setBit, map_some, bind_eq_bind]
      exact (map_eq_bind ..).symm

theorem run_isAllocated (layout : PageLayout) (rid : RecordID) (frame : PageBytes) :
    (isAllocated layout rid).run frame = ((layout.view frame).isAllocated rid).map fun bit => (bit, frame) := by
  simp only [isAllocated, run_bind]
  exact run_loadBit ..

theorem run_isDeleted (layout : PageLayout) (rid : RecordID) (frame : PageBytes) :
    (isDeleted layout rid).run frame = ((layout.view frame).isDeleted rid).map fun bit => (bit, frame) := by
  simp only [isDeleted, run_bind]
  exact run_loadBit ..

structure Does (layout : PageLayout) (code : PageAccesses Unit) (operation : HeapPage → Option HeapPage) : Prop where
  run : ∀ frame, code.run frame = (operation (layout.view frame)).map fun page => ((), page.frame)
  layout : ∀ frame page, operation (layout.view frame) = some page → page = layout.view page.frame

theorem Does.then {first second : PageAccesses Unit} {operation after : HeapPage → Option HeapPage}
    (does : Does layout first operation) (next : Does layout second after) :
    Does layout (do first; second) fun page => (operation page).bind after where
  run frame := by
    rw [run_bind, does.run]
    cases done : operation (layout.view frame) with
    | none => rfl
    | some page =>
      simp only [map_some, bind_some]
      rw [next.run, ← does.layout frame page done]
  layout frame page made := by
    obtain ⟨between, done, more⟩ := bind_eq_some_iff.mp made
    rw [does.layout frame between done] at more
    exact next.layout _ page more

theorem does_nothing (layout : PageLayout) : Does layout (pure ()) some :=
  ⟨fun _ => rfl, fun _ _ made => by cases made; rfl⟩

theorem does_setBit {start stop : Nat} {first last : HeapPage → Nat} {rest : Bool → PageAccesses Unit}
    {after : Bool → HeapPage → Option HeapPage} (i : Int) (on : Bool) (begins : ∀ frame, first (layout.view frame) = start)
    (ends : ∀ frame, last (layout.view frame) = stop) (next : ∀ original, Does layout (rest original) (after original)) :
    Does layout (do rest (← setBit start stop (← numSlots) i on)) fun page =>
      (bitmapAt (first page) (last page) page.numSlots page.frame).bind fun bitmap => (bitmap.setBit i on).bind fun r =>
        (page.frame.write (first page) (last page) r.2.bytes).bind fun frame => after r.1 { page with frame } where
  run frame := by
    simp only [numSlots, loadUint16, run_bind, run, bind_some, run_setBit, begins, ends, frame_view, HeapPage.numSlots]
    cases bitmapAt start stop (frame.uint16 10) frame with
    | none => rfl
    | some bitmap =>
      simp only [bind_some]
      cases bitmap.setBit i on with
      | none => rfl
      | some changed =>
        simp only [bind_some]
        cases frame.write start stop changed.2.bytes with
        | none => rfl
        | some later => exact (next changed.1).run later
  layout frame page made := by
    obtain ⟨bitmap, -, made⟩ := bind_eq_some_iff.mp made
    obtain ⟨changed, -, made⟩ := bind_eq_some_iff.mp made
    obtain ⟨later, -, made⟩ := bind_eq_some_iff.mp made
    exact (next changed.1).layout later page made

section
variable (layout : PageLayout)

theorem does_markDeleted (rid : RecordID) (deleted : Bool) :
    Does layout (markDeleted layout rid deleted) (·.markDeleted rid deleted) :=
  @does_setBit layout _ _ deletedOffset tupleOffset _ _ rid.slot deleted (fun _ => rfl) (fun _ => rfl)
    fun _ => does_nothing layout

theorem does_putUint16 (number : HeapPage → Int) :
    Does layout (do putUint16 12 (number (layout.view (← .load .done)))) fun page => page.setNumUsed (number page) where
  run frame := by
    simp only [putUint16, run_bind, run, bind_some, setNumUsed, frame_view]
    cases frame.putUint16 12 (number (layout.view frame)) <;> rfl
  layout frame page made := by
    rw [setNumUsed] at made
    obtain ⟨later, -, made⟩ := bind_eq_some_iff.mp made
    cases made
    rfl

theorem does_countUsed (allocated wasAllocated : Bool) :
    Does layout (countUsed allocated wasAllocated) (·.countUsed allocated wasAllocated) := by
  unfold countUsed HeapPage.countUsed
  split
  · exact does_putUint16 layout fun page => page.numUsed + 1
  split
  · exact does_putUint16 layout fun page => page.numUsed - 1
  · exact does_nothing layout

theorem does_markAllocated (rid : RecordID) (allocated : Bool) :
    Does layout (markAllocated layout rid allocated) (·.markAllocated rid allocated) :=
  @does_setBit layout _ _ allocOffset deletedOffset _ _ rid.slot allocated (fun _ => rfl) (fun _ => rfl)
    fun wasAllocated => (does_countUsed layout allocated wasAllocated).then (does_markDeleted layout rid false)

theorem does_copyTuple (rid : RecordID) (row : RawTuple) :
    Does layout (copyTuple layout rid row) (·.copyTuple rid row) where
  run frame := by
    have start : (layout.view frame).rowStart rid = layout.tupleOffset + rid.slot * frame.uint16 8 := rfl
    simp only [copyTuple, rowSize, loadUint16, run_bind, run, bind_some, copyRow, HeapPage.copyTuple, ← start]
    split
    next => rfl
    next inside =>
      have stop : ((layout.view frame).rowStart rid + frame.uint16 8).toNat =
          ((layout.view frame).rowStart rid).toNat + frame.uint16 8 := by omega
      simp only [run, stop, frame_view, HeapPage.rowSize]
      cases frame.write ((layout.view frame).rowStart rid).toNat
        (((layout.view frame).rowStart rid).toNat + frame.uint16 8) row <;> rfl
  layout frame page made := by
    rw [HeapPage.copyTuple] at made
    split at made
    next => cases made
    next =>
      obtain ⟨later, -, made⟩ := bind_eq_some_iff.mp made
      cases made
      rfl

theorem does_fillSlot (rid : RecordID) (row : RawTuple) :
    Does layout (do markAllocated layout rid true; copyTuple layout rid row) (fillSlot · rid row) :=
  (does_markAllocated layout rid true).then (does_copyTuple layout rid row)

end

def free (page : HeapPage) (rid : RecordID) : Option Bool :=
  (page.isDeleted rid).bind fun deleted => if deleted then some true else (page.isAllocated rid).map Bool.not

theorem run_isFree (layout : PageLayout) (rid : RecordID) (frame : PageBytes) :
    (isFree layout rid).run frame = (free (layout.view frame) rid).map fun bit => (bit, frame) := by
  rw [isFree, run_bind, run_isDeleted, free]
  cases (layout.view frame).isDeleted rid with
  | none => rfl
  | some deleted =>
    cases deleted with
    | true => rfl
    | false =>
      simp only [map_some, bind_some, Bool.false_eq_true, if_false, run_bind, run_isAllocated]
      cases (layout.view frame).isAllocated rid <;> rfl

theorem vacuumSlot_eq (pageID : PageID) (page : HeapPage) (i : Nat) :
    Execution.TableHeap.vacuumSlot pageID page i = (free page ⟨pageID, i⟩).bind fun free =>
      if free then (page.markDeleted ⟨pageID, i⟩ false).bind (·.markAllocated ⟨pageID, i⟩ false) else some page := by
  rw [Execution.TableHeap.vacuumSlot, free]
  cases page.isDeleted ⟨pageID, i⟩ with
  | none => rfl
  | some deleted =>
    cases deleted with
    | true => rfl
    | false => cases page.isAllocated ⟨pageID, i⟩ <;> simp

theorem does_vacuumSlot (layout : PageLayout) (pageID : PageID) (i : Nat) :
    Does layout (vacuumSlot layout ⟨pageID, i⟩) (Execution.TableHeap.vacuumSlot pageID · i) := by
  have clears := (does_markDeleted layout ⟨pageID, i⟩ false).then (does_markAllocated layout ⟨pageID, i⟩ false)
  refine ⟨fun frame => ?_, fun frame page made => ?_⟩
  · rw [vacuumSlot, run_bind, run_isFree, vacuumSlot_eq]
    cases free (layout.view frame) ⟨pageID, i⟩ with
    | none => rfl
    | some free =>
      cases free with
      | true => exact clears.run frame
      | false => rfl
  · rw [vacuumSlot_eq] at made
    obtain ⟨free, -, made⟩ := bind_eq_some_iff.mp made
    cases free with
    | true => exact clears.layout frame page made
    | false =>
      cases made
      rfl

theorem run_vacuumSlots {rowSize : Nat} {page : HeapPage} (pageID : PageID) (format : page.Formatted rowSize)
    {turns i : Nat} (enough : maxSlots rowSize < turns + i) :
    (vacuumSlots (.ofSlots (maxSlots rowSize)) pageID turns i).run page.frame =
      ((List.range' i (maxSlots rowSize - i)).foldlM (Execution.TableHeap.vacuumSlot pageID) page).map
        fun page => ((), page.frame) := by
  induction turns generalizing page i with
  | zero =>
    rw [Nat.sub_eq_zero_of_le (by omega)]
    rfl
  | succ turns ih =>
    have slots : page.frame.uint16 10 = maxSlots rowSize := format.slots
    have seen : (PageLayout.ofSlots (maxSlots rowSize)).view page.frame = page := by
      rw [← slots, view_ofSlots, format.viewed]
    simp only [vacuumSlots, numSlots, loadUint16, run_bind, run, bind_some, slots]
    by_cases inside : i < maxSlots rowSize
    · obtain ⟨later, view, turned, edits, -⟩ :=
        @vacuumSlot_edits i page rowSize pageID format inside
      have more : maxSlots rowSize - i = (maxSlots rowSize - (i + 1)) + 1 := by omega
      rw [if_pos inside, run_bind, (does_vacuumSlot _ pageID i).run, seen, more, List.range'_succ, foldlM_cons, turned]
      exact ih edits.format (by omega)
    · rw [if_neg inside, Nat.sub_eq_zero_of_le (by omega)]
      rfl

theorem run_vacuumPage {rowSize : Nat} (pageID : PageID) (format : (HeapPage.asHeapPage frame).Formatted rowSize) :
    (vacuumPage pageID).run frame =
      ((List.range (HeapPage.asHeapPage frame).numSlots).foldlM (Execution.TableHeap.vacuumSlot pageID)
        (.asHeapPage frame)).map fun page => ((), page.frame) := by
  have slots : frame.uint16 10 = maxSlots rowSize := format.slots
  have few : maxSlots rowSize < 65536 := slots ▸ frame.uint16_lt 10
  have runs := @run_vacuumSlots _ _ pageID format 65536 0 few
  have decoded : asHeapPage.run frame = some (.ofSlots (maxSlots rowSize), frame) := slots ▸ rfl
  rw [Nat.sub_zero, ← range_eq_range'] at runs
  rw [vacuumPage, run_bind, decoded, bind_some, format.slots]
  exact runs

theorem run_clear (count : Nat) (inside : count ≤ pageSize) (frame : PageBytes) :
    ∃ later, (clear count).run frame = some ((), later) ∧ slice later.val 0 count = List.replicate count 0 := by
  induction count with
  | zero => exact ⟨frame, rfl, rfl⟩
  | succ count ih =>
    obtain ⟨between, cleared, zeros⟩ := ih (by omega)
    obtain ⟨later, written⟩ := @write_eq between count (count + 1) (by omega) inside [0]
    refine ⟨later, ?_, ?_⟩
    · simp [clear, cleared, run, written]
    · have before := (slice_write_apart written (.inl (Nat.le_refl count))).trans zeros
      have last := slice_write written (by simp)
      simp only [slice, drop_zero] at before last ⊢
      rw [← take_append_drop count (later.val.take (count + 1)), last, take_take, Nat.min_eq_left (by omega), before,
        replicate_succ']

theorem run_initializeHeapPage (desc : RawTupleDesc) (frame : PageBytes) :
    (initializeHeapPage desc).run frame = (Storage.initializeHeapPage desc).map fun page => ((), page) := by
  obtain ⟨cleared, clears, zeros⟩ := run_clear pageSize (Nat.le_refl _) frame
  have zero : cleared = .zero := by
    refine Subtype.ext ?_
    rwa [slice, drop_zero, take_of_length_le (Nat.le_of_eq cleared.property)] at zeros
  rw [initializeHeapPage, run_bind, clears, zero]
  simp only [bind_some, putUint16, run_bind, run, Storage.initializeHeapPage]
  cases PageBytes.zero.putUint16 8 desc.bytesPerTuple with
  | none => rfl
  | some sized =>
    simp only [bind_some, bind_eq_bind]
    cases sized.putUint16 10 (maxSlots desc.bytesPerTuple) with
    | none => rfl
    | some counted =>
      simp only [bind_some]
      cases counted.putUint16 12 0 <;> rfl

theorem run_fillNewPage (desc : RawTupleDesc) (rid : RecordID) (row : RawTuple) (frame : PageBytes) :
    (fillNewPage desc rid row).run frame =
      ((Storage.initializeHeapPage desc).bind fun page => fillSlot (.asHeapPage page) rid row).map
        fun page => ((), page.frame) := by
  rw [fillNewPage, run_bind, run_initializeHeapPage]
  cases Storage.initializeHeapPage desc with
  | none => rfl
  | some page =>
    simp only [map_some, bind_some, run_bind asHeapPage]
    exact (does_fillSlot _ rid row).run page

end PageAccesses
end GoDB.Storage
