import GoDB.Proofs.HeapPageLayout

/-! A heap page is an array of slots, whatever is done with it. Every operation on the bytes
does to the page what it does to the array. -/

namespace GoDB.Storage
open Common Lib List Nat

inductive SlotCall where
  | markAllocated (rid : RecordID) (allocated : Bool)
  | markDeleted (rid : RecordID) (deleted : Bool)
  /-- `copy(page.AccessTuple(rid)[offset:], bytes)`. -/
  | write (rid : RecordID) (offset : Nat) (bytes : List Byte)

namespace SlotCall

def rid : SlotCall → RecordID
  | .markAllocated rid _ | .markDeleted rid _ | .write rid _ _ => rid

def Inside (numSlots rowSize : Nat) (call : SlotCall) : Prop :=
  0 ≤ call.rid.slot ∧ call.rid.slot < numSlots ∧
    match call with
    | .write _ offset _ => offset ≤ rowSize
    | .markAllocated _ _ | .markDeleted _ _ => True

def run (page : HeapPage) : SlotCall → Option HeapPage
  | .markAllocated rid allocated => page.markAllocated rid allocated
  | .markDeleted rid deleted => page.markDeleted rid deleted
  | .write rid offset bytes => page.writeTuple rid offset bytes

def edit (view : SlotView) : SlotCall → SlotView
  | .markAllocated _ allocated => { view with allocated, deleted := false }
  | .markDeleted _ deleted => { view with deleted }
  | .write _ offset bytes => { view with row := copyInto view.row offset view.row.length bytes }

def apply (slots : List SlotView) (call : SlotCall) : List SlotView :=
  slots.modify call.rid.slot.toNat fun view => call.edit view

end SlotCall

namespace HeapPage

def regions (page : HeapPage) : List (Nat × Nat) :=
  [(0, 16), (page.allocOffset, page.deletedOffset), (page.deletedOffset, page.tupleOffset)] ++
    (range page.numSlots).map fun i =>
      (page.tupleOffset + i * page.rowSize, page.tupleOffset + i * page.rowSize + page.rowSize)

structure IsArray (page : HeapPage) (slots : List SlotView) : Prop where
  numSlots : page.numSlots = slots.length
  disjoint : page.regions.Pairwise fun first second => first.2 ≤ second.1
  inside : ∀ region ∈ page.regions, region.1 < region.2 ∧ region.2 ≤ pageSize
  shows : ∀ (rid : RecordID) (view : SlotView), 0 ≤ rid.slot → slots[rid.slot.toNat]? = some view →
    page.isAllocated rid = some view.allocated ∧ page.isDeleted rid = some view.deleted ∧
      page.accessTuple rid = some view.row ∧ view.row.length = page.rowSize
  numUsed : page.numUsed = slots.countP (·.allocated)
  free : page.findFreeSlot = some (slots.findIdx? fun view => !view.allocated)
  viewed : asHeapPage page.frame = page

end HeapPage

section Layout
variable {rowSize : Nat}

theorem slotsFit_mono {few many : Nat} (fewer : few ≤ many) (fits : slotsFit rowSize many = true) :
    slotsFit rowSize few = true := by
  have rows : few * rowSize ≤ many * rowSize := mul_le_mul_right _ fewer
  have fits := of_decide_eq_true fits
  refine decide_eq_true ?_
  simp only [bitmapSize, numWords] at fits ⊢
  omega

theorem le_maxSlots {slots : Nat} (positive : 0 < rowSize) (fits : 16 + 2 * bitmapSize slots + slots * rowSize ≤ pageSize) :
    slots ≤ maxSlots rowSize := by
  have fits : slotsFit rowSize slots = true := decide_eq_true fits
  have few : slots ≤ pageSize := by
    have bound := of_decide_eq_true fits
    have least : slots * 1 ≤ slots * rowSize := mul_le_mul_left _ positive
    omega
  have size : maxSlots rowSize = (range' 1 pageSize).findIdx fun slots => !slotsFit rowSize slots := by
    rw [maxSlots, takeWhile_eq_take_findIdx_not, length_take, min_eq_left findIdx_le_length]
  by_contra fewer
  have reached : maxSlots rowSize < (range' 1 pageSize).length := by
    rw [length_range']
    omega
  rw [size] at reached fewer
  have stops := @findIdx_getElem _ _ _ reached
  rw [getElem_range', slotsFit_mono (by omega) fits] at stops
  cases stops

end Layout

namespace HeapPage
variable {rowSize : Nat} {page later : HeapPage} {slots : List SlotView} {call : SlotCall}

/-- A page with these slots, all of them counted. -/
structure Represents (rowSize : Nat) (page : HeapPage) (slots : List SlotView) : Prop where
  format : page.Formatted rowSize
  array : slots = (range (maxSlots rowSize)).map page.slotView
  used : page.numUsed = slots.countP (·.allocated)

section
variable (represents : Represents rowSize page slots)

include represents

theorem Represents.length : slots.length = maxSlots rowSize := by
  rw [represents.array, length_map, length_range]

theorem Represents.getElem? {i : Nat} (inside : i < maxSlots rowSize) : slots[i]? = some (page.slotView i) := by
  rw [represents.array, getElem?_map, getElem?_range inside, Option.map_some]

theorem Represents.shows {rid : RecordID} {view : SlotView}
    (positive : 0 ≤ rid.slot) (located : slots[rid.slot.toNat]? = some view) :
    page.isAllocated rid = some view.allocated ∧ page.isDeleted rid = some view.deleted ∧
      page.accessTuple rid = some view.row ∧ view.row.length = page.rowSize := by
  obtain ⟨pageID, slot⟩ := rid
  lift slot to Nat using positive
  have inside := (List.getElem?_eq_some_iff.mp located).1
  rw [Int.toNat_natCast, represents.length] at inside
  rw [Int.toNat_natCast, represents.getElem? inside] at located
  cases located
  have format := represents.format
  exact ⟨isAllocated_eq format inside, isDeleted_eq format inside, accessTuple_eq format inside,
    (length_row format inside).trans format.rows.symm⟩

theorem Represents.free : page.findFreeSlot = some (slots.findIdx? fun view => !view.allocated) := by
  obtain ⟨bitmap, viewed, size⟩ := represents.format.allocMap
  have bits (i : Nat) : (page.slotView i).allocated = bitmap.bit i := by simp [slotView, viewed]
  rw [findFreeSlot, viewed, Option.bind_eq_bind, Option.bind_some]
  refine congrArg some (Eq.symm ?_)
  cases found : bitmap.findFirstZero 0 with
  | none =>
    refine findIdx?_eq_none_iff.mpr fun view member => ?_
    rw [represents.array] at member
    obtain ⟨i, inside, rfl⟩ := mem_map.mp member
    rw [mem_range, ← size] at inside
    rw [bits, Bitmap.findFirstZero_none found inside, Bool.not_true]
  | some lowest =>
    obtain ⟨inside, clear⟩ := Bitmap.findFirstZero_some found
    refine findIdx?_eq_some_iff_getElem.mpr ⟨by rw [represents.length, ← size]; exact inside, ?_, fun j earlier => ?_⟩
    · simp [represents.array, bits, clear]
    · simp [represents.array, bits, Bitmap.findFirstZero_zero_lowest found earlier]

end

theorem Formatted.disjoint (format : page.Formatted rowSize) :
    page.regions.Pairwise fun first second => first.2 ≤ second.1 := by
  have alloc := format.alloc
  have deleted := format.deleted
  have tuples := format.tuples
  refine pairwise_append.mpr ⟨?_, ?_, ?_⟩
  · simp
    omega
  · refine pairwise_map.mpr (pairwise_lt_range.imp fun {i k} before => ?_)
    have next : (i + 1) * page.rowSize ≤ k * page.rowSize := mul_le_mul_right _ before
    rw [succ_mul] at next
    omega
  · intro region member row member'
    obtain ⟨i, -, rfl⟩ := mem_map.mp member'
    simp only [mem_cons, not_mem_nil, or_false] at member
    rcases member with rfl | rfl | rfl <;> simp only <;> omega

theorem Formatted.inside (format : page.Formatted rowSize) (positive : 0 < rowSize) :
    ∀ region ∈ page.regions, region.1 < region.2 ∧ region.2 ≤ pageSize := by
  have alloc := format.alloc
  have deleted := format.deleted
  have tuples := format.tuples
  have rows := format.rows
  have whole := layout_fits format.fits
  have words : 0 < bitmapSize (maxSlots rowSize) := by
    have some' := maxSlots_pos format.fits
    rw [bitmapSize, numWords]
    omega
  intro region member
  rcases mem_append.mp member with header | row
  · simp only [mem_cons, not_mem_nil, or_false] at header
    rcases header with rfl | rfl | rfl <;> simp only <;> omega
  · obtain ⟨i, inside, rfl⟩ := mem_map.mp row
    rw [mem_range, format.slots] at inside
    have next : (i + 1) * rowSize ≤ maxSlots rowSize * rowSize := mul_le_mul_right _ inside
    rw [succ_mul] at next
    simp only [rows]
    omega

theorem Represents.isArray (represents : Represents rowSize page slots) (positive : 0 < rowSize) : page.IsArray slots where
  numSlots := represents.format.slots.trans represents.length.symm
  disjoint := represents.format.disjoint
  inside := represents.format.inside positive
  shows _ _ := represents.shows
  numUsed := represents.used
  free := represents.free
  viewed := represents.format.viewed

variable {pageID : PageID} {i : Nat}

theorem run_edits (format : page.Formatted rowSize) (rid : call.rid = ⟨pageID, i⟩)
    (inside : call.Inside (maxSlots rowSize) rowSize) :
    ∃ later, call.run page = some later ∧ Edits rowSize page later i (call.edit (page.slotView i)) := by
  obtain ⟨-, below, within⟩ := inside
  rw [rid] at below
  have below : i < maxSlots rowSize := Int.ofNat_lt.mp below
  cases call with
  | markAllocated named allocated =>
    cases rid
    exact markAllocated_edits format below allocated
  | markDeleted named deleted =>
    cases rid
    exact markDeleted_edits format below deleted
  | write named offset bytes =>
    cases rid
    rw [SlotCall.edit, length_row format below]
    exact writeTuple_edits format below within bytes

theorem countP_modify (slots : List SlotView) {view : SlotView} (located : slots[i]? = some view)
    (edit : SlotView → SlotView) :
    (slots.modify i edit).countP (·.allocated) =
      counted (slots.countP (·.allocated)) (edit view).allocated view.allocated := by
  obtain ⟨inside, here⟩ := List.getElem?_eq_some_iff.mp located
  rw [modify_eq_set_getElem?, located]
  simp only [Option.map_eq_map, Option.map_some, Option.getD_some]
  rw [countP_set inside, here, counted]
  have positive : view.allocated = true → 0 < slots.countP (·.allocated) := fun allocated =>
    countP_pos_iff.mpr ⟨view, here ▸ getElem_mem inside, allocated⟩
  cases allocated : view.allocated <;> cases (edit view).allocated <;> simp
  have := positive allocated
  omega

theorem counted_self (used : Nat) (allocated : Bool) : counted used allocated allocated = used := by
  cases allocated <;> rfl

theorem run_heads (represents : Represents rowSize page slots)
    (rid : call.rid = ⟨pageID, i⟩) (below : i < maxSlots rowSize) (ran : call.run page = some later) :
    Heads page later ((call.apply slots).countP (·.allocated)) := by
  have located := represents.getElem? below
  have few := maxSlots_le rowSize
  have used := represents.used
  have atMost : page.numUsed ≤ maxSlots rowSize := by
    rw [used, ← represents.length]
    exact countP_le_length
  have listed : call.rid.slot.toNat = i := by
    rw [rid]
    rfl
  rw [SlotCall.apply, listed, countP_modify slots located, ← used]
  cases call with
  | markAllocated named allocated =>
    cases rid
    refine markAllocated_heads represents.format below ?_ (fun allocated => ?_) ran
    · rw [pageSize] at few
      omega
    · rw [used]
      exact countP_pos_iff.mpr ⟨_, mem_of_getElem? located, allocated⟩
  | markDeleted named deleted =>
    cases rid
    rw [SlotCall.edit, counted_self]
    exact markDeleted_heads represents.format ran
  | write named offset bytes =>
    cases rid
    rw [SlotCall.edit, counted_self]
    exact writeTuple_heads represents.format ran

def SameHeader (page later : HeapPage) : Prop :=
  slice later.frame.val 0 12 = slice page.frame.val 0 12 ∧ slice later.frame.val 14 16 = slice page.frame.val 14 16

theorem Represents.step (represents : Represents rowSize page slots) (inside : call.Inside (maxSlots rowSize) rowSize) :
    ∃ later, call.run page = some later ∧ Represents rowSize later (call.apply slots) ∧ page.SameHeader later := by
  obtain ⟨i, slot⟩ := Int.eq_ofNat_of_zero_le inside.1
  have below : i < maxSlots rowSize := by
    have below := inside.2.1
    rw [slot] at below
    exact Int.ofNat_lt.mp below
  have rid : call.rid = ⟨call.rid.pageID, i⟩ := by rw [← slot]
  obtain ⟨later, ran, edits⟩ := run_edits represents.format rid inside
  have heads := run_heads represents rid below ran
  refine ⟨later, ran, ⟨edits.format, ?_, heads.used⟩, heads.first, heads.last⟩
  refine ext_getElem? fun k => ?_
  rw [SlotCall.apply, slot, Int.toNat_natCast, getElem?_modify]
  by_cases within : k < maxSlots rowSize
  · rw [represents.getElem? within, getElem?_map, getElem?_range within]
    simp only [Option.map_eq_map, Option.map_some, Option.some.injEq]
    split
    next same =>
      cases same
      exact edits.here.symm
    next apart => exact (edits.others k within (Ne.symm apart)).symm
  · rw [getElem?_eq_none (by rw [represents.length]; omega), getElem?_eq_none (by simpa using within)]
    rfl

theorem Represents.runs (represents : Represents rowSize page slots) {calls : List SlotCall}
    (inside : ∀ call ∈ calls, call.Inside (maxSlots rowSize) rowSize) :
    ∃ later, calls.foldlM SlotCall.run page = some later ∧ Represents rowSize later (calls.foldl SlotCall.apply slots) ∧
      page.SameHeader later := by
  induction calls generalizing page slots with
  | nil => exact ⟨page, rfl, represents, rfl, rfl⟩
  | cons call calls ih =>
    obtain ⟨first, rest⟩ := forall_mem_cons.mp inside
    obtain ⟨between, ran, represents, head, tail⟩ := represents.step first
    obtain ⟨later, runs, represents, head', tail'⟩ := ih represents rest
    refine ⟨later, ?_, represents, head'.trans head, tail'.trans tail⟩
    rw [foldlM_cons, ran]
    exact runs

def emptySlot (rowSize : Nat) : SlotView := ⟨false, false, replicate rowSize 0⟩

theorem initializeHeapPage_represents (desc : RawTupleDesc) :
    ∃ frame, initializeHeapPage desc = some frame ∧ Represents desc.bytesPerTuple (asHeapPage frame)
      (replicate (maxSlots desc.bytesPerTuple) (emptySlot desc.bytesPerTuple)) := by
  obtain ⟨frame, initialized, format, unused, empty⟩ := initializeHeapPage_slots desc
  refine ⟨frame, initialized, format, ?_, ?_⟩
  · symm
    refine eq_replicate_iff.mpr ⟨by rw [length_map, length_range], fun view member => ?_⟩
    obtain ⟨i, inside, rfl⟩ := mem_map.mp member
    exact empty i (mem_range.mp inside)
  · rw [unused, countP_replicate]
    rfl

theorem bytesPerTuple_pos {desc : RawTupleDesc} (columns : desc.fields ≠ []) : 0 < desc.bytesPerTuple := by
  obtain ⟨type, rest, fields⟩ := exists_cons_of_ne_nil columns
  have first : 0 < type.size := by cases type <;> decide
  rw [RawTupleDesc.bytesPerTuple, fields, bytesOf, map_cons, sum_cons]
  omega

/-- Whatever is done with the slots of a page, its bytes are an array of as many slots as fit. -/
theorem page_is_array (desc : RawTupleDesc) (columns : desc.fields ≠ []) : 1 ≤ maxSlots desc.bytesPerTuple ∧
    (∀ slots, 16 + 2 * bitmapSize slots + slots * desc.bytesPerTuple ≤ pageSize ↔ slots ≤ maxSlots desc.bytesPerTuple) ∧
    ∃ frame, initializeHeapPage desc = some frame ∧ (asHeapPage frame).rowSize = desc.bytesPerTuple ∧
      (asHeapPage frame).numSlots = maxSlots desc.bytesPerTuple ∧
      ∀ calls : List SlotCall, (∀ call ∈ calls, call.Inside (asHeapPage frame).numSlots (asHeapPage frame).rowSize) →
        ∃ page, calls.foldlM SlotCall.run (asHeapPage frame) = some page ∧ (asHeapPage frame).SameHeader page ∧
          page.IsArray (calls.foldl SlotCall.apply
            (replicate (maxSlots desc.bytesPerTuple) (emptySlot desc.bytesPerTuple))) := by
  have positive := bytesPerTuple_pos columns
  refine ⟨maxSlots_pos desc.fits, fun slots => ⟨le_maxSlots positive, fun few => ?_⟩, ?_⟩
  · exact of_decide_eq_true (slotsFit_mono few (decide_eq_true (layout_fits desc.fits)))
  · obtain ⟨frame, initialized, represents⟩ := initializeHeapPage_represents desc
    refine ⟨frame, initialized, represents.format.rows, represents.format.slots, fun calls inside => ?_⟩
    rw [represents.format.rows, represents.format.slots] at inside
    obtain ⟨page, runs, kept, same⟩ := represents.runs inside
    exact ⟨page, runs, same, kept.isArray positive⟩

theorem one_slot_used : ∃ frame page, initializeHeapPage .oneInt = some frame ∧
      [SlotCall.markAllocated ⟨⟨1, 0⟩, 0⟩ true].foldlM SlotCall.run (asHeapPage frame) = some page ∧ page.numUsed = 1 := by
  obtain ⟨positive, -, frame, initialized, -, slots, runs⟩ := page_is_array .oneInt (cons_ne_nil _ _)
  obtain ⟨page, ran, -, array⟩ := runs [.markAllocated ⟨⟨1, 0⟩, 0⟩ true] fun call member => by
    cases mem_singleton.mp member
    rw [slots]
    exact ⟨Int.le_refl 0, Int.ofNat_lt.mpr positive, trivial⟩
  refine ⟨frame, page, initialized, ran, ?_⟩
  obtain ⟨more, count⟩ := Nat.exists_eq_add_of_le' positive
  rw [array.numUsed, count, replicate_succ]
  simp [SlotCall.apply, SlotCall.rid, SlotCall.edit, emptySlot]

end HeapPage
end GoDB.Storage
