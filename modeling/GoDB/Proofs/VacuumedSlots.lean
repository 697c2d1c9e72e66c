import GoDB.Proofs.SlotArray
import GoDB.Proofs.TableHeapMap
import GoDB.Transaction.Lock

/-! A vacuum of a page, beside the locks that transactions hold on its rows. -/

namespace GoDB.Execution.TableHeap
open Common Lib Storage Transaction List HeapPage

variable {rowSize : Nat} {page : HeapPage} {slots : List SlotView} {pageID : PageID}

def cleared (view : SlotView) : SlotView := if view.deleted then { view with allocated := false, deleted := false } else view

theorem modify_congr {i : Nat} {view : SlotView} (located : slots[i]? = some view) {edit other : SlotView → SlotView}
    (same : edit view = other view) : slots.modify i edit = slots.modify i other := by
  rw [modify_eq_set_getElem?, modify_eq_set_getElem?, located]
  simp [same]

theorem vacuumSlot_represents (represents : Represents rowSize page slots) {i : Nat} (inside : i < maxSlots rowSize) :
    ∃ later, vacuumSlot pageID page i = some later ∧ Represents rowSize later (slots.modify i cleared) := by
  have located := represents.getElem? inside
  have named : 0 ≤ (i : Int) ∧ (i : Int) < maxSlots rowSize ∧ True := ⟨Int.natCast_nonneg i, Int.ofNat_lt.mpr inside, trivial⟩
  obtain ⟨allocated, deleted, -⟩ := @Represents.shows _ _ _ represents ⟨pageID, i⟩ _ named.1 located
  obtain ⟨between, unmarked, first, -⟩ := @Represents.step _ _ _ (.markDeleted ⟨pageID, i⟩ false) represents named
  obtain ⟨later, freed, second, -⟩ := @Represents.step _ _ _ (.markAllocated ⟨pageID, i⟩ false) first named
  have both : (do (← page.markDeleted ⟨pageID, i⟩ false).markAllocated ⟨pageID, i⟩ false) = some later := by
    rw [show page.markDeleted ⟨pageID, i⟩ false = some between from unmarked]
    exact freed
  rw [SlotCall.apply, SlotCall.apply] at second
  simp only [SlotCall.rid, Int.toNat_natCast, modify_modify_eq] at second
  unfold vacuumSlot
  rcases seen : page.slotView i with ⟨used, dead, row⟩
  rw [seen] at allocated deleted located
  simp only [allocated, deleted]
  rcases used with _ | _ <;> rcases dead with _ | _
  case true.false =>
    refine ⟨page, rfl, ?_⟩
    rwa [modify_congr located (show cleared _ = id _ from rfl), modify_id]
  all_goals
    refine ⟨later, both, ?_⟩
    convert second using 1
    exact modify_congr located rfl

theorem vacuumSlots_represents (represents : Represents rowSize page slots) (n : Nat) (enough : n ≤ maxSlots rowSize) :
    ∃ later after, (range n).foldlM (vacuumSlot pageID) page = some later ∧ Represents rowSize later after ∧
      ∀ k, after[k]? = (slots[k]?).map fun view => if k < n then cleared view else view := by
  induction n with
  | zero => exact ⟨page, slots, rfl, represents, by simp⟩
  | succ n ih =>
    obtain ⟨between, middle, folded, kept, views⟩ := ih (Nat.le_of_succ_le enough)
    obtain ⟨later, turn, represents⟩ := @vacuumSlot_represents _ _ _ pageID kept n enough
    refine ⟨later, _, by simp [range_succ, folded, turn], represents, fun k => ?_⟩
    rw [getElem?_modify, views, Option.map_eq_map, Option.map_map]
    congr 1
    funext view
    by_cases here : n = k
    · subst here
      simp
    · have same : k < n + 1 ↔ k < n := by omega
      simp [here, same]

theorem vacuumPage_represents (represents : Represents rowSize page slots) (pageID : PageID) :
    ∃ later, (∀ heap : TableHeap, heap.getPage pageID = some page.frame →
        heap.vacuumPage pageID = some (.ok (), heap.putPage pageID later)) ∧
      Represents rowSize later (slots.map cleared) := by
  obtain ⟨later, after, folded, kept, views⟩ := @vacuumSlots_represents _ _ _ pageID represents _ (Nat.le_refl _)
  refine ⟨later, fun heap fetched => ?_, ?_⟩
  · unfold vacuumPage
    rw [fetched]
    simp only [represents.format.viewed, represents.format.slots, folded]
    rfl
  · have all : after = slots.map cleared := by
      refine ext_getElem? fun k => ?_
      rw [views, getElem?_map]
      cases located : slots[k]? with
      | none => rfl
      | some view =>
        have inside := (List.getElem?_eq_some_iff.mp located).1
        rw [represents.length] at inside
        simp [inside]
    rwa [← all]

/-- Every deleted slot becomes free that no transaction holds a lock on, and nothing else changes. -/
def clearedBeside (locks : LockManager) (pageID : PageID) (slots : List SlotView) : List SlotView :=
  slots.mapIdx fun i view => if locks.lockHeld (newTupleLockTag ⟨pageID, i⟩) then view else cleared view

theorem isArray_unique {first second : List SlotView} (array : page.IsArray first) (other : page.IsArray second) :
    first = second := by
  refine ext_getElem (array.numSlots.symm.trans other.numSlots) fun k here there => ?_
  obtain ⟨allocated, deleted, row, -⟩ := array.shows ⟨⟨0, 0⟩, k⟩ _ (Int.natCast_nonneg k) (getElem?_eq_getElem here)
  obtain ⟨allocated', deleted', row', -⟩ := other.shows ⟨⟨0, 0⟩, k⟩ _ (Int.natCast_nonneg k) (getElem?_eq_getElem there)
  rw [allocated'] at allocated
  rw [deleted'] at deleted
  rw [row'] at row
  generalize first[k] = view at *
  generalize second[k] = view' at *
  cases view
  cases view'
  simp_all

/-- A vacuum asks for no locks, so it is right about a page only when no deleted row is locked. -/
theorem vacuum_spares_locked_iff (represents : Represents rowSize page slots) (positive : 0 < rowSize) (pageID : PageID)
    (locks : LockManager) : ∃ later, (∀ heap : TableHeap, heap.getPage pageID = some page.frame →
        heap.vacuumPage pageID = some (.ok (), heap.putPage pageID later)) ∧
      (later.IsArray (clearedBeside locks pageID slots) ↔ ∀ (i : Nat) view, slots[i]? = some view → view.deleted = true →
        locks.lockHeld (newTupleLockTag ⟨pageID, i⟩) = false) := by
  obtain ⟨later, vacuums, after⟩ := vacuumPage_represents represents pageID
  have array := after.isArray positive
  refine ⟨later, vacuums, fun spared i view located deleted => ?_, fun unlocked => ?_⟩
  · have same := congrArg (·[i]?) (isArray_unique spared array)
    simp only [clearedBeside, getElem?_mapIdx, getElem?_map, located, Option.map_some, Option.some.injEq] at same
    by_contra locked
    rw [Bool.not_eq_false] at locked
    rw [if_pos locked, cleared, if_pos deleted] at same
    rw [same] at deleted
    cases deleted
  · have same : clearedBeside locks pageID slots = slots.map cleared := by
      refine ext_getElem? fun i => ?_
      rw [clearedBeside, getElem?_mapIdx, getElem?_map]
      refine Option.map_congr fun view located => ?_
      cases deleted : view.deleted with
      | false => simp [cleared, deleted]
      | true => rw [unlocked i view located deleted]; rfl
    rwa [same]

section Sample

def firstRow : RecordID := ⟨⟨1, 0⟩, 0⟩

def used : TableHeap := (ofInts [7, 8]).without firstRow

def usedPage : HeapPage := asHeapPage (used.pages.headD .zero)

theorem represents_used : Represents 8 usedPage ((range (maxSlots 8)).map usedPage.slotView) := by
  obtain ⟨formed, desc⟩ := ofInts_spec [7, 8]
  obtain ⟨formed, same⟩ := without_spec (by decide +kernel : (ofInts [7, 8]).Names firstRow) formed
  refine ⟨?_, rfl, by decide +kernel⟩
  have format := formed (used.pages.headD .zero) (by decide +kernel)
  rwa [same, desc] at format

def lockedBy7 (rid : RecordID) : LockManager :=
  ⟨(∅ : GoMap _ _).insert (newTupleLockTag rid) ((∅ : GoMap _ _).insert 7 .X), ∅⟩

theorem unlocked_page_vacuumed : usedPage.isDeleted firstRow = some true ∧
    (lockedBy7 ⟨⟨1, 0⟩, 1⟩).lockHeld (newTupleLockTag ⟨⟨1, 0⟩, 1⟩) = true ∧ ∃ later : HeapPage,
    (∀ heap : TableHeap, heap.getPage ⟨1, 0⟩ = some usedPage.frame →
      heap.vacuumPage ⟨1, 0⟩ = some (.ok (), heap.putPage ⟨1, 0⟩ later)) ∧
    later.IsArray (clearedBeside (lockedBy7 ⟨⟨1, 0⟩, 1⟩) ⟨1, 0⟩ ((range (maxSlots 8)).map usedPage.slotView)) := by
  obtain ⟨later, vacuums, spared⟩ :=
    vacuum_spares_locked_iff represents_used (by decide) ⟨1, 0⟩ (lockedBy7 ⟨⟨1, 0⟩, 1⟩)
  refine ⟨by decide +kernel, by decide, later, vacuums, spared.mpr fun i view located deleted => ?_⟩
  by_cases second : i = 1
  · have there : (((range (maxSlots 8)).map usedPage.slotView)[1]?).map (·.deleted) = some false := by decide +kernel
    rw [← second, located, Option.map_some, deleted] at there
    cases there
  · have other : newTupleLockTag ⟨⟨1, 0⟩, (i : Int)⟩ ≠ newTupleLockTag ⟨⟨1, 0⟩, 1⟩ := by
      simp [newTupleLockTag]
      omega
    rw [LockManager.lockHeld, LockManager.holders, lockedBy7, AList.lookup_insert_ne other]
    rfl

/-- A deleted row that transaction 7 has locked is freed. -/
theorem locked_row_freed : ∃ later : HeapPage,
    usedPage.isAllocated firstRow = some true ∧ usedPage.isDeleted firstRow = some true ∧
    (lockedBy7 firstRow).lockHeld (newTupleLockTag firstRow) = true ∧
    (∀ heap : TableHeap, heap.getPage ⟨1, 0⟩ = some usedPage.frame →
      heap.vacuumPage ⟨1, 0⟩ = some (.ok (), heap.putPage ⟨1, 0⟩ later)) ∧
    later.isAllocated firstRow = some false := by
  obtain ⟨later, vacuums, after⟩ := vacuumPage_represents represents_used ⟨1, 0⟩
  refine ⟨later, by decide +kernel, by decide +kernel, by decide, vacuums, ?_⟩
  have free : (((range (maxSlots 8)).map usedPage.slotView).map cleared)[0]?.map (·.allocated) = some false := by
    decide +kernel
  obtain ⟨view, located, free⟩ := Option.map_eq_some_iff.mp free
  exact free ▸ (@Represents.shows _ _ _ after firstRow view (Int.le_refl 0) located).1

end Sample
end GoDB.Execution.TableHeap
