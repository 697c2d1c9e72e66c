import GoDB.Execution.TableHeap
import GoDB.Proofs.HeapPageLayout

/-! A table heap as a map from record ids: what each of its calls does to the map. -/

namespace GoDB.Execution
open Common Lib Storage List Option HeapPage Function Nat

/-- What a record id stands for. A deleted row keeps its slot until a vacuum. -/
inductive Entry where
  | absent
  | live (row : RawTuple)
  | deleted
deriving DecidableEq

abbrev Contents := RecordID → Entry

def entryOf (view : SlotView) : Entry :=
  if view.allocated then if view.deleted then .deleted else .live view.row else .absent

namespace Entry

def vacuumed : Entry → Entry
  | .deleted => .absent
  | entry => entry

end Entry

namespace TableHeap
variable {heap : TableHeap} {p i : Nat}

def slots (heap : TableHeap) : Nat := maxSlots heap.desc.bytesPerTuple

def ridAt (heap : TableHeap) (p i : Nat) : RecordID := ⟨⟨heap.oid, p⟩, i⟩

def entryAt (heap : TableHeap) (p i : Nat) : Entry :=
  match heap.pages[p]? with
  | some frame => if i < heap.slots then entryOf ((asHeapPage frame).slotView i) else .absent
  | none => .absent

def contents (heap : TableHeap) : Contents := fun rid =>
  if rid.pageID.oid = heap.oid ∧ 0 ≤ rid.pageID.pageNum ∧ 0 ≤ rid.slot then
    heap.entryAt rid.pageID.pageNum.toNat rid.slot.toNat
  else .absent

def WellFormed (heap : TableHeap) : Prop :=
  ∀ frame ∈ heap.pages, (asHeapPage frame).Formatted heap.desc.bytesPerTuple

def Names (heap : TableHeap) (rid : RecordID) : Prop := ∃ p < heap.pages.length, ∃ i < heap.slots, rid = heap.ridAt p i

instance (heap : TableHeap) (rid : RecordID) : Decidable (heap.Names rid) :=
  inferInstanceAs (Decidable (∃ p < _, ∃ i < _, _))

@[simp] theorem contents_ridAt (heap : TableHeap) (p i : Nat) : heap.contents (heap.ridAt p i) = heap.entryAt p i := by
  simp [contents, ridAt]

theorem getPage_ridAt (heap : TableHeap) (p i : Nat) : heap.getPage (heap.ridAt p i).pageID = heap.pages[p]? := by
  simp [getPage, ridAt]

theorem contents_eq_absent {rid : RecordID} (unnamed : ¬ ∃ p i, rid = heap.ridAt p i) : heap.contents rid = .absent := by
  rw [contents, if_neg]
  rintro ⟨object, page, slot⟩
  apply unnamed
  refine ⟨rid.pageID.pageNum.toNat, rid.slot.toNat, ?_⟩
  rw [ridAt, Int.toNat_of_nonneg page, Int.toNat_of_nonneg slot, ← object]

theorem exists_ridAt {rid : RecordID} (present : heap.contents rid ≠ .absent) : ∃ p i, rid = heap.ridAt p i := by
  by_contra unnamed
  exact present (contents_eq_absent unnamed)

theorem entryAt_ne_absent (present : heap.entryAt p i ≠ .absent) : p < heap.pages.length ∧ i < heap.slots := by
  rw [entryAt] at present
  split at present
  next frame found =>
    refine ⟨(List.getElem?_eq_some_iff.mp found).1, ?_⟩
    by_contra outside
    exact present (if_neg outside)
  · exact absurd rfl present

variable {later : TableHeap}

theorem contents_ext {expected : Contents} (object : later.oid = heap.oid)
    (slots : ∀ p i, later.entryAt p i = expected (heap.ridAt p i))
    (outside : ∀ rid, (¬ ∃ p i, rid = heap.ridAt p i) → expected rid = .absent) : later.contents = expected := by
  have sameRid : ∀ p i, later.ridAt p i = heap.ridAt p i := by
    intro p i
    simp [ridAt, object]
  funext rid
  by_cases named : ∃ p i, rid = heap.ridAt p i
  · obtain ⟨p, i, rfl⟩ := named
    rw [← slots, ← contents_ridAt, sameRid]
  · rw [outside rid named, contents_eq_absent]
    simpa only [sameRid] using named

theorem contents_eq_update (object : later.oid = heap.oid) {entry : Entry}
    (here : later.entryAt p i = entry) (others : ∀ p' i', ¬ (p' = p ∧ i' = i) → later.entryAt p' i' = heap.entryAt p' i') :
    later.contents = update heap.contents (heap.ridAt p i) entry := by
  apply contents_ext object
  · intro p' i'
    by_cases same : p' = p ∧ i' = i
    · obtain ⟨rfl, rfl⟩ := same
      rw [update_self, here]
    · rw [others p' i' same, update_of_ne, contents_ridAt]
      intro equal
      apply same
      simpa [ridAt] using equal
  · intro rid unnamed
    rw [update_of_ne (fun equal => unnamed ⟨p, i, equal⟩), contents_eq_absent unnamed]

variable {frame : PageBytes}

theorem putPage_spec {later : HeapPage} {view : SlotView} (formed : heap.WellFormed)
    (found : heap.pages[p]? = some frame) (inside : i < heap.slots)
    (edits : HeapPage.Edits heap.desc.bytesPerTuple (.asHeapPage frame) later i view) :
    (heap.putPage (heap.ridAt p i).pageID later).WellFormed ∧ (heap.putPage (heap.ridAt p i).pageID later).contents =
        update heap.contents (heap.ridAt p i) (entryOf view) := by
  have bound : p < heap.pages.length := (List.getElem?_eq_some_iff.mp found).1
  have pages : (heap.putPage (heap.ridAt p i).pageID later).pages = heap.pages.set p later.frame := by
    simp [putPage, ridAt]
  constructor
  · intro other member
    rw [pages] at member
    rcases mem_or_eq_of_mem_set member with before | rfl
    · exact formed other before
    · rw [edits.format.viewed]
      exact edits.format
  · apply contents_eq_update
    · rfl
    · rw [entryAt, pages, getElem?_set_self bound]
      simp only [edits.format.viewed, edits.here]
      exact if_pos inside
    · intro p' i' apart
      rw [entryAt, entryAt, pages]
      by_cases same : p' = p
      · subst same
        rw [getElem?_set_self bound, found]
        refine ite_congr rfl (fun slot => ?_) (fun _ => rfl)
        rw [edits.format.viewed, edits.others i' slot (fun equal => apart ⟨rfl, equal⟩)]
      · rw [getElem?_set_ne (fun equal => same equal.symm)]
        rfl

theorem Names.page {rid : RecordID} (named : heap.Names rid) (formed : heap.WellFormed) :
    ∃ p i frame, rid = heap.ridAt p i ∧ i < heap.slots ∧ heap.pages[p]? = some frame ∧
      (asHeapPage frame).Formatted heap.desc.bytesPerTuple ∧
      heap.contents rid = entryOf ((asHeapPage frame).slotView i) := by
  obtain ⟨p, bound, i, inside, rfl⟩ := named
  have found : heap.pages[p]? = some heap.pages[p] := getElem?_eq_getElem bound
  refine ⟨p, i, heap.pages[p], rfl, inside, found, formed _ (getElem_mem bound), ?_⟩
  rw [contents_ridAt, entryAt, found]
  exact if_pos inside

variable {page : HeapPage} {rowSize : Nat} {pageID : PageID}

theorem isGone_eq (format : page.Formatted rowSize) (inside : i < maxSlots rowSize) :
    isGone page ⟨pageID, i⟩ = some (!(page.slotView i).allocated || (page.slotView i).deleted) := by
  rw [isGone, isAllocated_eq format inside, isDeleted_eq format inside]
  cases (page.slotView i).allocated <;> rfl

theorem onTuple_spec {α : Type} {rid : RecordID} (named : heap.Names rid) (formed : heap.WellFormed)
    (act : HeapPage → Option (α × TableHeap)) :
    (∃ p i frame row, rid = heap.ridAt p i ∧ i < heap.slots ∧ heap.pages[p]? = some frame ∧
      (asHeapPage frame).Formatted heap.desc.bytesPerTuple ∧
      (asHeapPage frame).slotView i = ⟨true, false, row⟩ ∧ heap.contents rid = .live row ∧
      heap.onTuple rid act = (act (.asHeapPage frame)).map fun (result, later) => (.ok result, later)) ∨
    ((∀ row, heap.contents rid ≠ .live row) ∧ heap.onTuple rid act = some (.error .errTupleDeleted, heap)) := by
  obtain ⟨p, i, frame, rfl, inside, found, format, content⟩ := named.page formed
  have fetched : heap.getPage (heap.ridAt p i).pageID = some frame := (getPage_ridAt heap p i).trans found
  have gone : isGone (asHeapPage frame) (heap.ridAt p i) = _ := isGone_eq format inside
  rcases seen : (asHeapPage frame).slotView i with ⟨allocated, deleted, row⟩
  rw [seen] at gone content
  by_cases live : allocated = true ∧ deleted = false
  · obtain ⟨rfl, rfl⟩ := live
    refine .inl ⟨p, i, frame, row, rfl, inside, found, format, seen, content, ?_⟩
    simp only [onTuple, fetched, gone]
    cases act (asHeapPage frame) <;> rfl
  · refine .inr ⟨fun row same => live ?_, ?_⟩
    · rw [content] at same
      cases allocated <;> cases deleted <;> simp_all [entryOf]
    · simp only [onTuple, fetched, gone]
      cases allocated <;> cases deleted <;> simp_all

variable {rid : RecordID} {row : RawTuple}

theorem names_of_live (live : heap.contents rid = .live row) : heap.Names rid := by
  obtain ⟨p, i, rfl⟩ := exists_ridAt (by rw [live]; exact nofun)
  rw [contents_ridAt] at live
  obtain ⟨bound, inside⟩ := entryAt_ne_absent (by rw [live]; exact nofun)
  exact ⟨p, bound, i, inside, rfl⟩

theorem length_of_live (formed : heap.WellFormed) (live : heap.contents rid = .live row) :
    row.length = heap.desc.bytesPerTuple := by
  obtain ⟨p, i, frame, rfl, inside, found, format, content⟩ := (names_of_live live).page formed
  have size := length_row format inside
  rw [live] at content
  unfold entryOf at content
  split at content
  · split at content
    · cases content
    · cases content
      exact size
  · cases content

/-- A live row becomes the entry, and any other record id is refused. -/
def Overwrites (heap : TableHeap) (rid : RecordID) (entry : Entry) (answer : Option (Answer Unit)) : Prop :=
  (∃ row later, heap.contents rid = .live row ∧ answer = some (.ok (), later) ∧ later.WellFormed ∧
    later.contents = update heap.contents rid entry ∧ later = { heap with pages := later.pages } ∧
    later.pages.length = heap.pages.length) ∨
  (∀ row, heap.contents rid ≠ .live row) ∧ answer = some (.error .errTupleDeleted, heap)

theorem deleteTuple_spec (named : heap.Names rid) (formed : heap.WellFormed) :
    heap.Overwrites rid .deleted (heap.deleteTuple rid) := by
  refine (onTuple_spec named formed _).imp_left ?_
  rintro ⟨p, i, frame, row, rfl, inside, found, format, seen, live, answer⟩
  obtain ⟨page, marked, edits⟩ := @markDeleted_edits _ _ _ ⟨heap.oid, p⟩ format inside true
  obtain ⟨kept, changed⟩ := putPage_spec formed found inside edits
  rw [seen] at changed
  refine ⟨row, _, live, ?_, kept, changed, rfl, length_set⟩
  rw [deleteTuple, answer]
  simp [ridAt, marked]

theorem updateTuple_spec (named : heap.Names rid) (formed : heap.WellFormed) {updatedTuple : RawTuple}
    (length : updatedTuple.length = heap.desc.bytesPerTuple) :
    heap.Overwrites rid (.live updatedTuple) (heap.updateTuple rid updatedTuple) := by
  refine (onTuple_spec named formed _).imp_left ?_
  rintro ⟨p, i, frame, row, rfl, inside, found, format, seen, live, answer⟩
  obtain ⟨page, stored, edits⟩ := @copyTuple_edits _ _ _ ⟨heap.oid, p⟩ format inside _ length
  obtain ⟨kept, changed⟩ := putPage_spec formed found inside edits
  rw [seen] at changed
  refine ⟨row, _, live, ?_, kept, changed, rfl, length_set⟩
  rw [updateTuple, answer]
  simp [ridAt, stored]

variable {buffer : List Byte}

theorem readTuple_spec (named : heap.Names rid) (formed : heap.WellFormed)
    (length : buffer.length = heap.desc.bytesPerTuple) :
    (∃ row, heap.contents rid = .live row ∧ heap.readTuple rid buffer = some (.ok row, heap)) ∨
    ((∀ row, heap.contents rid ≠ .live row) ∧ heap.readTuple rid buffer = some (.error .errTupleDeleted, heap)) := by
  refine (onTuple_spec named formed _).imp_left ?_
  rintro ⟨p, i, frame, row, rfl, inside, found, format, seen, live, answer⟩
  have read := @accessTuple_eq _ _ _ ⟨heap.oid, p⟩ format inside
  have size := length_row format inside
  rw [seen] at read size
  refine ⟨row, live, ?_⟩
  rw [readTuple, answer]
  simp [ridAt, read, copy_eq (size.trans length.symm)]

theorem readTuple_buffer (formed : heap.WellFormed) {other : List Byte}
    (size : buffer.length = heap.desc.bytesPerTuple) (size' : other.length = heap.desc.bytesPerTuple) :
    heap.readTuple rid buffer = heap.readTuple rid other := by
  unfold readTuple onTuple
  split
  next => rfl
  next frame found =>
    have format : (asHeapPage frame).Formatted heap.desc.bytesPerTuple := by
      unfold getPage at found
      split at found
      · exact formed frame (mem_of_getElem? found)
      · cases found
    have same : (((asHeapPage frame).accessTuple rid).bind fun row => some (copy buffer row, heap)) =
        ((asHeapPage frame).accessTuple rid).bind fun row => some (copy other row, heap) := by
      cases read : (asHeapPage frame).accessTuple rid with
      | none => rfl
      | some row =>
        have length : row.length = heap.desc.bytesPerTuple := by rw [length_accessTuple read, format.rows]
        simp [copy_eq (length.trans size.symm), copy_eq (length.trans size'.symm)]
    simp [same]

theorem length_readTuple {row : List Byte}
    (read : heap.readTuple rid buffer = some (.ok row, later)) : row.length = buffer.length := by
  unfold readTuple onTuple at read
  split at read
  next => cases read
  next =>
    simp only [bind_eq_bind, bind_eq_some_iff] at read
    obtain ⟨gone, -, read⟩ := read
    split at read
    · cases read
    · simp only [Option.bind_eq_some_iff, Option.pure_def, Option.some.injEq] at read
      obtain ⟨_, ⟨found, -, rfl⟩, same⟩ := read
      cases same
      exact length_copy ..

theorem fillSlot_edits {page : HeapPage} {rowSize : Nat} {row : RawTuple} {pageID : PageID}
    (format : page.Formatted rowSize) (inside : i < maxSlots rowSize) (length : row.length = rowSize) :
    ∃ later, fillSlot page ⟨pageID, i⟩ row = some later ∧ HeapPage.Edits rowSize page later i ⟨true, false, row⟩ := by
  obtain ⟨marked, allocated, allocates⟩ := @markAllocated_edits _ _ _ pageID format inside true
  obtain ⟨later, stored, stores⟩ := @copyTuple_edits _ _ _ pageID allocates.format inside _ length
  rw [allocates.here] at stores
  exact ⟨later, by simp [fillSlot, allocated, stored], allocates.trans stores⟩

structure Inserts (heap later : TableHeap) (rid : RecordID) (row : RawTuple) : Prop where
  fresh : heap.contents rid = .absent
  formed : later.WellFormed
  contents : later.contents = update heap.contents rid (.live row)
  table : later = { heap with pages := later.pages }
  grows : heap.pages.length ≤ later.pages.length
  named : later.Names rid

theorem insertInNewPage_spec (formed : heap.WellFormed) {row : RawTuple}
    (length : row.length = heap.desc.bytesPerTuple) :
    (∃ rid later, heap.insertInNewPage row = some (.ok rid, later) ∧ heap.Inserts later rid row) ∨
      2 ^ 31 ≤ heap.pages.length + 1 ∧ heap.insertInNewPage row = some (.error .storage, heap) := by
  rw [insertInNewPage]
  split
  · obtain ⟨frame, initialized, format, free⟩ := initializeHeapPage_eq heap.desc
    have first : 0 < heap.slots := maxSlots_pos heap.desc.fits
    obtain ⟨page, filled, edits⟩ := @fillSlot_edits 0 _ _ row ⟨heap.oid, heap.pages.length⟩ format first length
    refine .inl ⟨heap.ridAt heap.pages.length 0, { heap with pages := heap.pages ++ [page.frame] }, ?_, ?_, ?_, ?_, rfl,
      ?_, ?_⟩
    · simp only [initialized, bind_eq_bind, bind_some]
      exact filled ▸ rfl
    · simp [entryAt]
    · intro other member
      rcases mem_append.mp member with before | new
      · exact formed other before
      · cases mem_singleton.mp new
        rw [edits.format.viewed]
        exact edits.format
    · apply contents_eq_update
      · rfl
      · simp only [entryAt, getElem?_concat_length, edits.format.viewed, edits.here]
        exact if_pos first
      · intro p' i' apart
        simp only [entryAt]
        rcases lt_trichotomy p' heap.pages.length with before | rfl | beyond
        · rw [getElem?_append_left before]
          rfl
        · rw [getElem?_concat_length, getElem?_eq_none (le_refl _)]
          simp only [edits.format.viewed]
          split
          next slot =>
            rw [edits.others i' slot (fun equal => apart ⟨rfl, equal⟩), entryOf, free]
            rfl
          · rfl
        · rw [getElem?_eq_none (by simp; omega), getElem?_eq_none (by omega)]
    · simp
    · exact ⟨heap.pages.length, by simp, 0, first, rfl⟩
  next full => exact .inr ⟨Nat.le_of_not_lt full, rfl⟩

theorem insertTuple_spec (formed : heap.WellFormed) {row : RawTuple} (length : row.length = heap.desc.bytesPerTuple) :
    (∃ rid later, heap.insertTuple row = some (.ok rid, later) ∧ heap.Inserts later rid row) ∨
      2 ^ 31 ≤ heap.pages.length + 1 ∧ heap.insertTuple row = some (.error .storage, heap) := by
  rw [insertTuple]
  cases last : heap.pages.getLast? with
  | none => exact insertInNewPage_spec formed length
  | some frame =>
    have found : heap.pages[heap.pages.length - 1]? = some frame := by rw [← getLast?_eq_getElem?, last]
    have bound := (List.getElem?_eq_some_iff.mp found).1
    have format := formed frame (mem_of_getElem? found)
    rcases findFreeSlot_eq format with ⟨i, inside, free, unallocated⟩ | full
    · obtain ⟨page, filled, edits⟩ :=
        @fillSlot_edits i _ _ row ⟨heap.oid, (heap.pages.length - 1 : Nat)⟩ format inside length
      obtain ⟨kept, changed⟩ := putPage_spec formed found inside edits
      refine .inl ⟨heap.ridAt (heap.pages.length - 1) i, _, ?_, ?_, kept, changed, rfl, ?_, ?_⟩
      · simp only [free, bind_eq_bind, bind_some]
        exact filled ▸ rfl
      · rw [contents_ridAt, entryAt, found]
        simp [entryOf, unallocated]
      · simp [putPage]
      · exact ⟨heap.pages.length - 1, by simpa [putPage] using bound, i, inside, rfl⟩
    · simp only [full, bind_eq_bind, bind_some]
      exact insertInNewPage_spec formed length

/-- A table of one column that was filled row by row. -/
@[irreducible]
def ofInts (vals : List Int64) : TableHeap :=
  vals.foldl (fun heap v => ((heap.insertTuple (Value.int v).writeTo).map Prod.snd).getD heap) (newTableHeap 1 .oneInt)

theorem ofInts_spec (vals : List Int64) : (ofInts vals).WellFormed ∧ (ofInts vals).desc = .oneInt := by
  unfold ofInts
  refine @foldlRecOn _ _ (fun heap : TableHeap => heap.WellFormed ∧ heap.desc = .oneInt) vals _ _ ⟨forall_mem_nil _, rfl⟩ ?_
  rintro heap ⟨formed, desc⟩ v -
  have length : (Value.int v).writeTo.length = heap.desc.bytesPerTuple := by
    rw [desc]
    rfl
  rcases insertTuple_spec formed length with ⟨rid, later, made, inserts⟩ | ⟨-, made⟩
  · rw [made]
    exact ⟨inserts.formed, by rw [inserts.table]; exact desc⟩
  · rw [made]
    exact ⟨formed, desc⟩

@[irreducible]
def without (heap : TableHeap) (rid : RecordID) : TableHeap := ((heap.deleteTuple rid).map Prod.snd).getD heap

theorem without_spec {rid : RecordID} (named : heap.Names rid) (formed : heap.WellFormed) :
    (heap.without rid).WellFormed ∧ (heap.without rid).desc = heap.desc := by
  unfold without
  rcases deleteTuple_spec named formed with ⟨_, later, -, made, kept, -, table, -⟩ | ⟨-, made⟩
  · rw [made]
    exact ⟨kept, by rw [table]; rfl⟩
  · rw [made]
    exact ⟨formed, rfl⟩

theorem vacuumSlot_edits (format : page.Formatted rowSize)
    (inside : i < maxSlots rowSize) : ∃ later view, vacuumSlot pageID page i = some later ∧
      HeapPage.Edits rowSize page later i view ∧ entryOf view = (entryOf (page.slotView i)).vacuumed := by
  have deleted := @isDeleted_eq _ _ _ pageID format inside
  have allocated := @isAllocated_eq _ _ _ pageID format inside
  obtain ⟨cleared, unmarked, clears⟩ := @markDeleted_edits _ _ _ pageID format inside false
  obtain ⟨freed, unallocated, frees⟩ := @markAllocated_edits _ _ _ pageID clears.format inside false
  have both : (do (← page.markDeleted ⟨pageID, i⟩ false).markAllocated ⟨pageID, i⟩ false) = some freed := by
    simp [unmarked, unallocated]
  rcases seen : page.slotView i with ⟨used, dead, row⟩
  rw [seen] at deleted allocated
  simp only [vacuumSlot, deleted, allocated]
  rcases used with _ | _ <;> rcases dead with _ | _
  case true.false => exact ⟨page, page.slotView i, rfl, ⟨format, rfl, fun _ _ _ => rfl⟩, by rw [seen]; rfl⟩
  all_goals exact ⟨freed, _, both, clears.trans frees, rfl⟩

theorem vacuumSlots_spec (format : page.Formatted rowSize) (n : Nat) (enough : n ≤ maxSlots rowSize) :
    ∃ later, (range n).foldlM (vacuumSlot pageID) page = some later ∧ later.Formatted rowSize ∧
      ∀ k < maxSlots rowSize, entryOf (later.slotView k) =
        if k < n then (entryOf (page.slotView k)).vacuumed else entryOf (page.slotView k) := by
  induction n with
  | zero => exact ⟨page, rfl, format, fun k _ => (if_neg (not_lt_zero k)).symm⟩
  | succ n ih =>
    obtain ⟨between, folded, kept, entries⟩ := ih (le_of_succ_le enough)
    obtain ⟨later, view, turn, edits, entry⟩ := @vacuumSlot_edits n between rowSize pageID kept enough
    refine ⟨later, ?_, edits.format, fun k inside => ?_⟩
    · simp [range_succ, folded, turn]
    · by_cases here : k = n
      · subst here
        rw [edits.here, entry, entries k inside, if_neg (lt_irrefl k), if_pos (lt_succ_self k)]
      · have same : k < n + 1 ↔ k < n := by omega
        simp only [edits.others k inside here, entries k inside, same]

theorem getPage_eq_some (fetched : heap.getPage pageID = some frame) :
    ∃ p : Nat, pageID = ⟨heap.oid, p⟩ ∧ heap.pages[p]? = some frame := by
  rw [getPage] at fetched
  split at fetched
  next inside =>
    refine ⟨pageID.pageNum.toNat, ?_, fetched⟩
    rw [Int.toNat_of_nonneg inside.2, ← inside.1]
  · cases fetched

def vacuumed (contents : Contents) (pageID : PageID) : Contents := fun rid =>
  if rid.pageID = pageID then (contents rid).vacuumed else contents rid

theorem vacuumPage_spec (formed : heap.WellFormed) (pageID : PageID) :
    (∃ later, heap.vacuumPage pageID = some (.ok (), later) ∧ later.WellFormed ∧
      later.contents = vacuumed heap.contents pageID ∧ later = { heap with pages := later.pages } ∧
      later.pages.length = heap.pages.length) ∨
    heap.vacuumPage pageID = some (.error .storage, heap) := by
  rw [vacuumPage]
  cases fetched : heap.getPage pageID with
  | none => exact .inr rfl
  | some frame =>
    obtain ⟨p, rfl, found⟩ := getPage_eq_some fetched
    have bound : p < heap.pages.length := (List.getElem?_eq_some_iff.mp found).1
    have format := formed frame (mem_of_getElem? found)
    obtain ⟨page, folded, kept, entries⟩ :=
      @vacuumSlots_spec (.asHeapPage frame) _ ⟨heap.oid, p⟩ format heap.slots (le_refl _)
    have pages : (heap.putPage ⟨heap.oid, p⟩ page).pages = heap.pages.set p page.frame := by simp [putPage]
    refine .inl ⟨heap.putPage ⟨heap.oid, p⟩ page, ?_, ?_, ?_, rfl, length_set⟩
    · have count : (asHeapPage frame).numSlots = heap.slots := format.slots
      simp [count, folded]
    · intro other member
      rw [pages] at member
      rcases mem_or_eq_of_mem_set member with before | rfl
      · exact formed other before
      · rw [kept.viewed]
        exact kept
    · apply @contents_ext heap
      · rfl
      · intro p' i'
        rw [vacuumed, contents_ridAt, entryAt, entryAt, pages]
        by_cases same : p' = p
        · subst same
          have here : (heap.ridAt p' i').pageID = ⟨heap.oid, p'⟩ := rfl
          rw [getElem?_set_self bound, found, if_pos here]
          simp only [kept.viewed]
          change (if i' < heap.slots then _ else _) = _
          split
          next inside => rw [entries i' inside, if_pos inside]
          · rfl
        · have apart : (heap.ridAt p' i').pageID ≠ ⟨heap.oid, p⟩ := by simpa [ridAt] using same
          rw [getElem?_set_ne (fun equal => same equal.symm), if_neg apart]
          rfl
      · intro rid unnamed
        rw [vacuumed, contents_eq_absent unnamed]
        exact ite_self _

end TableHeap
end GoDB.Execution
