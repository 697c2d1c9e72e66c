import GoDB.Proofs.TableHeapMap

/-! A full pass of the iterator meets every live row once, page by page and slot by slot. -/

namespace GoDB.Execution
open Common Lib Storage List TableHeap TableHeapIterator HeapPage

namespace TableHeap
variable {heap : TableHeap} {n p s : Nat}

def liveAt (heap : TableHeap) (p i : Nat) : Option (RecordID × RawTuple) :=
  match heap.entryAt p i with
  | .live row => some (heap.ridAt p i, row)
  | _ => none

def rowsOf (heap : TableHeap) (p s : Nat) : List (RecordID × RawTuple) :=
  (range' s (heap.slots - s)).filterMap (heap.liveAt p)

def rowsUpTo (heap : TableHeap) (n p s : Nat) : List (RecordID × RawTuple) :=
  if n ≤ p then [] else heap.rowsOf p s ++ (range' (p + 1) (n - (p + 1))).flatMap fun p => heap.rowsOf p 0

def rowsFrom (heap : TableHeap) (p s : Nat) : List (RecordID × RawTuple) := heap.rowsUpTo heap.pages.length p s

theorem rowsOf_nil (passed : heap.slots ≤ s) : heap.rowsOf p s = [] := by
  rw [rowsOf, Nat.sub_eq_zero_of_le passed]
  rfl

theorem rowsOf_eq (inside : s < heap.slots) :
    heap.rowsOf p s = (heap.liveAt p s).toList ++ heap.rowsOf p (s + 1) := by
  have more : heap.slots - s = (heap.slots - (s + 1)) + 1 := by omega
  rw [rowsOf, more, range'_succ, filterMap_cons, rowsOf]
  cases heap.liveAt p s <;> rfl

theorem rowsUpTo_zero (heap : TableHeap) (n p : Nat) :
    heap.rowsUpTo n p 0 = (range' p (n - p)).flatMap fun p => heap.rowsOf p 0 := by
  rw [rowsUpTo]
  split
  next past =>
    rw [Nat.sub_eq_zero_of_le past]
    rfl
  next more =>
    have step : n - p = (n - (p + 1)) + 1 := by omega
    rw [step, range'_succ, flatMap_cons]

theorem rowsUpTo_next (inside : p < n) (passed : heap.slots ≤ s) : heap.rowsUpTo n p s = heap.rowsUpTo n (p + 1) 0 := by
  rw [rowsUpTo, if_neg (by omega), rowsOf_nil passed, nil_append, rowsUpTo_zero]

theorem rowsUpTo_eq (below : p < n) (inside : s < heap.slots) :
    heap.rowsUpTo n p s = (heap.liveAt p s).toList ++ heap.rowsUpTo n p (s + 1) := by
  rw [rowsUpTo, if_neg (by omega), rowsOf_eq inside, rowsUpTo, if_neg (by omega), append_assoc]

theorem rowsUpTo_append {m : Nat} (below : p < m) (within : m ≤ n) :
    heap.rowsUpTo n p s = heap.rowsUpTo m p s ++ heap.rowsUpTo n m 0 := by
  have parts : range' (p + 1) (n - (p + 1)) = range' (p + 1) (m - (p + 1)) ++ range' m (n - m) := by
    have first : m = p + 1 + (m - (p + 1)) := by omega
    have sizes : n - (p + 1) = m - (p + 1) + (n - m) := by omega
    rw [sizes, ← range'_append_1, ← first]
  rw [rowsUpTo, if_neg (by omega), parts, flatMap_append, ← append_assoc, rowsUpTo_zero, rowsUpTo, if_neg (by omega)]

end TableHeap

namespace TableHeapIterator
variable {heap : TableHeap} {it : TableHeapIterator} {n p s : Nat}

/-- The slot that `Next` looks at first is slot `s` of page `p`. The table may have grown beyond the `n` pages that it
had at first. -/
structure At (heap : TableHeap) (n : Nat) (it : TableHeapIterator) (p s : Nat) : Prop where
  table : it.tableHeap = heap
  pages : it.numPages = n
  within : n ≤ heap.pages.length
  page : it.currentPageNum = p
  slot : it.currentSlot + 1 = s
  fetched : it.currentHeapPage = none ∨ it.currentHeapPage = (heap.pages[p]?).map .asHeapPage
  clean : it.err = none

theorem At.fetch (at' : At heap n it p s) : it.fetch = (heap.pages[p]?).map .asHeapPage := by
  have stored : it.tableHeap.getPage ⟨it.tableHeap.oid, it.currentPageNum⟩ = heap.pages[p]? := by
    rw [at'.table, at'.page]
    exact heap.getPage_ridAt p 0
  rw [TableHeapIterator.fetch, stored]
  rcases at'.fetched with missing | present
  · rw [missing, Option.none_or]
  · rw [present, Option.or_self]

theorem At.next {frame : PageBytes} (at' : At heap n it p s) (below : p < n) (found : heap.pages[p]? = some frame)
    (format : (asHeapPage frame).Formatted heap.desc.bytesPerTuple) :
    it.next = if heap.slots ≤ s then
        next { it with currentHeapPage := none, currentPageNum := p + 1, currentSlot := -1 }
      else
        match isGone (.asHeapPage frame) (heap.ridAt p s) with
        | none => none
        | some false => some (true, { it with currentSlot := s, currentHeapPage := some (.asHeapPage frame) })
        | some true =>
          next { it with currentSlot := s, currentHeapPage := some (.asHeapPage frame) } := by
  have count : (asHeapPage frame).numSlots = heap.slots := format.slots
  have fetch := at'.fetch
  obtain ⟨table, pages, -, page, slot, -, -⟩ := at'
  rw [TableHeapIterator.next, if_neg (by omega), fetch, found]
  simp only [Option.map_some, count, slot, Nat.cast_le, currentRID, table, page]
  rfl

theorem next_from (formed : heap.WellFormed) (it : TableHeapIterator) (p s : Nat) (at' : At heap n it p s) :
    (∃ after, it.next = some (false, after) ∧ after.err = none ∧ heap.rowsUpTo n p s = []) ∨
      ∃ after q i row, it.next = some (true, after) ∧ At heap n after q (i + 1) ∧ q < n ∧
        after.currentRID = heap.ridAt q i ∧ after.currentTuple = some row ∧
        heap.rowsUpTo n p s = (heap.ridAt q i, row) :: heap.rowsUpTo n q (i + 1) := by
  by_cases past : n ≤ p
  · refine .inl ⟨{ it with currentSlot := it.currentSlot + 1 }, ?_, at'.clean, if_pos past⟩
    rw [next, if_pos (by rw [at'.pages, at'.page]; exact past)]
  have below : p < n := by omega
  have bound : p < heap.pages.length := below.trans_le at'.within
  have found : heap.pages[p]? = some heap.pages[p] := getElem?_eq_getElem bound
  have format := formed _ (getElem_mem bound)
  generalize heap.pages[p] = frame at found format
  have advance := at'.next below found format
  by_cases passed : heap.slots ≤ s
  · rw [if_pos passed] at advance
    rw [rowsUpTo_next below passed, advance]
    exact next_from formed _ (p + 1) 0 ⟨at'.table, at'.pages, at'.within, rfl, rfl, .inl rfl, at'.clean⟩
  · have inside : s < heap.slots := by omega
    have entry : heap.entryAt p s = entryOf ((asHeapPage frame).slotView s) := by
      rw [entryAt, found]
      exact if_pos inside
    have gone : isGone (asHeapPage frame) (heap.ridAt p s) = _ :=
      isGone_eq format inside
    have later : At heap n { it with currentSlot := s, currentHeapPage := some (.asHeapPage frame) } p (s + 1) :=
      ⟨at'.table, at'.pages, at'.within, at'.page, rfl, .inr (by rw [found]; rfl), at'.clean⟩
    have rest := next_from formed _ p (s + 1) later
    rw [if_neg passed, gone] at advance
    rw [rowsUpTo_eq below inside, liveAt, entry, advance]
    have read := @accessTuple_eq _ _ _ ⟨heap.oid, p⟩ format inside
    have current : currentTuple { it with currentSlot := s, currentHeapPage := some (.asHeapPage frame) } =
        (asHeapPage frame).accessTuple (heap.ridAt p s) := by
      simp [currentTuple, currentRID, ridAt, at'.table, at'.page]
    have rid : currentRID { it with currentSlot := s, currentHeapPage := some (.asHeapPage frame) } = heap.ridAt p s := by
      simp [currentRID, ridAt, at'.table, at'.page]
    generalize (asHeapPage frame).slotView s = view at read ⊢
    rcases view with ⟨allocated, deleted, row⟩
    rcases allocated with _ | _ <;> rcases deleted with _ | _
    case true.false => exact .inr ⟨_, p, s, row, rfl, later, below, rid, current.trans read, rfl⟩
    all_goals exact rest
termination_by (n - p, heap.slots - s)

theorem pass_from (formed : heap.WellFormed) (it : TableHeapIterator) (p s : Nat) (at' : At heap n it p s) :
    Pass it (heap.rowsUpTo n p s) := by
  rcases next_from formed it p s at' with
    ⟨after, finished, clean, none⟩ | ⟨after, q, i, row, advanced, later, -, rid, current, more⟩
  · rw [none]
    exact .done finished clean
  · rw [more, ← rid]
    exact .yield advanced current (pass_from formed after q (i + 1) later)
termination_by (heap.rowsUpTo n p s).length
decreasing_by simp [more]

end TableHeapIterator

def Before (first second : RecordID) : Prop :=
  first.pageID.pageNum < second.pageID.pageNum ∨ first.pageID.pageNum = second.pageID.pageNum ∧ first.slot < second.slot

namespace TableHeap
variable {heap : TableHeap}

theorem rowsFrom_zero (heap : TableHeap) :
    heap.rowsFrom 0 0 = (range heap.pages.length).flatMap fun p => heap.rowsOf p 0 := by
  rw [rowsFrom, rowsUpTo_zero, Nat.sub_zero, range_eq_range']

variable {rid : RecordID} {row : RawTuple}

theorem liveAt_eq_some {p i : Nat} :
    heap.liveAt p i = some (rid, row) ↔ rid = heap.ridAt p i ∧ heap.entryAt p i = .live row := by
  rw [liveAt]
  cases heap.entryAt p i <;> simp [eq_comm]

theorem mem_rowsFrom : (rid, row) ∈ heap.rowsFrom 0 0 ↔ heap.contents rid = .live row := by
  simp only [rowsFrom_zero, rowsOf, mem_flatMap, mem_filterMap, mem_range, mem_range'_1, liveAt_eq_some]
  constructor
  · rintro ⟨p, -, i, -, rfl, live⟩
    rw [contents_ridAt, live]
  · intro live
    obtain ⟨p, i, rfl⟩ := exists_ridAt (by rw [live]; exact nofun)
    rw [contents_ridAt] at live
    obtain ⟨bound, inside⟩ := entryAt_ne_absent (by rw [live]; exact nofun)
    exact ⟨p, bound, i, by omega, rfl, live⟩

theorem pairwise_rowsFrom (heap : TableHeap) :
    (heap.rowsFrom 0 0).Pairwise fun first second => Before first.1 second.1 := by
  rw [rowsFrom_zero, pairwise_flatMap]
  constructor
  · intro p _
    rw [rowsOf, pairwise_filterMap]
    have ordered : (range' 0 (heap.slots - 0)).Pairwise (· < ·) := pairwise_lt_range' ..
    refine ordered.imp ?_
    intro i k before first firstLive second secondLive
    rw [(liveAt_eq_some.mp firstLive).1, (liveAt_eq_some.mp secondLive).1]
    exact .inr ⟨rfl, Int.ofNat_lt.mpr before⟩
  · refine pairwise_lt_range.imp ?_
    intro p q before first firstMem second secondMem
    obtain ⟨i, -, firstLive⟩ := mem_filterMap.mp firstMem
    obtain ⟨k, -, secondLive⟩ := mem_filterMap.mp secondMem
    rw [(liveAt_eq_some.mp firstLive).1, (liveAt_eq_some.mp secondLive).1]
    exact .inl (Int.ofNat_lt.mpr before)

theorem nodup_of_ordered {rows : List (RecordID × RawTuple)}
    (ordered : rows.Pairwise fun first second => Before first.1 second.1) : (rows.map Prod.fst).Nodup := by
  rw [Nodup, pairwise_map]
  refine ordered.imp fun before same => ?_
  rw [Before, same] at before
  omega

theorem iterator_pass (formed : heap.WellFormed) : ∃ rows, TableHeapIterator.Pass heap.iterator rows ∧
    rows.Pairwise (fun first second => Before first.1 second.1) ∧
    ∀ rid row, (rid, row) ∈ rows ↔ heap.contents rid = .live row :=
  ⟨heap.rowsFrom 0 0, pass_from formed _ 0 0 ⟨rfl, rfl, le_rfl, rfl, rfl, .inl rfl, rfl⟩,
    pairwise_rowsFrom heap, fun _ _ => mem_rowsFrom⟩

end TableHeap
end GoDB.Execution
