import GoDB.Indexing.Iterator
import GoDB.Proofs.IndexReads

/-! What the iterator of a range scan returns, call by call, and when that is what
the interface of an index promises. -/

namespace GoDB.Indexing
open Common Lib Storage Transaction List BTreeItem ScanCall

namespace MemBTreeIndexIterator
variable (it : MemBTreeIndexIterator)

def remaining : List BTreeItem :=
  if !it.hasMore then []
  else match it.direction with
    | .forward => it.snapshot.drop (if it.firstCall then it.pos else it.pos + 1)
    | .backward => (it.snapshot.take (if it.firstCall then it.pos + 1 else it.pos)).reverse

def OnItem : Prop := it.hasMore = true → it.pos < it.snapshot.length

def answer : Option BTreeItem := if it.next.1 then it.next.2.item else none

theorem reverse_take_succ {items : List BTreeItem} {i : Nat} (inside : i < items.length) :
    (items.take (i + 1)).reverse = items[i] :: (items.take i).reverse := by
  rw [take_succ_eq_append_getElem inside, reverse_append]
  rfl

theorem next_spec {it : MemBTreeIndexIterator} (onItem : it.OnItem) :
    it.next.2.OnItem ∧ it.answer = it.remaining.head? ∧ it.next.2.remaining = it.remaining.tail := by
  obtain ⟨snapshot, pos, direction, firstCall, hasMore⟩ := it
  cases hasMore with
  | false => cases firstCall <;> simp [next, remaining, OnItem, answer]
  | true =>
    have inside : pos < snapshot.length := onItem rfl
    cases firstCall with
    | true =>
      cases direction with
      | forward => simp [next, remaining, OnItem, answer, item, inside, tail_drop]
      | backward => simp [next, remaining, OnItem, answer, item, inside, reverse_take_succ]
    | false =>
      cases direction with
      | forward =>
        by_cases more : pos + 1 < snapshot.length
        · simp [next, remaining, OnItem, answer, item, more, tail_drop]
        · simp [next, remaining, OnItem, answer, more]
          omega
      | backward =>
        cases pos with
        | zero => simp [next, stepBack, remaining, OnItem, answer]
        | succ before =>
          have earlier : before < snapshot.length := by omega
          simp [next, stepBack, remaining, OnItem, answer, item, earlier, reverse_take_succ]

end MemBTreeIndexIterator

namespace OpenScan

theorem answers_eq {scan : OpenScan} (onItem : scan.iterator.OnItem) (calls : List ScanCall) :
    scan.answers calls = (range (calls.countP isNext)).map (scan.iterator.remaining[·]?) := by
  induction calls generalizing scan with
  | nil => rfl
  | cons call rest ih =>
    cases call with
    | next =>
      obtain ⟨later, answered, left⟩ := MemBTreeIndexIterator.next_spec onItem
      have shifted : ∀ i, scan.iterator.remaining.tail[i]? = scan.iterator.remaining[i + 1]? := by simp
      rw [answers, ih (by simpa only [step] using later), countP_cons_of_pos (by rfl), range_succ_eq_map, map_cons, map_map]
      simp only [step, left, shifted, singleton_append, cons.injEq, ← head?_eq_getElem?]
      exact ⟨answered, rfl⟩
    | insertEntry | deleteEntry =>
      rw [answers, ih (by simpa only [step, changed] using onItem), countP_cons_of_neg (by simp [isNext])]
      rfl

end OpenScan

namespace MemBTreeIndex
variable (index : MemBTreeIndex)

theorem atLast_spec (items : List BTreeItem) : ((atLast items).2 = true → (atLast items).1 < items.length) ∧
      (if !(atLast items).2 then [] else (items.take ((atLast items).1 + 1)).reverse) = items.reverse := by
  cases items <;> simp [atLast]

theorem openScan_spec (start : Option Key) (direction : ScanDirection) : (index.openScan start direction).OnItem ∧
      (index.openScan start direction).remaining = index.scan start direction := by
  obtain ⟨lastInside, lastAll⟩ := atLast_spec index.tree.items
  unfold openScan scan MemBTreeIndexIterator.OnItem MemBTreeIndexIterator.remaining
  cases direction with
  | forward =>
    cases start with
    | none => cases index.tree.items <;> simp [atFirst]
    | some key =>
      by_cases found : index.seek key < index.tree.items.length
      · simp [atPivot, found]
      · simp [atPivot, found, drop_eq_nil_of_le (Nat.le_of_not_lt found)]
  | backward =>
    cases start with
    | none => exact ⟨lastInside, lastAll⟩
    | some key =>
      cases found : index.tree.items[index.seek key]? with
      | none => simpa only [found] using ⟨lastInside, lastAll⟩
      | some item =>
        have inside := (List.getElem?_eq_some_iff.mp found).1
        simp only [found]
        split
        next =>
          cases place : index.seek key with
          | zero => simp [stepBack]
          | succ before =>
            simp only [stepBack, place] at inside ⊢
            simp
            omega
        next => simpa using inside

end MemBTreeIndex

variable (schema : RawTupleDesc)

/-- What the interface of an index says that a scan returns. -/
def documentedScan (items : List BTreeItem) (start : Option Key) : ScanDirection → List BTreeItem
  | .forward => items.filter fun item => start.all fun key => item.key.compare schema key ≠ .lt
  | .backward => (items.filter fun item => start.all fun key => item.key.compare schema key ≠ .gt).reverse

/-- An entry with the start key that `Seek` does not pass over. -/
def AtPivot (start : Key) (item : BTreeItem) : Prop :=
  item.key.compare schema start = .eq ∧ ridRank zeroRID ≤ ridRank item.rid

/-- A forward scan misses the entries with the start key that come before the pivot,
a backward scan those that come after the first one at the pivot. -/
def NoneMissed (items : List BTreeItem) (start : Key) : ScanDirection → Prop
  | .forward => ∀ item ∈ items, item.key.compare schema start = .eq → AtPivot schema start item
  | .backward => ∀ first ∈ items, ∀ second ∈ items, AtPivot schema start first → AtPivot schema start second →
      first = second

namespace MemBTreeIndex
variable {index : MemBTreeIndex} {start : Key} {schema : RawTupleDesc}

theorem less_pivot_eq (item : BTreeItem) : less schema item ⟨start, zeroRID⟩ = true ↔
      item.key.compare schema start ≠ .gt ∧ ¬ AtPivot schema start item := by
  rw [less_iff, AtPivot, Key.compare_eq_cmp, rank, rank, Prod.Lex.toLex_lt_toLex, Ne, cmp_eq_gt_iff, cmp_eq_eq_iff]
  rcases lt_trichotomy (item.key.rank schema) (start.rank schema) with less | same | more
  · simp [less, less.ne, less.not_gt]
  · simp [same, ridRank]
  · simp [more, more.ne', more.not_gt]

theorem forward_iff : index.scan (some start) .forward =
        documentedScan index.metadata.keySchema index.tree.items (some start) .forward ↔
      NoneMissed index.metadata.keySchema index.tree.items start .forward := by
  simp only [scan, documentedScan, Option.all_some, (index.split_pivot start).1]
  -- An item that both or neither keep is one that the scan does not miss.
  have agree : ∀ item : BTreeItem, (!less index.metadata.keySchema item ⟨start, zeroRID⟩) =
      decide (item.key.compare index.metadata.keySchema start ≠ .lt) ↔
        (item.key.compare index.metadata.keySchema start = .eq → AtPivot index.metadata.keySchema start item) := by
    intro item
    rw [Bool.eq_iff_iff, Bool.not_eq_true', ← Bool.not_eq_true, less_pivot_eq, decide_eq_true_iff, AtPivot]
    cases item.key.compare index.metadata.keySchema start <;> simp
  constructor
  · intro same item member
    have kept := congrArg (item ∈ ·) same
    simp only [mem_filter, member, true_and, eq_iff_iff] at kept
    exact (agree item).mp (Bool.eq_iff_iff.mpr kept)
  · intro noneMissed
    exact filter_congr fun item member => (agree item).mpr (noneMissed item member)

theorem documented_backward : documentedScan index.metadata.keySchema index.tree.items (some start) .backward =
    (index.tree.items.take (index.seek start) ++ (index.tree.items.drop (index.seek start)).filter fun item =>
      item.key.compare index.metadata.keySchema start ≠ .gt).reverse := by
  have early : (index.tree.items.take (index.seek start)).filter (fun item =>
      item.key.compare index.metadata.keySchema start ≠ .gt) = index.tree.items.take (index.seek start) := by
    apply filter_eq_self.mpr
    intro item member
    rw [(index.split_pivot start).2, mem_filter, less_pivot_eq] at member
    exact decide_eq_true member.2.1
  rw [← early, ← filter_append, take_append_drop]
  simp [documentedScan]

variable {item : BTreeItem}

theorem mem_drop_seek : item ∈ index.tree.items.drop (index.seek start) ↔
    item ∈ index.tree.items ∧ (item.key.compare index.metadata.keySchema start = .gt ∨
      AtPivot index.metadata.keySchema start item) := by
  rw [(index.split_pivot start).1, mem_filter, Bool.not_eq_true', ← Bool.not_eq_true, less_pivot_eq]
  tauto

theorem not_gt_of_atPivot (atPivot : AtPivot schema start item) : item.key.compare schema start ≠ .gt := by
  rw [atPivot.1]
  decide

theorem backward_iff : index.scan (some start) .backward =
        documentedScan index.metadata.keySchema index.tree.items (some start) .backward ↔
      NoneMissed index.metadata.keySchema index.tree.items start .backward := by
  rw [documented_backward]
  cases here : index.tree.items.drop (index.seek start) with
  | nil =>
    have past : index.tree.items[index.seek start]? = none := by rw [← head?_drop, here]; rfl
    have whole : index.tree.items.take (index.seek start) = index.tree.items := by
      have parts := take_append_drop (index.seek start) index.tree.items
      rwa [here, append_nil] at parts
    simp only [scan, past, whole, filter_nil, append_nil, true_iff]
    intro first member _ _ atPivot
    have behind := mem_drop_seek.mpr ⟨member, .inr atPivot⟩
    rw [here] at behind
    exact (not_mem_nil behind).elim
  | cons landed rest =>
    have found : index.tree.items[index.seek start]? = some landed := by rw [← head?_drop, here]; rfl
    have later := index.sorted_rank.sublist (drop_sublist (index.seek start) _)
    have member : ∀ {item}, item ∈ landed :: rest ↔ _ := fun {item} => here ▸ @mem_drop_seek index start item
    rw [here, pairwise_cons] at later
    simp only [scan, found]
    split
    next above =>
      -- Only larger keys are left, so no entry is at the pivot.
      have larger : ∀ item ∈ landed :: rest, item.key.compare index.metadata.keySchema start = .gt := by
        intro item inside
        rcases mem_cons.mp inside with rfl | after
        · exact above
        · exact compare_gt_mono (later.1 item after) above
      have nothing : (landed :: rest).filter (fun item =>
          item.key.compare index.metadata.keySchema start ≠ .gt) = [] := by
        apply filter_eq_nil_iff.mpr
        intro item inside
        simp [larger item inside]
      simp only [nothing, append_nil, true_iff]
      intro first inside _ _ atPivot
      exact absurd (larger first (member.mpr ⟨inside, .inr atPivot⟩)) (not_gt_of_atPivot atPivot)
    next within =>
      have landedAt : AtPivot index.metadata.keySchema start landed :=
        (member.mp mem_cons_self).2.resolve_left within
      rw [(rest_after here).1, reverse_inj, append_cancel_left_eq, filter_cons_of_pos (by simp [within]),
        cons.injEq, and_iff_right rfl, eq_comm, filter_eq_nil_iff]
      simp only [decide_eq_true_eq, not_not]
      constructor
      · intro larger first inFirst second inSecond firstAt secondAt
        have lands : ∀ item ∈ index.tree.items, AtPivot index.metadata.keySchema start item → item = landed := by
          intro item inside atPivot
          rcases mem_cons.mp (member.mpr ⟨inside, .inr atPivot⟩) with same | after
          · exact same
          · exact absurd (larger item after) (not_gt_of_atPivot atPivot)
        rw [lands first inFirst firstAt, lands second inSecond secondAt]
      · intro single item after
        obtain ⟨inside, larger | atPivot⟩ := member.mp (mem_cons_of_mem _ after)
        · exact larger
        · have same := single item inside landed (member.mp mem_cons_self).1 atPivot landedAt
          exact absurd (later.1 item after) (same ▸ lt_irrefl _)

/-- Whatever is done to the index after it was opened, a scan returns the promised
entries in order exactly when it has no start key or misses no entry with that key. -/
theorem scan_as_documented_iff (index : MemBTreeIndex) (start : Option Key) (direction : ScanDirection) :
    (∀ calls, (OpenScan.mk index (index.openScan start direction)).answers calls = (range (calls.countP isNext)).map
          ((documentedScan index.metadata.keySchema index.tree.items start direction)[·]?)) ↔
      ∀ key, start = some key → NoneMissed index.metadata.keySchema index.tree.items key direction := by
  obtain ⟨onItem, remains⟩ := index.openScan_spec start direction
  have answered : ∀ calls, (OpenScan.mk index (index.openScan start direction)).answers calls = _ :=
    fun calls => OpenScan.answers_eq onItem calls
  simp only [remains] at answered
  have whole : (∀ calls, (OpenScan.mk index (index.openScan start direction)).answers calls =
        (range (calls.countP isNext)).map
          ((documentedScan index.metadata.keySchema index.tree.items start direction)[·]?)) ↔
      index.scan start direction = documentedScan index.metadata.keySchema index.tree.items start direction := by
    constructor
    · intro always
      apply ext_getElem?
      intro i
      have same := (answered (.replicate (i + 1) .next)).symm.trans (always (.replicate (i + 1) .next))
      rw [countP_replicate, if_pos (by rfl)] at same
      exact map_inj_left.mp same i (mem_range.mpr i.lt_succ_self)
    · intro same calls
      rw [answered, same]
  rw [whole]
  cases start with
  | none => cases direction <;> simp [scan, documentedScan]
  | some key =>
    simp only [Option.some.injEq, forall_eq']
    cases direction with
    | forward => exact forward_iff
    | backward => exact backward_iff

def withDuplicate : MemBTreeIndex where
  metadata := .oneInt
  tree := (OrderedSet.empty.set ⟨(Value.int 0).writeTo, ⟨⟨1, 0⟩, 0⟩⟩).set ⟨(Value.int 0).writeTo, ⟨⟨1, 0⟩, 1⟩⟩

/-- A backward scan from the key finds the first record and misses the second. -/
theorem backward_misses_duplicate :
    (OpenScan.mk withDuplicate (withDuplicate.openScan (some (Value.int 0).writeTo) .backward)).answers
        [.next, .next, .next] = [some ⟨(Value.int 0).writeTo, ⟨⟨1, 0⟩, 0⟩⟩, none, none] ∧
      documentedScan withDuplicate.metadata.keySchema withDuplicate.tree.items (some (Value.int 0).writeTo) .backward =
        [⟨(Value.int 0).writeTo, ⟨⟨1, 0⟩, 1⟩⟩, ⟨(Value.int 0).writeTo, ⟨⟨1, 0⟩, 0⟩⟩] := by
  decide +kernel

end MemBTreeIndex
end GoDB.Indexing
