import GoDB.Proofs.MaintainedIndexes
import GoDB.Proofs.StatementLatches

/-! A chain of filters, projections and limits over the scan of a table that grows while it is read: the rows that are
still to come, and the latch that is held for the last one. -/

namespace GoDB.Execution
open Common Lib Storage Indexing Planner List TableHeap Pipeline Tuple

/-- Rows have been added: the pages before the last one are as they were. -/
structure TableHeap.Appended (heap later : TableHeap) : Prop where
  oid : later.oid = heap.oid
  desc : later.desc = heap.desc
  grows : heap.pages.length ≤ later.pages.length
  pages : ∀ p < heap.pages.length - 1, later.pages[p]? = heap.pages[p]?
  formed : heap.WellFormed → later.WellFormed

namespace TableHeap
variable {heap later : TableHeap}

theorem Appended.trans {last : TableHeap} (first : heap.Appended later) (second : later.Appended last) :
    heap.Appended last where
  oid := second.oid.trans first.oid
  desc := second.desc.trans first.desc
  grows := first.grows.trans second.grows
  pages p before := (second.pages p (by have := first.grows; omega)).trans (first.pages p before)
  formed formed := second.formed (first.formed formed)

theorem appended_insertTuple {row : RawTuple} {rid : RecordID} (length : row.length = heap.desc.bytesPerTuple)
    (inserted : heap.insertTuple row = some (.ok rid, later)) : heap.Appended later := by
  have formed (formed : heap.WellFormed) : later.WellFormed :=
    (InsertExecutor.inserts_of_insertTuple formed length inserted).formed
  have grown (inserted : heap.insertInNewPage row = some (.ok rid, later)) : heap.Appended later := by
    unfold insertInNewPage at inserted
    split at inserted
    next =>
      obtain ⟨page, -, rest⟩ := bind_eq_some.mp inserted
      obtain ⟨filled, -, rest⟩ := bind_eq_some.mp rest
      cases rest
      exact ⟨rfl, rfl, by simp, fun p before => getElem?_append_left (by omega), formed⟩
    next => cases inserted
  unfold insertTuple at inserted
  split at inserted
  next => exact grown inserted
  next =>
    obtain ⟨slot, -, rest⟩ := bind_eq_some.mp inserted
    cases slot with
    | none => exact grown rest
    | some slot =>
      obtain ⟨page, -, rest⟩ := bind_eq_some.mp rest
      cases rest
      refine ⟨rfl, rfl, by simp [putPage], fun p before => ?_, formed⟩
      exact getElem?_set_ne (by simp only [Int.toNat_natCast]; omega)

end TableHeap

namespace InsertExecutor
variable {table later : TableState} {rows : List Tuple} {count total : Int64}

theorem appended_insertRows (inserted : insertRows table count rows = some (.ok total, later)) :
    table.heap.Appended later.heap := by
  induction rows generalizing table count with
  | nil =>
    cases inserted
    exact ⟨rfl, rfl, le_rfl, fun _ _ => rfl, id⟩
  | cons row rest ih =>
    obtain ⟨raw, rid, heap, indexes, stored, took, -, rest⟩ := insertRows_cons inserted
    exact (appended_insertTuple (length_storedForm stored) took).trans (ih rest)

theorem insertRows_append (table : TableState) (count : Int64) (rows rest : List Tuple) :
    insertRows table count (rows ++ rest) = (insertRows table count rows).bind fun
      | (.ok total, later) => insertRows later total rest
      | failure => some failure := by
  induction rows generalizing table count with
  | nil => rfl
  | cons row rows ih =>
    simp only [cons_append, insertRows, Option.bind_eq_bind, Option.bind_assoc]
    refine Option.bind_congr fun raw _ => Option.bind_congr fun answer _ => ?_
    rcases answer with ⟨_ | rid, heap⟩
    · rfl
    · simp only [ih, Option.bind_assoc]

end InsertExecutor

/-- How a chain of executors over one scan goes on from a state: the rows that it gives when the scan has these ahead,
each with the page it is read from, the states in which a scan of the first `n` pages of a table has them ahead, and those
after its end. -/
structure View (σ : Type) where
  emits : σ → List Tuple → List (PageID × Tuple)
  ahead : TableHeap → Nat → σ → List Tuple → Prop
  ended : σ → Prop

/-- What `Next` gives when the rows of a list lie ahead: the first that the chain lets through, with the latch of its
page. -/
def Pulls {σ : Type} (c : Executor σ) (held : σ → List PageID) (v : View σ) (heap : TableHeap) (n : Nat) (s : σ)
    (rest : List Tuple) : Bool → σ → Prop
  | true, later => ∃ passed tuple more out, rest = passed ++ tuple :: more ∧ v.ahead heap n later more ∧
      c.current later = some out ∧ held later = [tuple.rid.pageID] ∧ v.emits s passed = [] ∧
      ∀ rows, v.emits s (passed ++ tuple :: rows) = (tuple.rid.pageID, out) :: v.emits later rows
  | false, later => v.emits s rest = [] ∧ v.ended later

def Scanning {σ : Type} (c : Executor σ) (held : σ → List PageID) (v : View σ) (heap : TableHeap) : Prop :=
  ∀ n s found later rest, v.ahead heap n s rest → c.next s = some (found, later) → Pulls c held v heap n s rest found later

/-- The rows of the pages before page `n`, from a slot on. -/
def TableHeap.tuplesUpTo (heap : TableHeap) (n p s : Nat) : List Tuple :=
  (heap.rowsUpTo n p s).map fun entry => .fromRawTuple entry.2 heap.desc entry.1

def TableHeap.tuples (heap : TableHeap) : List Tuple := heap.tuplesUpTo heap.pages.length 0 0

section Scanning
variable {σ : Type} {child : Executor σ} {held : σ → List PageID} {v : View σ} {heap : TableHeap}

def RowsAhead (heap : TableHeap) (n : Nat) (e : LatchedScan) (rest : List Tuple) : Prop :=
  e.leaked = [] ∧ e.tableHeap = heap ∧ ∃ p s, TableHeapIterator.At heap n e.scan.iterator p s ∧
    (∀ page ∈ e.latched, page = ⟨heap.oid, p⟩ ∧ p < n) ∧ rest = heap.tuplesUpTo n p s

def LatchedScan.view : View (LatchedScan × Bool) where
  emits _ rows := rows.map fun t => (t.rid.pageID, t)
  ahead heap n e := RowsAhead heap n e.1
  ended e := e.1.latches = []

theorem latchedScan_scanning (formed : heap.WellFormed) :
    Scanning (watched LatchedScan.executor) (fun e => e.1.latches) LatchedScan.view heap := by
  rintro n e found later _ ⟨unleaked, rfl, p, s, at', -, rfl⟩ returned
  obtain ⟨⟨found, scan⟩, pulled, made⟩ := bind_eq_some.mp returned
  obtain ⟨⟨found, cursor⟩, read, made'⟩ := bind_eq_some.mp pulled
  obtain ⟨⟨found, iterator⟩, moved, read⟩ := bind_eq_some.mp read
  rcases TableHeapIterator.next_from formed _ p s at' with
    ⟨after, finished, -, none⟩ | ⟨after, q, i, row, advanced, stands, below, rid, current, more⟩
  · cases finished.symm.trans moved
    cases read
    cases made'
    cases made
    exact ⟨by rw [tuplesUpTo, none]; rfl, by simp [LatchedScan.view, LatchedScan.latches, unleaked]⟩
  · cases advanced.symm.trans moved
    obtain ⟨row', read', made''⟩ := bind_eq_some.mp read
    cases current.symm.trans read'
    cases made''
    cases made'
    cases made
    refine ⟨[], .fromRawTuple row e.1.tableHeap.desc iterator.currentRID, _, _, ?_,
      ⟨unleaked, rfl, q, i + 1, stands, ?_, rfl⟩, rfl, ?_, rfl, fun _ => rfl⟩
    · rw [tuplesUpTo, more, rid]
      rfl
    · rintro page ⟨⟩
      rw [rid]
      exact ⟨rfl, below⟩
    · simp [LatchedScan.latches, unleaked, fromRawTuple]

@[simps]
def View.filtered (v : View σ) (predicate : PhysicalExpr) : View (FilterExecutor σ) where
  emits e rows := (v.emits e.child rows).filter fun r => predicate.test r.2.values == some true
  ahead heap n e := v.ahead heap n e.child
  ended e := v.ended e.child

theorem filterExecutor_scanning (scanning : Scanning child held v heap) (fuel : Nat) (predicate : PhysicalExpr) :
    Scanning (filterExecutor fuel child predicate) (fun e => held e.child) (v.filtered predicate) heap := by
  intro n e₀ found later rest here returned
  refine repeatUntil_rule (fun e : FilterExecutor σ => ∃ passed more, rest = passed ++ more ∧
      v.ahead heap n e.child more ∧ ∀ rows, (v.filtered predicate).emits e₀ (passed ++ rows) =
        (v.filtered predicate).emits e rows)
    (fun r => Pulls (filterExecutor fuel child predicate) (fun e => held e.child) (v.filtered predicate) heap n e₀ rest
      r.1 r.2) ?_ ⟨[], rest, rfl, here, fun _ => rfl⟩ returned
  rintro e outcome ⟨passed, more, rfl, here, same⟩ taken
  obtain ⟨⟨found, below⟩, advanced, read⟩ := bind_eq_some.mp taken
  have pulls := scanning _ _ _ _ _ here advanced
  cases found with
  | false =>
    cases read
    exact ⟨by rw [same, View.filtered_emits, pulls.1, filter_nil], pulls.2⟩
  | true =>
    obtain ⟨skipped, tuple, later, out, rfl, ahead', current, latched, none, first⟩ := pulls
    simp only [if_true, bind_eq_some] at read
    obtain ⟨out', current', kept, tested, read⟩ := read
    cases current.symm.trans current'
    have onward (rows : List Tuple) : (v.filtered predicate).emits e₀ (passed ++ skipped ++ tuple :: rows) =
        if kept then (tuple.rid.pageID, out) :: (v.emits below rows).filter (fun r => predicate.test r.2.values == some true)
        else (v.emits below rows).filter fun r => predicate.test r.2.values == some true := by
      rw [append_assoc, same, View.filtered_emits, first, filter_cons, tested]
      cases kept <;> rfl
    cases kept with
    | true =>
      cases read
      refine ⟨passed ++ skipped, tuple, later, out, by simp, ahead', rfl, latched, ?_, onward⟩
      rw [same, View.filtered_emits, none, filter_nil]
    | false =>
      cases read
      exact ⟨passed ++ skipped ++ [tuple], later, by simp, ahead', fun rows => by simpa using onward rows⟩

@[simps]
def View.projected (v : View σ) (expressions : List PhysicalExpr) : View (ProjectionExecutor σ) where
  emits e rows := (v.emits e.child rows).filterMap fun r =>
    (expressions.mapM fun expr : PhysicalExpr => expr.eval r.2.values).map fun values => (r.1, .fromValues values)
  ahead heap n e := v.ahead heap n e.child
  ended e := v.ended e.child

theorem projectionExecutor_scanning (scanning : Scanning child held v heap) (expressions : List PhysicalExpr) :
    Scanning (projectionExecutor child expressions) (fun e => held e.child) (v.projected expressions) heap := by
  intro n e found later rest here returned
  obtain ⟨⟨found', below⟩, advanced, read⟩ := bind_eq_some.mp returned
  have pulls := scanning _ _ _ _ _ here advanced
  cases found' with
  | false =>
    cases read
    exact ⟨by rw [View.projected_emits, pulls.1, filterMap_nil], pulls.2⟩
  | true =>
    obtain ⟨passed, tuple, more, out, rfl, ahead', current, latched, none, first⟩ := pulls
    simp only [if_true, bind_eq_some] at read
    obtain ⟨out', current', values, evaluated, read⟩ := read
    cases current.symm.trans current'
    cases read
    refine ⟨passed, tuple, more, _, rfl, ahead', rfl, latched, by rw [View.projected_emits, none, filterMap_nil],
      fun rows => ?_⟩
    simp [View.projected, first, evaluated]

/-- A limit that is reached does not ask its child again. -/
@[simps]
def View.limited (v : View σ) (count : Int) : View (LimitExecutor σ) where
  emits e rows := (v.emits e.child rows).take (count - e.count).toNat
  ahead heap n e := v.ahead heap n e.child
  ended _ := True

theorem limitExecutor_scanning (scanning : Scanning child held v heap) (count : Int) :
    Scanning (limitExecutor child count) (fun e => held e.child) (v.limited count) heap := by
  intro n e found later rest here returned
  dsimp only [limitExecutor] at returned
  split at returned
  next reached =>
    cases returned
    exact ⟨by rw [View.limited_emits, Int.toNat_of_nonpos (by omega), take_zero], trivial⟩
  next short =>
    obtain ⟨⟨found', below⟩, advanced, read⟩ := bind_eq_some.mp returned
    have pulls := scanning _ _ _ _ _ here advanced
    cases found' with
    | false =>
      cases read
      exact ⟨by rw [View.limited_emits, pulls.1, take_nil], trivial⟩
    | true =>
      obtain ⟨passed, tuple, more, out, rfl, ahead', current, latched, none, first⟩ := pulls
      simp only [if_true, bind_eq_some] at read
      obtain ⟨out', current', read⟩ := read
      cases current.symm.trans current'
      cases read
      have less : (count - e.count).toNat = (count - (e.count + 1)).toNat + 1 := by omega
      refine ⟨passed, tuple, more, out, rfl, ahead', rfl, latched, by rw [View.limited_emits, none, take_nil], fun rows => ?_⟩
      simp only [View.limited, first, less, take_succ_cons]

end Scanning

namespace Pipeline

/-- Filters, projections and limits over a scan of the table. -/
def Streams (heap : TableHeap) : Pipeline Leaf → Prop
  | .leaf (.scan tableHeap) => tableHeap = heap
  | .filter _ child _ | .projection child _ | .limit child _ => child.Streams heap
  | .leaf (.other _) | .sort .. | .aggregate .. | .join .. => False

def view : (tree : Pipeline Leaf) → View tree.sources.State
  | .leaf (.scan _) => LatchedScan.view
  | .filter _ child predicate => child.view.filtered predicate
  | .projection child expressions => child.view.projected expressions
  | .limit child count => child.view.limited count
  | .leaf (.other _) | .sort .. | .aggregate .. | .join .. => ⟨fun _ _ => [], fun _ _ _ _ => False, fun _ => False⟩

def delivered (tree : Pipeline Leaf) (rows : List Tuple) : List (PageID × Tuple) := tree.view.emits tree.sources.fresh rows

variable {heap : TableHeap} {tree : Pipeline Leaf}

theorem scanning (formed : heap.WellFormed) (tree : Pipeline Leaf) :
    Scanning tree.sources.executor tree.latches tree.view heap := by
  induction tree with
  | leaf leaf =>
    cases leaf with
    | scan => exact latchedScan_scanning formed
    | other => exact fun _ _ _ _ _ here => here.elim
  | filter fuel child predicate ih => exact filterExecutor_scanning ih fuel predicate
  | projection child expressions ih => exact projectionExecutor_scanning ih expressions
  | limit child count ih => exact limitExecutor_scanning ih count
  | sort | aggregate | join => exact fun _ _ _ _ _ here => here.elim

theorem begins (streams : tree.Streams heap) {err : Option ExecError} {s : tree.sources.State}
    (begun : tree.sources.executor.init tree.sources.fresh = some (err, s)) :
    err = none ∧ tree.view.ahead heap heap.pages.length s heap.tuples ∧ tree.latches s = [] ∧
      tree.view.emits s = tree.delivered := by
  induction tree generalizing err with
  | leaf leaf =>
    cases leaf with
    | other => exact streams.elim
    | scan tableHeap =>
      cases streams
      cases begun
      exact ⟨rfl, ⟨rfl, rfl, 0, 0, ⟨rfl, rfl, le_rfl, rfl, rfl, .inl rfl, rfl⟩, nofun, rfl⟩, rfl, rfl⟩
  | filter fuel child predicate ih =>
    obtain ⟨⟨err', below⟩, started, made⟩ := bind_eq_some.mp begun
    cases made
    obtain ⟨fine, here, unheld, same⟩ := ih streams started
    exact ⟨fine, here, unheld, funext fun rows => congrArg (List.filter _) (congrFun same rows)⟩
  | projection child expressions ih =>
    obtain ⟨⟨err', below⟩, started, made⟩ := bind_eq_some.mp begun
    cases made
    obtain ⟨fine, here, unheld, same⟩ := ih streams started
    exact ⟨fine, here, unheld, funext fun rows => congrArg (List.filterMap _) (congrFun same rows)⟩
  | limit child count ih =>
    obtain ⟨⟨err', below⟩, started, made⟩ := bind_eq_some.mp begun
    cases made
    obtain ⟨fine, here, unheld, same⟩ := ih streams started
    exact ⟨fine, here, unheld, funext fun rows => congrArg (List.take _) (congrFun same rows)⟩
  | sort | aggregate | join => exact streams.elim

end Pipeline

namespace TableHeap
variable {heap later : TableHeap} {m n p s : Nat}

def earlyTuples (heap : TableHeap) : List Tuple := heap.tuplesUpTo (heap.pages.length - 1) 0 0

def lastTuples (heap : TableHeap) : List Tuple := heap.tuplesUpTo heap.pages.length (heap.pages.length - 1) 0

theorem tuplesUpTo_append (below : p < m) (within : m ≤ n) :
    heap.tuplesUpTo n p s = heap.tuplesUpTo m p s ++ heap.tuplesUpTo n m 0 := by
  rw [tuplesUpTo, rowsUpTo_append below within, map_append]
  rfl

theorem tuples_eq (heap : TableHeap) : heap.tuples = heap.earlyTuples ++ heap.lastTuples := by
  rw [tuples, earlyTuples, lastTuples]
  rcases Nat.eq_zero_or_pos (heap.pages.length - 1) with none | some
  · rw [none]
    rfl
  · exact tuplesUpTo_append some (by omega)

theorem page_of_mem_tuplesUpTo {t : Tuple} (member : t ∈ heap.tuplesUpTo n p s) :
    ∃ q, p ≤ q ∧ q < n ∧ t.rid.pageID = ⟨heap.oid, q⟩ := by
  obtain ⟨⟨rid, row⟩, found, rfl⟩ := mem_map.mp member
  have ofPage {q i : Nat} (found : (rid, row) ∈ heap.rowsOf q i) : rid.pageID = ⟨heap.oid, q⟩ := by
    obtain ⟨k, -, live⟩ := mem_filterMap.mp found
    rw [(liveAt_eq_some.mp live).1]
    rfl
  rw [rowsUpTo] at found
  split at found
  next => cases found
  next inside =>
    rcases mem_append.mp found with here | after
    · exact ⟨p, le_rfl, by omega, ofPage here⟩
    · obtain ⟨q, between, here⟩ := mem_flatMap.mp after
      rw [mem_range'_1] at between
      exact ⟨q, by omega, by omega, ofPage here⟩

theorem Appended.rowsOf (appended : heap.Appended later) (before : p < heap.pages.length - 1) (s : Nat) :
    later.rowsOf p s = heap.rowsOf p s := by
  have slots : later.slots = heap.slots := by rw [slots, slots, appended.desc]
  have entries : later.liveAt p = heap.liveAt p := by
    funext i
    rw [liveAt, entryAt, appended.pages p before, slots, ridAt, appended.oid]
    rfl
  rw [TableHeap.rowsOf, slots, entries]
  rfl

theorem Appended.tuplesUpTo (appended : heap.Appended later) (before : m ≤ heap.pages.length - 1) (p s : Nat) :
    later.tuplesUpTo m p s = heap.tuplesUpTo m p s := by
  have rows : later.rowsUpTo m p s = heap.rowsUpTo m p s := by
    rw [rowsUpTo, rowsUpTo]
    refine ite_congr rfl (fun _ => rfl) fun inside => ?_
    rw [appended.rowsOf (by omega)]
    refine congrArg _ (flatMap_congr fun q member => appended.rowsOf ?_ 0)
    rw [mem_range'_1] at member
    omega
  rw [TableHeap.tuplesUpTo, rows, appended.desc]
  rfl

end TableHeap

namespace Pipeline
variable {heap later : TableHeap} {m n p : Nat}

theorem isPrefix_emits (tree : Pipeline Leaf) (s : tree.sources.State) (rows more : List Tuple) :
    (tree.view.emits s rows).IsPrefix (tree.view.emits s (rows ++ more)) := by
  induction tree with
  | leaf leaf =>
    cases leaf with
    | scan => exact (prefix_append rows more).map _
    | other => exact prefix_rfl
  | filter fuel child predicate ih => exact (ih s.child).filter _
  | projection child expressions ih => exact (ih s.child).filterMap _
  | limit child count ih => exact (ih s.child).take _
  | sort | aggregate | join => exact prefix_rfl

theorem emits_refresh (tree : Pipeline Leaf) (s : tree.sources.State) :
    tree.view.emits (tree.refresh later s) = tree.view.emits s := by
  induction tree with
  | leaf leaf => cases leaf <;> rfl
  | filter fuel child predicate ih => exact funext fun rows => congrArg (List.filter _) (congrFun (ih s.child) rows)
  | projection child expressions ih => exact funext fun rows => congrArg (List.filterMap _) (congrFun (ih s.child) rows)
  | limit child count ih => exact funext fun rows => congrArg (List.take _) (congrFun (ih s.child) rows)
  | sort | aggregate | join => rfl

/-- Rows are appended while a scan stands on a page before the last: it will read the rows of the pages up to `m` as they
were, and the others as they are now. -/
theorem ahead_refresh (appended : heap.Appended later) (before : m ≤ heap.pages.length - 1) (within : m ≤ n) (inside : p < m)
    {tree : Pipeline Leaf} {s : tree.sources.State} {rest : List Tuple} (here : tree.view.ahead heap n s rest)
    (latched : tree.latches s = [⟨heap.oid, p⟩]) :
    ∃ early, rest = early ++ heap.tuplesUpTo n m 0 ∧
      tree.view.ahead later n (tree.refresh later s) (early ++ later.tuplesUpTo n m 0) := by
  induction tree with
  | leaf leaf =>
    cases leaf with
    | other => exact here.elim
    | scan =>
      obtain ⟨e, failed⟩ := s
      obtain ⟨unleaked, rfl, q, i, at', on, rfl⟩ := here
      have same : p = q := by
        change e.leaked ++ e.latched.toList = _ at latched
        rw [unleaked, nil_append, Option.toList_eq_singleton_iff] at latched
        simpa using (on _ latched).1
      subst same
      refine ⟨e.tableHeap.tuplesUpTo m p i, tuplesUpTo_append inside within, ?_⟩
      have fetched : e.scan.iterator.currentHeapPage = none ∨
          e.scan.iterator.currentHeapPage = (later.pages[p]?).map .asHeapPage := by
        rw [appended.pages p (by omega)]
        exact at'.fetched
      have moved : e.refresh later = ⟨later, ⟨{ e.scan.iterator with tableHeap := later }, e.scan.current⟩, e.latched,
          e.leaked⟩ := if_pos appended.oid
      change RowsAhead later n (e.refresh later) _
      rw [moved]
      refine ⟨unleaked, rfl, p, i,
        ⟨rfl, at'.pages, at'.within.trans appended.grows, at'.page, at'.slot, fetched, at'.clean⟩, ?_, ?_⟩
      · rw [appended.oid]
        exact on
      · rw [tuplesUpTo_append inside within, appended.tuplesUpTo before]
  | filter fuel child predicate ih => exact ih here latched
  | projection child expressions ih => exact ih here latched
  | limit child count ih => exact ih here latched
  | sort | aggregate | join => exact here.elim

end Pipeline

end GoDB.Execution
