import GoDB.Proofs.MaintainedIndexes
import GoDB.Proofs.RestartedTrees

/-! What the index executors return when the index also has entries of rows that
were deleted or have another key by now. -/

namespace GoDB.Execution
open Common Lib Storage Indexing List Function TableHeap MemBTreeIndex Option ExecutorTree Prod Index

def newIndexLookupExecutor (tableHeap : TableHeap) : IndexLookupExecutor :=
  ⟨[], 0, none, newBuffer tableHeap, none⟩

def newIndexScanExecutor (tableHeap : TableHeap) : IndexScanExecutor :=
  ⟨none, none, newBuffer tableHeap, none⟩

namespace TableHeap

/-- Every live row is listed under its key; what else is listed has the form of a key
and the id of a slot. -/
structure Covered (heap : TableHeap) (index : Index) : Prop where
  formed : heap.WellFormed
  suits : Suits index.metadata heap.desc
  encoded : ∀ entry ∈ index.entries, entry.1.Encodes index.metadata.keySchema
  named : ∀ entry ∈ index.entries, heap.Names entry.2
  covered : ∀ rid row, heap.contents rid = .live row → (rowKey index.metadata heap.desc row, rid) ∈ index.entries

def Current (heap : TableHeap) (metadata : IndexMetadata) (entry : Indexing.Entry) : Prop :=
  ∃ row, heap.contents entry.2 = .live row ∧ rowKey metadata heap.desc row = entry.1

def liveTuple (heap : TableHeap) (rid : RecordID) : Option Tuple :=
  match heap.contents rid with
  | .live row => some (.fromRawTuple row heap.desc rid)
  | .absent | .deleted => none

variable {rid : RecordID}

theorem liveTuple_eq_some_iff {heap : TableHeap} {tuple : Tuple} : heap.liveTuple rid = some tuple ↔
      ∃ row, heap.contents rid = .live row ∧ tuple = .fromRawTuple row heap.desc rid := by
  unfold liveTuple
  split
  next row live => simp [live, eq_comm]
  next absent => simp [absent]
  next deleted => simp [deleted]

theorem rid_of_liveTuple {heap : TableHeap} {tuple : Tuple} (found : heap.liveTuple rid = some tuple) :
    tuple.rid = rid := by
  obtain ⟨row, -, rfl⟩ := liveTuple_eq_some_iff.mp found
  rfl

theorem late_of_named {heap : TableHeap} (named : heap.Names rid) : ridRank zeroRID ≤ ridRank rid := by
  obtain ⟨p, -, i, -, rfl⟩ := named
  exact BTreeItem.ridRank_zero_le ⟨Int.natCast_nonneg p, Int.natCast_nonneg i⟩

end TableHeap

variable {heap : TableHeap} {σ : Type}

/-- The executor reads the rows with the given ids one after the other. An id without
a live row ends the rows and leaves an error. -/
structure ReadsAlong (heap : TableHeap) (c : Executor σ) (ahead : σ → List RecordID) (ready : σ → Prop) : Prop where
  done : ∀ e, ready e → ahead e = [] → c.next e = some (false, e) ∧ c.error e = none
  live : ∀ e rid rest tuple, ready e → ahead e = rid :: rest → heap.liveTuple rid = some tuple →
    ∃ later, c.next e = some (true, later) ∧ c.current later = some tuple ∧ c.error later = none ∧ ready later ∧
      ahead later = rest
  gone : ∀ e rid rest, ready e → ahead e = rid :: rest → heap.Names rid → heap.liveTuple rid = none →
    ∃ later err, c.next e = some (false, later) ∧ c.error later = some err

namespace ReadsAlong
variable {c : Executor σ} {ahead : σ → List RecordID} {ready : σ → Prop} {e : σ}

theorem exhausted (reads : ReadsAlong heap c ahead ready) (good : ready e) (nothing : ahead e = []) : c.Exhausted e := by
  obtain ⟨finished, clean⟩ := reads.done e good nothing
  exact .of_invariant (· = e) (fun _ same => ⟨e, same ▸ finished, clean, rfl⟩) rfl

theorem runs_iff (reads : ReadsAlong heap c ahead ready) {rids : List RecordID} (named : ∀ rid ∈ rids, heap.Names rid)
    {rows : List Tuple} (good : ready e) (here : ahead e = rids) :
    c.Runs e rows ↔ rids.mapM heap.liveTuple = some rows := by
  induction rids generalizing e rows with
  | nil =>
    rw [mapM_nil, Option.pure_def, Option.some.injEq]
    constructor
    · intro runs
      cases runs with
      | done => rfl
      | more advanced => simp [(reads.done e good here).1] at advanced
    · rintro rfl
      exact .done (reads.exhausted good here)
  | cons rid rest ih =>
    have others := fun other member => named other (mem_cons_of_mem rid member)
    rw [mapM_cons]
    cases found : heap.liveTuple rid with
    | none =>
      obtain ⟨later, err, finished, failed⟩ := reads.gone e rid rest good here (named rid mem_cons_self) found
      refine iff_of_false (fun runs => ?_) (by simp)
      cases runs with
      | done exhausted =>
        obtain ⟨last, again, clean⟩ := exhausted e .refl
        cases finished.symm.trans again
        simp [failed] at clean
      | more advanced => simp [finished] at advanced
    | some tuple =>
      obtain ⟨later, advanced, at_, clean, good', rest'⟩ := reads.live e rid rest tuple good here found
      simp only [Option.bind_eq_bind, Option.bind_some, Option.pure_def, Option.bind_eq_some_iff, Option.some.injEq]
      constructor
      · intro runs
        cases runs with
        | done exhausted =>
          obtain ⟨last, finished, -⟩ := exhausted e .refl
          simp [advanced] at finished
        | more advanced' at' _ runs =>
          cases advanced.symm.trans advanced'
          cases at_.symm.trans at'
          exact ⟨_, (ih others good' rest').mp runs, rfl⟩
      · rintro ⟨tuples, read, rfl⟩
        exact .more advanced at_ clean ((ih others good' rest').mpr read)

end ReadsAlong

variable {rid : RecordID}

theorem readRow_spec (formed : heap.WellFormed) {buffer : RawTuple} (named : heap.Names rid)
    (size : buffer.length = heap.desc.bytesPerTuple) :
    (∃ row, heap.liveTuple rid = some (.fromRawTuple row heap.desc rid) ∧ readRow heap rid buffer = some (.ok row)) ∨
      heap.liveTuple rid = none ∧ readRow heap rid buffer = some (.error (.heap .errTupleDeleted)) := by
  rcases readTuple_spec named formed size with ⟨row, live, read⟩ | ⟨dead, read⟩
  · exact .inl ⟨row, by simp [liveTuple, live], by simp [readRow, read]⟩
  · refine .inr ⟨?_, by simp [readRow, read]⟩
    rw [eq_none_iff_forall_ne_some]
    intro tuple found
    obtain ⟨row, live, -⟩ := liveTuple_eq_some_iff.mp found
    exact dead row live

theorem names_of_liveTuple {tuple : Tuple} (found : heap.liveTuple rid = some tuple) : heap.Names rid := by
  obtain ⟨row, live, -⟩ := liveTuple_eq_some_iff.mp found
  exact names_of_live live

theorem indexLookupExecutor_reads (formed : heap.WellFormed) (index : Index) (equalityKey : Key) :
    ReadsAlong heap (indexLookupExecutor index heap equalityKey) (fun e => e.rids.drop e.ridIdx)
      (fun e => e.lastErr = none ∧ e.buffer.length = heap.desc.bytesPerTuple) where
  done e good nothing := by
    have past : e.rids[e.ridIdx]? = none := by rw [← head?_drop, nothing]; rfl
    simpa [indexLookupExecutor, past] using good.1
  live e rid rest tuple good here found := by
    have at_ : e.rids[e.ridIdx]? = some rid := by rw [← head?_drop, here]; rfl
    have after : e.rids.drop (e.ridIdx + 1) = rest := by rw [← tail_drop, here]; rfl
    rcases readRow_spec formed (names_of_liveTuple found) good.2 with ⟨row, live, read⟩ | ⟨dead, -⟩
    · cases found.symm.trans live
      refine ⟨⟨e.rids, e.ridIdx + 1, some (.fromRawTuple row heap.desc rid), row, e.lastErr⟩, ?_, rfl, good.1,
        ⟨good.1, (length_readRow read).trans good.2⟩, after⟩
      simp [indexLookupExecutor, at_, read]
    · simp [dead] at found
  gone e rid rest good here named missing := by
    have at_ : e.rids[e.ridIdx]? = some rid := by rw [← head?_drop, here]; rfl
    rcases readRow_spec formed named good.2 with ⟨row, live, -⟩ | ⟨-, read⟩
    · simp [missing] at live
    · exact ⟨_, _, by simp [indexLookupExecutor, at_, read]; rfl, rfl⟩

theorem indexScanExecutor_reads (formed : heap.WellFormed) (index : Index) (startKey : Key) (direction : ScanDirection) :
    ReadsAlong heap (indexScanExecutor index heap startKey direction) (fun e => e.iterator.getD [])
      (fun e => e.iterator.isSome ∧ e.lastErr = none ∧ e.buffer.length = heap.desc.bytesPerTuple) where
  done e good nothing := by
    obtain ⟨opened, clean, -⟩ := good
    obtain ⟨rids, opened⟩ := isSome_iff_exists.mp opened
    simp only [opened, getD_some] at nothing
    simp [indexScanExecutor, opened, nothing, clean]
  live e rid rest tuple good here found := by
    obtain ⟨opened, clean, size⟩ := good
    obtain ⟨rids, opened⟩ := isSome_iff_exists.mp opened
    simp only [opened, getD_some] at here
    rcases readRow_spec formed (names_of_liveTuple found) size with ⟨row, live, read⟩ | ⟨dead, -⟩
    · cases found.symm.trans live
      refine ⟨⟨some rest, some (.fromRawTuple row heap.desc rid), row, e.lastErr⟩, ?_, rfl, clean,
        ⟨rfl, clean, (length_readRow read).trans size⟩, rfl⟩
      simp [indexScanExecutor, opened, here, read]
    · simp [dead] at found
  gone e rid rest good here named missing := by
    obtain ⟨opened, -, size⟩ := good
    obtain ⟨rids, opened⟩ := isSome_iff_exists.mp opened
    simp only [opened, getD_some] at here
    rcases readRow_spec formed named size with ⟨row, live, -⟩ | ⟨-, read⟩
    · simp [missing] at live
    · exact ⟨_, _, by simp [indexScanExecutor, opened, here, read]; rfl, rfl⟩

/-- The executor returns the live rows whose current key and id are wanted, each once
and without an error. -/
def ReturnsCurrent (heap : TableHeap) (metadata : IndexMetadata) (c : Executor σ) (e : σ)
    (wanted : Indexing.Entry → Prop) : Prop :=
  ∃ start rows, c.init e = some (none, start) ∧ c.Runs start rows ∧ (rows.map Tuple.rid).Nodup ∧
    ∀ tuple, tuple ∈ rows ↔ ∃ rid row, heap.contents rid = .live row ∧ wanted (rowKey metadata heap.desc row, rid) ∧
      tuple = .fromRawTuple row heap.desc rid

theorem returnsCurrent_iff {index : Index} (covered : heap.Covered index) {c : Executor σ} {ahead : σ → List RecordID}
    {ready : σ → Prop} (reads : ReadsAlong heap c ahead ready) {e start : σ} {visited : List Indexing.Entry}
    {wanted : Indexing.Entry → Prop} (began : c.init e = some (none, start)) (good : ready start)
    (here : ahead start = visited.map snd) (inside : ∀ entry, entry ∈ visited ↔ entry ∈ index.entries ∧ wanted entry) :
    ReturnsCurrent heap index.metadata c e wanted ↔
      visited.Nodup ∧ ∀ entry ∈ index.entries, wanted entry → heap.Current index.metadata entry := by
  have named : ∀ rid ∈ visited.map snd, heap.Names rid := by
    intro rid member
    obtain ⟨entry, listed, rfl⟩ := mem_map.mp member
    exact covered.named entry ((inside entry).mp listed).1
  have runs := fun rows => @ReadsAlong.runs_iff heap σ c ahead ready start reads _ named rows good here
  have ridsOf : ∀ rows, (visited.map snd).mapM heap.liveTuple = some rows → rows.map Tuple.rid = visited.map snd :=
    fun rows read => map_of_mapM read fun _ _ => rid_of_liveTuple
  constructor
  · rintro ⟨start', rows, began', ran, once, members⟩
    cases began.symm.trans began'
    have read := (runs rows).mp ran
    rw [ridsOf rows read] at once
    refine ⟨once.of_map, fun entry listed asked => ?_⟩
    have visitedEntry := (inside entry).mpr ⟨listed, asked⟩
    obtain ⟨tuple, member, found⟩ := (mem_of_mapM read).1 entry.2 (mem_map_of_mem visitedEntry)
    obtain ⟨rid, row, live, wants, shape⟩ := (members tuple).mp member
    have sameRid : entry.2 = rid := by rw [← rid_of_liveTuple found, shape]; rfl
    -- The row is also listed under its own key, and the executor comes past no id twice.
    have own := (inside _).mpr ⟨covered.covered rid row live, wants⟩
    have equal := inj_on_of_nodup_map once visitedEntry own sameRid
    exact ⟨row, sameRid ▸ live, by rw [equal]⟩
  · rintro ⟨once, current⟩
    have currentOf : ∀ entry ∈ visited, heap.Current index.metadata entry := fun entry member =>
      current entry ((inside entry).mp member).1 ((inside entry).mp member).2
    have defined : ∀ rid ∈ visited.map snd, (heap.liveTuple rid).isSome := by
      intro rid member
      obtain ⟨entry, listed, rfl⟩ := mem_map.mp member
      obtain ⟨row, live, -⟩ := currentOf entry listed
      simp [liveTuple, live]
    have read := mapM_eq_some_iff.mpr ⟨defined, rfl⟩
    refine ⟨start, _, began, (runs _).mpr read, ?_, fun tuple => ?_⟩
    · rw [ridsOf _ read]
      refine once.map_on fun first inFirst second inSecond same => Prod.ext ?_ same
      obtain ⟨row, live, key⟩ := currentOf first inFirst
      obtain ⟨row', live', key'⟩ := currentOf second inSecond
      rw [same, live'] at live
      cases live
      exact key.symm.trans key'
    · rw [mem_filterMap]
      constructor
      · rintro ⟨rid, member, found⟩
        obtain ⟨entry, listed, rfl⟩ := mem_map.mp member
        obtain ⟨row, live, key⟩ := currentOf entry listed
        refine ⟨entry.2, row, live, ?_, ?_⟩
        · rw [key]
          exact ((inside entry).mp listed).2
        · simpa [liveTuple, live, eq_comm] using found
      · rintro ⟨rid, row, live, wants, rfl⟩
        refine ⟨rid, ?_, by simp [liveTuple, live]⟩
        exact mem_map_of_mem ((inside _).mpr ⟨covered.covered rid row live, wants⟩)

theorem newBuffer_length (heap : TableHeap) : (newBuffer heap).length = heap.desc.bytesPerTuple :=
  length_replicate ..

/-- Among entries of which every live row has one, a lookup and a scan return the
current rows exactly when none of the entries that they come past is stale, and no
record is listed twice under the key that is looked up. -/
theorem index_executors_skip_stale_iff {index : Index} (covered : heap.Covered index) :
    (∀ equalityKey, ReturnsCurrent heap index.metadata (indexLookupExecutor index heap equalityKey)
        (newIndexLookupExecutor heap) (fun entry => entry.1 = equalityKey) ↔
      (index.scanKey equalityKey).Nodup ∧
        ∀ entry ∈ index.entries, entry.1 = equalityKey → heap.Current index.metadata entry) ∧
    ∀ tree, index = .btree tree → ∀ startKey direction,
      ReturnsCurrent heap index.metadata (indexScanExecutor index heap startKey direction) (newIndexScanExecutor heap)
          (Reached index.metadata.keySchema index.entries startKey direction) ↔
        ∀ entry ∈ index.entries, Reached index.metadata.keySchema index.entries startKey direction entry →
          heap.Current index.metadata entry := by
  have late : ∀ entry ∈ index.entries, ridRank zeroRID ≤ ridRank entry.2 := fun entry member =>
    late_of_named (covered.named entry member)
  refine ⟨fun equalityKey => ?_, ?_⟩
  · have listed : ∀ rid, rid ∈ index.scanKey equalityKey ↔ (equalityKey, rid) ∈ index.entries := fun rid =>
      mem_scanKey_iff late fun entry member => (covered.encoded entry member).canonical
    have found := @returnsCurrent_iff heap _ index covered _ _ _
      (indexLookupExecutor_reads covered.formed index equalityKey) (newIndexLookupExecutor heap) _
      ((index.scanKey equalityKey).map (mk equalityKey)) (fun entry => entry.1 = equalityKey) rfl
      ⟨rfl, newBuffer_length heap⟩ (by simp [comp_def]) ?_
    · rw [found, nodup_map_iff fun _ _ same => (mk.inj same).2]
    · rintro ⟨key, rid⟩
      simp only [List.mem_map, Prod.mk.injEq, exists_eq_right_right, listed]
      constructor
      · rintro ⟨member, rfl⟩
        exact ⟨member, rfl⟩
      · rintro ⟨member, rfl⟩
        exact ⟨member, rfl⟩
  · rintro tree rfl startKey direction
    have lateItems : ∀ item ∈ tree.tree.items, ridRank zeroRID ≤ ridRank item.rid :=
      fun item member => late (entry item) (mem_map_of_mem member)
    have perm := (scan_perm lateItems startKey direction).map entry
    have visited : (tree.tree.items.filter fun item => Reached tree.metadata.keySchema
        (tree.tree.items.map entry) startKey direction (entry item)).map entry =
        (btree tree).entries.filter (Reached tree.metadata.keySchema (btree tree).entries startKey direction) := by
      rw [entries, List.filter_map]
      rfl
    rw [visited] at perm
    have found := @returnsCurrent_iff heap _ _ covered _ _ _
      (indexScanExecutor_reads covered.formed (.btree tree) startKey direction) (newIndexScanExecutor heap) _
      ((tree.scan (some startKey) direction).map entry)
      (Reached tree.metadata.keySchema (btree tree).entries startKey direction) rfl
      ⟨rfl, rfl, newBuffer_length heap⟩ (by simp [comp_def, entry]) ?_
    · refine found.trans (and_iff_right (perm.nodup_iff.mpr (List.Nodup.filter _ ?_)))
      refine tree.nodup_items.map fun first second same => ?_
      cases first
      cases second
      cases same
      rfl
    · intro entry
      rw [perm.mem_iff, mem_filter, decide_eq_true_iff]

/-- After any statements that store inserted rows with the values they came with, a lookup in
an index returns the live rows with the key. -/
theorem lookup_after_statements {state final : TableState} {steps : List (Taken TableState Statement)}
    (maintained : state.Maintained) (ran : Run TableState.Step state steps final)
    (lands : ∀ taken ∈ steps, taken.before.Lands taken.label) {index : Index} (kept : index ∈ final.indexes)
    (equalityKey : Key) : ReturnsCurrent final.heap index.metadata (indexLookupExecutor index final.heap equalityKey)
      (newIndexLookupExecutor final.heap) fun entry => entry.1 = equalityKey := by
  have last := ran.invariant_when TableState.Lands TableState.Maintained maintained
    (fun _ _ _ before lands step => TableState.maintained_step before step lands) lands
  have mirrors := last.mirrors index kept
  have lists := last.lists index kept
  have current : ∀ entry ∈ index.entries, final.heap.Current index.metadata entry :=
    fun entry listed => (mirrors.entries entry.1 entry.2).mp listed
  have covered : final.heap.Covered index := by
    refine ⟨last.formed, mirrors.suits, mirrors.encoded.2, fun entry listed => ?_, ?_⟩
    · obtain ⟨row, live, -⟩ := current entry listed
      exact names_of_live live
    · exact fun rid row live => (mirrors.entries _ rid).mpr ⟨row, live, rfl⟩
  refine (@returnsCurrent_iff final.heap _ index covered _ _ _
    (indexLookupExecutor_reads last.formed index equalityKey) _ _ ((index.scanKey equalityKey).map (mk equalityKey)) _
    rfl ⟨rfl, newBuffer_length _⟩ (by simp [comp_def]) ?_).mpr ⟨?_, fun entry listed _ => current entry listed⟩
  · rintro ⟨key, rid⟩
    simp only [List.mem_map, Prod.mk.injEq, (lists.found equalityKey).2, lists.entries]
    constructor
    · rintro ⟨_, found, rfl, rfl⟩
      exact ⟨found, rfl⟩
    · rintro ⟨found, rfl⟩
      exact ⟨rid, found, rfl, rfl⟩
  · exact (lists.found equalityKey).1.map fun _ _ same => (mk.inj same).2

section Sample
open TableState

theorem looked_up_in_new_table : raised.heap.contents (raised.heap.ridAt 0 0) = .live (intKey 9) ∧
    raised.indexes.length = 2 ∧ ∀ index ∈ raised.indexes, ReturnsCurrent raised.heap index.metadata
      (indexLookupExecutor index raised.heap (intKey 9)) (newIndexLookupExecutor raised.heap) fun entry => entry.1 = intKey 9 :=
  ⟨by decide +kernel, by decide +kernel, fun _ member =>
    lookup_after_statements (maintained_newTable suits_oneInt) run_raising lands_raising member (intKey 9)⟩

def firstRecord : RecordID := ⟨⟨1, 0⟩, 0⟩

def listedTwice : Index :=
  .hash ⟨.oneInt, ((∅ : GoMap Key (List RecordID)).insert (intKey 42) [firstRecord]).insert (intKey 99) [firstRecord]⟩

theorem covered_listedTwice {heap : TableHeap} (formed : heap.WellFormed) (desc : heap.desc = .oneInt)
    (named : heap.Names firstRecord)
    (covered : ∀ stored ∈ heap.rowsFrom 0 0, (rowKey .oneInt .oneInt stored.2, stored.1) ∈ listedTwice.entries) :
    heap.Covered listedTwice := by
  have entries : ∀ entry ∈ listedTwice.entries, (entry.1 = intKey 42 ∨ entry.1 = intKey 99) ∧ entry.2 = firstRecord := by decide
  refine ⟨formed, desc ▸ suits_oneInt, fun entry member => ?_, fun entry member => ?_, fun rid row live => ?_⟩
  · rcases (entries entry member).1 with same | same
    · exact ⟨[.int 42], by decide, by decide, same.symm⟩
    · exact ⟨[.int 99], by decide, by decide, same.symm⟩
  · rw [(entries entry member).2]
    exact named
  · rw [desc]
    exact covered (rid, row) (mem_rowsFrom.mpr live)

theorem row_found_beside_stale_entry : (ofInts [42]).Covered listedTwice ∧
    (intKey 99, firstRecord) ∈ listedTwice.entries ∧ (ofInts [42]).contents firstRecord = .live (intKey 42) ∧
    ReturnsCurrent (ofInts [42]) .oneInt (indexLookupExecutor listedTwice (ofInts [42]) (intKey 42))
      (newIndexLookupExecutor (ofInts [42])) fun entry => entry.1 = intKey 42 := by
  have covered : (ofInts [42]).Covered listedTwice := covered_listedTwice (ofInts_spec _).1 (ofInts_spec _).2
    (by decide +kernel) (by decide +kernel)
  have live : (ofInts [42]).contents firstRecord = .live (intKey 42) := by decide +kernel
  refine ⟨covered, by decide, live, ((index_executors_skip_stale_iff covered).1 (intKey 42)).mpr ⟨by decide, ?_⟩⟩
  intro entry member asked
  have same : ∀ entry ∈ listedTwice.entries, entry.2 = firstRecord := by decide
  refine ⟨intKey 42, (same entry member) ▸ live, ?_⟩
  rw [asked, (ofInts_spec [42]).2]
  decide

def firstAnswer {σ : Type} (c : Executor σ) (s : σ) : Option (Bool × Option (List Value) × Option ExecError) := do
  let (_, start) ← c.init s
  let (found, later) ← c.next start
  return (found, (c.current later).map (·.values), c.error later)

def emptied : TableHeap := (ofInts [42]).without firstRecord

theorem covered_emptied : emptied.Covered listedTwice := by
  obtain ⟨formed, desc⟩ := ofInts_spec [42]
  obtain ⟨formed, same⟩ := without_spec (by decide +kernel : (ofInts [42]).Names firstRecord) formed
  exact covered_listedTwice formed (same.trans desc) (by decide +kernel) (by decide +kernel)

/-- A row is deleted and its entry stays: the lookup ends with an error. A row has another
number by now and both entries are there: the lookup for the old number returns it. -/
theorem stale_entries_not_skipped : (emptied.Covered listedTwice ∧ emptied.contents firstRecord = .deleted ∧
      firstAnswer (indexLookupExecutor listedTwice emptied (intKey 42)) (newIndexLookupExecutor emptied) =
        some (false, none, some (.heap .errTupleDeleted))) ∧
    (ofInts [99]).Covered listedTwice ∧ (ofInts [99]).contents firstRecord = .live (intKey 99) ∧
      firstAnswer (indexLookupExecutor listedTwice (ofInts [99]) (intKey 42)) (newIndexLookupExecutor (ofInts [99])) =
        some (true, some [.int 99], none) :=
  ⟨⟨covered_emptied, by decide +kernel, by decide +kernel⟩,
    covered_listedTwice (ofInts_spec _).1 (ofInts_spec _).2 (by decide +kernel) (by decide +kernel), by decide +kernel,
    by decide +kernel⟩

end Sample
end GoDB.Execution
