import GoDB.Lib.Run
import GoDB.Proofs.MirroredIndex

/-! Statements that change a table keep its indexes in step with its rows. -/

namespace GoDB.Execution
open Common Lib Storage Indexing Planner List Option Function Value InsertExecutor TableHeap Tuple UpdateExecutor Prod

/-- A run of one of the executors with the rows that its child returns, or a vacuum. -/
inductive Statement where
  | insert (child : List Tuple)
  | update (expressions : List (Option PhysicalExpr)) (child : List Tuple)
  | delete (child : List Tuple)
  | vacuumPage (pageID : PageID)

/-- The rows are rows of the table, as its scans pass them on, and none comes twice. -/
structure TableHeap.Scanned (heap : TableHeap) (child : List Tuple) : Prop where
  rows : ∀ t ∈ child, ∃ row, heap.contents t.rid = .live row ∧ t = .fromRawTuple row heap.desc t.rid
  once : (child.map (·.rid)).Nodup

namespace TableState

def run (state : TableState) : Statement → Option Outcome
  | .insert child => next state child
  | .update expressions child => next expressions state child
  | .delete child => DeleteExecutor.next state child
  | .vacuumPage pageID =>
    (state.heap.vacuumPage pageID).map fun answer => (answer.1.map fun _ => 0, { state with heap := answer.2 })

/-- All values are read back as they were written, and rows to be changed are rows of
the table. -/
def Accepts (state : TableState) : Statement → Prop
  | .insert child => ∀ t ∈ child, ∀ v ∈ t.values, v.stored = v
  | .update expressions child => state.heap.Scanned child ∧
      ∀ t ∈ child, ∀ vals ∈ newValues expressions t, ∀ v ∈ vals, v.stored = v
  | .delete child => state.heap.Scanned child
  | .vacuumPage _ => True

structure Step (before : TableState) (statement : Statement) (after : TableState) : Prop where
  accepts : before.Accepts statement
  succeeds : ∃ count, before.run statement = some (.ok count, after)

/-- What the table stores of an inserted row has the row's values in the columns of
every index. -/
def Lands (state : TableState) : Statement → Prop
  | .insert child => ∀ t ∈ child, ∀ raw ∈ storedForm state.heap t, ∀ index ∈ state.indexes,
      index.metadata.projectionList.mapM t.getValue = index.metadata.projectionList.mapM (state.heap.desc.getValue raw)
  | _ => True

structure Maintained (state : TableState) : Prop where
  formed : state.heap.WellFormed
  mirrors : ∀ index ∈ state.indexes, Mirrors state.heap.contents state.heap.desc index

end TableState

variable {state after : TableState} {count total : Int64} {child : List Tuple} {metadata : IndexMetadata}

variable {heap : TableHeap} {t : Tuple}

theorem length_storedForm {raw : RawTuple} (stored : storedForm heap t = some raw) :
    raw.length = heap.desc.bytesPerTuple := by
  rw [length_writeToBuffer stored, length_replicate]

theorem stored_projected (kept : ∀ v ∈ t.values, v.stored = v) {columns : List Nat} {vals : List Value}
    (read : columns.mapM t.getValue = some vals) : ∀ v ∈ vals, v.stored = v := by
  intro v member
  obtain ⟨i, -, found⟩ := (mem_of_mapM read).2 v member
  rw [getValue_eq] at found
  exact kept v (mem_of_getElem? found)

namespace InsertExecutor
variable {t : Tuple} {rid : RecordID}

theorem insertRow_eq_some_iff {index later : Index} :
    insertRow t rid index = some later ↔ ∃ vals, index.metadata.projectionList.mapM t.getValue = some vals ∧
      vals.map type = index.metadata.keySchema.fields ∧ insertKey (vals.flatMap writeTo) rid index = some later := by
  simp only [insertRow, bind_eq_some, makeKey_eq_some_iff]
  constructor
  · rintro ⟨vals, read, _, ⟨types, rfl⟩, inserted⟩
    exact ⟨vals, read, types, inserted⟩
  · rintro ⟨vals, read, types, inserted⟩
    exact ⟨vals, read, _, ⟨types, rfl⟩, inserted⟩

theorem insertRows_cons (done : insertRows state count (t :: child) = some (.ok total, after)) :
    ∃ raw rid heap indexes, storedForm state.heap t = some raw ∧ state.heap.insertTuple raw = some (.ok rid, heap) ∧
      state.indexes.mapM (insertRow t rid) = some indexes ∧
      insertRows ⟨heap, indexes⟩ (count + 1) child = some (.ok total, after) := by
  simp only [insertRows, bind_eq_some] at done
  obtain ⟨raw, stored, ⟨answer, heap⟩, inserted, done⟩ := done
  cases answer with
  | error => cases done
  | ok rid =>
    obtain ⟨indexes, recorded, done⟩ := bind_eq_some.mp done
    exact ⟨raw, rid, heap, indexes, stored, inserted, recorded, done⟩

variable {heap later : TableHeap} {raw : RawTuple}

theorem inserts_of_insertTuple (formed : heap.WellFormed) (length : raw.length = heap.desc.bytesPerTuple)
    (inserted : heap.insertTuple raw = some (.ok rid, later)) : heap.Inserts later rid raw := by
  rcases insertTuple_spec formed length with ⟨_, _, answer, inserts⟩ | ⟨-, failed⟩
  · cases inserted.symm.trans answer
    exact inserts
  · cases inserted.symm.trans failed

theorem desc_of_inserts (inserts : heap.Inserts later rid raw) : later.desc = heap.desc := by
  rw [inserts.table]

theorem maintained_insertRows (maintained : state.Maintained)
    (lands : ∀ t ∈ child, ∀ raw ∈ storedForm state.heap t, ∀ index ∈ state.indexes,
      index.metadata.projectionList.mapM t.getValue = index.metadata.projectionList.mapM (state.heap.desc.getValue raw))
    (done : insertRows state count child = some (.ok total, after)) : after.Maintained := by
  induction child generalizing state count with
  | nil =>
    cases done
    exact maintained
  | cons t child ih =>
    obtain ⟨raw, rid, heap, indexes, stored, inserted, recorded, done⟩ := insertRows_cons done
    obtain ⟨here, lands⟩ := forall_mem_cons.mp lands
    have inserts := inserts_of_insertTuple maintained.formed (length_storedForm stored) inserted
    have desc := desc_of_inserts inserts
    have moved : ∀ index ∈ state.indexes, ∀ later, insertRow t rid index = some later →
        later.metadata = index.metadata ∧ Mirrors heap.contents heap.desc later := by
      intro index member later recorded
      have mirrors := maintained.mirrors index member
      obtain ⟨vals, read, types, recorded⟩ := insertRow_eq_some_iff.mp recorded
      have same : vals = keyValues index.metadata (state.heap.desc.values raw) := by
        rw [here raw stored index member] at read
        have columns := (mirrors.suits.keyValues_spec (types_values state.heap.desc raw)).1
        rw [← mapM_congr fun i _ => RawTupleDesc.getValue_eq state.heap.desc raw i] at columns
        exact Option.some.inj (read.symm.trans columns)
      have dead : ∀ row, state.heap.contents rid ≠ .live row := by
        rw [inserts.fresh]
        exact fun _ => nofun
      obtain ⟨later', insertion, alike, mirrored⟩ := mirrors.insertKey dead raw 0
      rw [insertKey, same] at recorded
      cases recorded.symm.trans (congrArg (Option.map fst) insertion)
      refine ⟨alike.metadata, ?_⟩
      rw [inserts.contents, desc]
      exact mirrored
    refine ih ⟨inserts.formed, fun later member => ?_⟩ (fun other inside raw' stored' later member => ?_) done
    · obtain ⟨index, old, recorded⟩ := (mem_of_mapM recorded).2 later member
      exact (moved index old later recorded).2
    · obtain ⟨index, old, recorded⟩ := (mem_of_mapM recorded).2 later member
      rw [(moved index old later recorded).1]
      simp only [storedForm, desc] at stored' ⊢
      exact lands other inside raw' stored' index old

/-- Every entry is one of a live row, though not always under the row's key. -/
structure Sane (heap : TableHeap) (index : Index) : Prop where
  encoded : index.Encoded
  live : ∀ entry ∈ index.entries, ∃ row, heap.contents entry.2 = .live row

theorem sane_insertRow {index recorded : Index}
    (sane : Sane heap index) (inserts : heap.Inserts later rid raw) (kept : ∀ v ∈ t.values, v.stored = v)
    (inserted : insertRow t rid index = some recorded) : recorded.metadata = index.metadata ∧ Sane later recorded ∧
      ∃ vals, index.metadata.projectionList.mapM t.getValue = some vals ∧ vals.map type = index.metadata.keySchema.fields ∧
        ∀ entry, entry ∈ recorded.entries ↔ entry = (vals.flatMap writeTo, rid) ∨ entry ∈ index.entries := by
  obtain ⟨vals, read, types, inserted⟩ := insertRow_eq_some_iff.mp inserted
  have unlisted : (vals.flatMap writeTo, rid) ∉ index.entries := by
    intro listed
    obtain ⟨row, live⟩ := sane.live _ listed
    cases inserts.fresh.symm.trans live
  obtain ⟨again, insertion, alike, encoded, mem⟩ :=
    sane.encoded.insertEntry ⟨vals, types, stored_projected kept read, rfl⟩ unlisted 0
  cases inserted.symm.trans (congrArg (Option.map fst) insertion)
  refine ⟨alike.metadata, ⟨encoded, fun entry member => ?_⟩, vals, read, types, mem⟩
  rw [inserts.contents]
  rcases (mem entry).mp member with rfl | old
  · exact ⟨raw, update_self ..⟩
  · by_cases same : entry.2 = rid
    · exact ⟨raw, by rw [same, update_self]⟩
    · rw [update_of_ne same]
      exact sane.live entry old

theorem recorded_insertRows (formed : state.heap.WellFormed)
    (sane : ∀ index ∈ state.indexes, Sane state.heap index) (kept : ∀ t ∈ child, ∀ v ∈ t.values, v.stored = v)
    (done : insertRows state count child = some (.ok total, after)) :
    after.heap.desc = state.heap.desc ∧
      (∀ rid row, state.heap.contents rid = .live row → after.heap.contents rid = .live row) ∧
      ∀ index ∈ state.indexes, ∃ last ∈ after.indexes, last.metadata = index.metadata ∧ index.entries ⊆ last.entries ∧
        ∀ t ∈ child, ∃ raw rid vals, storedForm state.heap t = some raw ∧ after.heap.contents rid = .live raw ∧
          index.metadata.projectionList.mapM t.getValue = some vals ∧
          vals.map type = index.metadata.keySchema.fields ∧ (vals.flatMap writeTo, rid) ∈ last.entries := by
  induction child generalizing state count with
  | nil =>
    cases done
    exact ⟨rfl, fun _ _ live => live, fun index member => ⟨index, member, rfl, fun _ => id, forall_mem_nil _⟩⟩
  | cons t child ih =>
    obtain ⟨raw, rid, heap, indexes, stored, inserted, recorded, done⟩ := insertRows_cons done
    obtain ⟨keptHere, kept⟩ := forall_mem_cons.mp kept
    have inserts := inserts_of_insertTuple formed (length_storedForm stored) inserted
    have desc := desc_of_inserts inserts
    have next : ∀ later ∈ indexes, Sane heap later := by
      intro later member
      obtain ⟨index, old, recorded⟩ := (mem_of_mapM recorded).2 later member
      exact (sane_insertRow (sane index old) inserts keptHere recorded).2.1
    obtain ⟨sameDesc, stays, others⟩ := ih inserts.formed next kept done
    refine ⟨sameDesc.trans desc, fun other row live => stays other row ?_, fun index member => ?_⟩
    · rw [inserts.contents, update_of_ne _]
      · exact live
      · rintro rfl
        cases inserts.fresh.symm.trans live
    · obtain ⟨later, inside, recorded⟩ := (mem_of_mapM recorded).1 index member
      obtain ⟨metadata, -, vals, read, types, mem⟩ := sane_insertRow (sane index member) inserts keptHere recorded
      obtain ⟨last, here, sameMetadata, subset, rows⟩ := others later inside
      rw [metadata] at rows
      refine ⟨last, here, sameMetadata.trans metadata, fun entry old => subset ((mem entry).mpr (.inr old)),
        forall_mem_cons.mpr ⟨⟨raw, rid, vals, stored, stays rid raw ?_, read, types, subset ((mem _).mpr (.inl rfl))⟩, ?_⟩⟩
      · rw [inserts.contents, update_self]
      · simpa only [storedForm, desc] using rows

theorem lands_of_lists (maintained : state.Maintained) (kept : ∀ t ∈ child, ∀ v ∈ t.values, v.stored = v)
    (done : insertRows state count child = some (.ok total, after))
    (lists : ∀ index ∈ after.indexes, after.heap.Lists index) : state.Lands (.insert child) := by
  intro t inside raw stored index member
  have sane : ∀ index ∈ state.indexes, Sane state.heap index := by
    intro index member
    have mirrors := maintained.mirrors index member
    refine ⟨mirrors.encoded, fun entry listed => ?_⟩
    obtain ⟨row, live, -⟩ := (mirrors.entries entry.1 entry.2).mp listed
    exact ⟨row, live⟩
  obtain ⟨desc, -, recorded⟩ := recorded_insertRows maintained.formed sane kept done
  obtain ⟨last, there, metadata, -, rows⟩ := recorded index member
  obtain ⟨_, rid, vals, again, live, read, types, listed⟩ := rows t inside
  cases stored.symm.trans again
  have suits := (maintained.mirrors index member).suits
  obtain ⟨row, live', key⟩ := ((lists last there).entries _ rid).mp listed
  cases live.symm.trans live'
  rw [metadata, desc, suits.keyOf_values, Option.some.injEq] at key
  obtain ⟨columns, types'⟩ := suits.keyValues_spec (types_values state.heap.desc raw)
  have same := writeAll_inj (types'.trans types.symm) (stored_keyValues (stored_values state.heap.desc raw))
    (stored_projected (kept t inside) read) key
  rw [read, ← same, ← columns]
  exact (mapM_congr fun i _ => RawTupleDesc.getValue_eq ..).symm

end InsertExecutor

theorem deepCopy_read {desc : RawTupleDesc}
    (read : ∀ t ∈ child, ∃ row : RawTuple, row.length = desc.bytesPerTuple ∧ t = .fromRawTuple row desc t.rid) :
    child.mapM (·.deepCopy desc) = some child := by
  have copied : (child.map id).mapM (·.deepCopy desc) = some (child.map id) := by
    refine mapM_map_eq_some fun t member => ?_
    obtain ⟨row, length, same⟩ := read t member
    rw [id, same]
    exact deepCopy_fromRawTuple length _
  rwa [List.map_id] at copied

theorem deepCopy_scanned (formed : heap.WellFormed) (scanned : heap.Scanned child) :
    child.mapM (·.deepCopy heap.desc) = some child :=
  deepCopy_read fun t member => by
    obtain ⟨row, live, same⟩ := scanned.rows t member
    exact ⟨row, length_of_live formed live, same⟩

theorem scanned_rest {later : TableHeap} (scanned : heap.Scanned (t :: child)) {entry : Entry}
    (desc : later.desc = heap.desc) (contents : later.contents = Function.update heap.contents t.rid entry) :
    later.Scanned child := by
  obtain ⟨-, rows⟩ := forall_mem_cons.mp scanned.rows
  obtain ⟨apart, once⟩ := nodup_cons.mp scanned.once
  refine ⟨fun other member => ?_, once⟩
  obtain ⟨row, live, same⟩ := rows other member
  refine ⟨row, ?_, desc ▸ same⟩
  rw [contents, update_of_ne _]
  · exact live
  · intro equal
    exact apart (mem_map.mpr ⟨other, member, equal⟩)

theorem deleted_ne_live (row : RawTuple) : Entry.deleted ≠ .live row := nofun

theorem getValue_fromRawTuple (desc : RawTupleDesc) (row : RawTuple) (rid : RecordID) (i : Nat) :
    (fromRawTuple row desc rid).getValue i = (desc.values row)[i]? := by
  simp [getValue_eq, fromRawTuple, values]

theorem read_scanned {desc : RawTupleDesc} (suits : Suits metadata desc) (row : RawTuple) (rid : RecordID) :
    metadata.projectionList.mapM (fromRawTuple row desc rid).getValue = some (keyValues metadata (desc.values row)) := by
  rw [mapM_congr fun i _ => getValue_fromRawTuple desc row rid i]
  exact (suits.keyValues_spec (types_values desc row)).1

namespace UpdateExecutor
variable {expressions : List (Option PhysicalExpr)}

theorem updateRows_cons {t : Tuple}
    (done : updateRows expressions state count (t :: child) = some (.ok total, after)) :
    ∃ vals raw heap indexes, newValues expressions t = some vals ∧ storedForm state.heap (.fromValues vals) = some raw ∧
      state.heap.updateTuple t.rid raw = some (.ok (), heap) ∧ state.indexes.mapM (moveRow t vals) = some indexes ∧
      updateRows expressions ⟨heap, indexes⟩ (count + 1) child = some (.ok total, after) := by
  simp only [updateRows, bind_eq_some] at done
  obtain ⟨vals, computed, raw, stored, ⟨answer, heap⟩, updated, done⟩ := done
  cases answer with
  | error => cases done
  | ok =>
    obtain ⟨indexes, moved, done⟩ := bind_eq_some.mp done
    exact ⟨vals, raw, heap, indexes, computed, stored, updated, moved, done⟩

theorem eq_of_compare {first second : List Value} (types : first.map type = second.map type)
    (same : ((first.zip second).any fun vals => vals.1.compare vals.2 ≠ .eq) = false) : first = second := by
  induction first generalizing second with
  | nil => simpa using types
  | cons v first ih =>
    cases second with
    | nil => simp at types
    | cons w second =>
      simp only [map_cons, cons.injEq] at types
      simp only [zip_cons_cons, any_cons, Bool.or_eq_false_iff, decide_eq_false_iff_not, not_not] at same
      rw [compare_eq_cmp, cmp_eq_eq_iff] at same
      rw [eq_of_rank types.1 same.1, ih types.2 same.2]

theorem mirrors_moveRow {contents : Contents} {desc : RawTupleDesc} {index later : Index}
    (mirrors : Mirrors contents desc index) {row : RawTuple} {rid : RecordID} (live : contents rid = .live row)
    {vals : List Value} (types : vals.map type = desc.fields) (kept : ∀ v ∈ vals, v.stored = v)
    (moved : moveRow (.fromRawTuple row desc rid) vals index = some later) :
    Mirrors (Function.update contents rid (.live (vals.flatMap writeTo))) desc later := by
  have suits := mirrors.suits
  have back : desc.values (vals.flatMap writeTo) = vals := by
    rw [RawTupleDesc.values, ← types, readFields_writeAll, List.map_congr_left kept, List.map_id']
  have newKey : rowKey index.metadata desc (vals.flatMap writeTo) =
      (keyValues index.metadata vals).flatMap writeTo := by rw [rowKey, back]
  obtain ⟨columns, keyTypes⟩ := suits.keyValues_spec types
  have oldTypes := (suits.keyValues_spec (types_values desc row)).2
  simp only [moveRow, read_scanned suits, columns, bind_eq_bind, bind_some] at moved
  split at moved
  · simp only [bind_eq_some_iff, makeKey_eq_some_iff] at moved
    obtain ⟨_, ⟨-, rfl⟩, between, deleted, _, ⟨-, rfl⟩, inserted⟩ := moved
    obtain ⟨_, deletion, alike, gone⟩ := mirrors.deleteKey live deleted_ne_live 0
    cases deleted.symm.trans (congrArg (Option.map fst) deletion)
    have dead : ∀ row, Function.update contents rid .deleted rid ≠ .live row := by
      rw [update_self]
      exact deleted_ne_live
    obtain ⟨_, insertion, -, there⟩ := gone.insertKey dead (vals.flatMap writeTo) 0
    rw [alike.metadata, newKey] at insertion
    cases inserted.symm.trans (congrArg (Option.map fst) insertion)
    rwa [update_idem] at there
  next same =>
    cases moved
    refine mirrors.same_key live ?_
    rw [newKey, rowKey, eq_of_compare (oldTypes.trans keyTypes.symm) (Bool.not_eq_true _ ▸ same)]

theorem maintained_updateRows (maintained : state.Maintained) (scanned : state.heap.Scanned child)
    (kept : ∀ t ∈ child, ∀ vals ∈ newValues expressions t, ∀ v ∈ vals, v.stored = v)
    (done : updateRows expressions state count child = some (.ok total, after)) : after.Maintained := by
  induction child generalizing state count with
  | nil =>
    cases done
    exact maintained
  | cons t child ih =>
    obtain ⟨vals, raw, heap, indexes, computed, stored, updated, moved, done⟩ := updateRows_cons done
    obtain ⟨keptHere, kept⟩ := forall_mem_cons.mp kept
    obtain ⟨row, live, same⟩ := scanned.rows t mem_cons_self
    rcases updateTuple_spec (names_of_live live) maintained.formed (length_storedForm stored) with
      ⟨_, _, -, answer, formed, contents, table, -⟩ | ⟨-, refused⟩
    · cases updated.symm.trans answer
      have desc : heap.desc = state.heap.desc := by rw [table]
      rw [storedForm, fromValues_writeToBuffer vals (length_replicate ..)] at stored
      split at stored
      next types =>
        cases stored
        refine ih ⟨formed, fun later member => ?_⟩ (scanned_rest scanned desc contents) kept done
        obtain ⟨index, old, moved⟩ := (mem_of_mapM moved).2 later member
        rw [same] at moved
        rw [contents, desc]
        exact mirrors_moveRow (maintained.mirrors index old) live types (keptHere vals computed) moved
      next => cases stored
    · cases updated.symm.trans refused

end UpdateExecutor

namespace DeleteExecutor

theorem deleteRows_cons {t : Tuple} (done : deleteRows state count (t :: child) = some (.ok total, after)) :
    ∃ heap indexes, state.indexes.mapM (deleteRow t) = some indexes ∧ state.heap.deleteTuple t.rid = some (.ok (), heap) ∧
      deleteRows ⟨heap, indexes⟩ (count + 1) child = some (.ok total, after) := by
  simp only [deleteRows, bind_eq_some] at done
  obtain ⟨indexes, recorded, ⟨answer, heap⟩, deleted, done⟩ := done
  cases answer with
  | error => cases done
  | ok => exact ⟨heap, indexes, recorded, deleted, done⟩

theorem mirrors_deleteRow {contents : Contents} {desc : RawTupleDesc} {index later : Index}
    (mirrors : Mirrors contents desc index) {row : RawTuple} {rid : RecordID} (live : contents rid = .live row)
    (deleted : deleteRow (.fromRawTuple row desc rid) index = some later) :
    Mirrors (Function.update contents rid .deleted) desc later := by
  simp only [deleteRow, read_scanned mirrors.suits, bind_eq_bind, bind_some, bind_eq_some_iff,
    makeKey_eq_some_iff] at deleted
  obtain ⟨_, ⟨-, rfl⟩, deleted⟩ := deleted
  obtain ⟨_, deletion, -, gone⟩ := mirrors.deleteKey live deleted_ne_live 0
  cases deleted.symm.trans (congrArg (Option.map fst) deletion)
  exact gone

theorem maintained_deleteRows (maintained : state.Maintained) (scanned : state.heap.Scanned child)
    (done : deleteRows state count child = some (.ok total, after)) : after.Maintained := by
  induction child generalizing state count with
  | nil =>
    cases done
    exact maintained
  | cons t child ih =>
    obtain ⟨heap, indexes, recorded, deleted, done⟩ := deleteRows_cons done
    obtain ⟨row, live, same⟩ := scanned.rows t mem_cons_self
    rcases deleteTuple_spec (names_of_live live) maintained.formed with
      ⟨_, _, -, answer, formed, contents, table, -⟩ | ⟨-, refused⟩
    · cases deleted.symm.trans answer
      have desc : heap.desc = state.heap.desc := by rw [table]
      refine ih ⟨formed, fun later member => ?_⟩ (scanned_rest scanned desc contents) done
      obtain ⟨index, old, recorded⟩ := (mem_of_mapM recorded).2 later member
      rw [same] at recorded
      rw [contents, desc]
      exact mirrors_deleteRow (maintained.mirrors index old) live recorded
    · cases deleted.symm.trans refused

end DeleteExecutor

namespace TableState

section
variable (maintained : state.Maintained)

include maintained

theorem maintained_vacuumPage {pageID : PageID}
    (done : state.run (.vacuumPage pageID) = some (.ok total, after)) : after.Maintained := by
  obtain ⟨⟨answer, heap⟩, vacuumed, same⟩ := Option.map_eq_some_iff.mp done
  rcases vacuumPage_spec maintained.formed pageID with
    ⟨_, answered, formed, contents, table, -⟩ | refused
  · cases vacuumed.symm.trans answered
    cases same
    have desc : heap.desc = state.heap.desc := by rw [table]
    refine ⟨formed, fun index member => ?_⟩
    rw [contents, desc]
    refine (maintained.mirrors index member).congr fun rid row => ?_
    unfold TableHeap.vacuumed
    split
    · cases state.heap.contents rid <;> simp [Entry.vacuumed]
    · exact Iff.rfl
  · cases vacuumed.symm.trans refused
    cases same

theorem maintained_step {statement : Statement} (step : Step state statement after)
    (lands : state.Lands statement) : after.Maintained := by
  obtain ⟨accepts, total, done⟩ := step
  cases statement with
  | insert child => exact maintained_insertRows maintained lands done
  | update expressions child =>
    rw [run, UpdateExecutor.next, deepCopy_scanned maintained.formed accepts.1] at done
    exact maintained_updateRows maintained accepts.1 accepts.2 done
  | delete child =>
    rw [run, DeleteExecutor.next, deepCopy_scanned maintained.formed accepts] at done
    exact DeleteExecutor.maintained_deleteRows maintained accepts done
  | vacuumPage pageID => exact maintained_vacuumPage maintained done

theorem Maintained.lists : ∀ index ∈ state.indexes, state.heap.Lists index := by
  intro index member
  have mirrors := maintained.mirrors index member
  exact (lists_iff mirrors.suits mirrors.formed).mpr mirrors

/-- Along a run of statements the indexes list exactly the live rows after each of
them, exactly when every inserted row was stored with the values that it came with. -/
theorem lists_iff_lands {steps : List (Taken TableState Statement)} {final : TableState} (ran : Run Step state steps final) :
    (∀ taken ∈ steps, ∀ index ∈ taken.after.indexes, taken.after.heap.Lists index) ↔
      ∀ taken ∈ steps, taken.before.Lands taken.label := by
  apply ran.reached_iff Lands Maintained fun state => ∀ index ∈ state.indexes, state.heap.Lists index
  · exact maintained
  · intro state statement final maintained lands step
    exact maintained_step maintained step lands
  · intro state statement final maintained step
    refine ⟨fun lists => ?_, fun lands => (maintained_step maintained step lands).lists⟩
    obtain ⟨accepts, total, done⟩ := step
    cases statement with
    | insert child => exact lands_of_lists maintained accepts done lists
    | update | delete | vacuumPage => trivial

end

theorem lands_of_types (types : ∀ t ∈ child, t.values.map type = state.heap.desc.fields)
    (sized : ∀ t ∈ child, ∀ stored ∈ t.raw, stored.2.length = stored.1.bytesPerTuple)
    (kept : ∀ t ∈ child, ∀ v ∈ t.extraValues, v.stored = v) : state.Lands (.insert child) := by
  intro t member raw stored index _
  obtain ⟨out, written, values⟩ := values_writeToBuffer ⟨types t member, sized t member⟩
    (@length_replicate _ state.heap.desc.bytesPerTuple (0 : Byte))
  rw [stored_of_raw (kept t member)] at values
  cases stored.symm.trans written
  exact mapM_congr fun i _ => by rw [getValue_eq, RawTupleDesc.getValue_eq, values]

section Sample

@[irreducible]
def leaves (state : TableState) (statement : Statement) : TableState :=
  ((state.run statement).map Prod.snd).getD state

theorem step_leaves {statement : Statement} (accepts : state.Accepts statement)
    (done : ((state.run statement).bind (·.1.toOption)).isSome = true) : Step state statement (state.leaves statement) := by
  refine ⟨accepts, ?_⟩
  unfold leaves
  cases ran : state.run statement with
  | none => simp [ran] at done
  | some outcome =>
    obtain ⟨_ | count, later⟩ := outcome
    · simp [ran, Except.toOption] at done
    · exact ⟨count, rfl⟩

def newTable (desc : RawTupleDesc) (metadata : IndexMetadata) : TableState :=
  ⟨.newTableHeap 1 desc, [.hash (newMemHashIndex metadata), .btree (newMemBTreeIndex metadata)]⟩

theorem maintained_newTable {desc : RawTupleDesc} (suits : Suits metadata desc) : (newTable desc metadata).Maintained := by
  have dead : ∀ rid row, (newTable desc metadata).heap.contents rid ≠ .live row := by
    intro rid row live
    obtain ⟨p, bound, -⟩ := names_of_live live
    cases bound
  obtain ⟨hash, tree⟩ := mirrors_new suits
  have same : ∀ rid row, (newTable desc metadata).heap.contents rid = .live row ↔ noRows rid = .live row :=
    fun rid row => iff_of_false (dead rid row) (noRows_ne_live rid row)
  exact ⟨forall_mem_nil _, forall_mem_cons.mpr ⟨hash.congr same, forall_mem_singleton.mpr (tree.congr same)⟩⟩

/-- `INSERT INTO t VALUES (7), (8)`. -/
def insertBoth : Statement := .insert [.fromValues [.int 7], .fromValues [.int 8]]

/-- `UPDATE t SET a = 9 WHERE a = 7`. -/
def raiseFirst (heap : TableHeap) : Statement :=
  .update [some (.constant (.int 9))] [.fromRawTuple (int 7).writeTo heap.desc (heap.ridAt 0 0)]

def withBoth : TableState := (newTable .oneInt .oneInt).leaves insertBoth

def raised : TableState := withBoth.leaves (raiseFirst withBoth.heap)

theorem suits_oneInt : Suits .oneInt RawTupleDesc.oneInt := by
  unfold Suits
  decide

def raising : List (Taken TableState Statement) :=
  [⟨newTable .oneInt .oneInt, insertBoth, withBoth⟩, ⟨withBoth, raiseFirst withBoth.heap, raised⟩]

theorem run_raising : Run Step (newTable .oneInt .oneInt) raising raised := by
  refine .snoc (.snoc .nil (step_leaves ?_ ?_)) (step_leaves ⟨⟨?_, nodup_singleton _⟩, ?_⟩ ?_)
  · unfold Accepts insertBoth
    decide
  · decide +kernel
  · refine forall_mem_singleton.mpr ⟨(int 7).writeTo, ?_, rfl⟩
    decide +kernel
  · refine forall_mem_singleton.mpr ?_
    decide +kernel
  · decide +kernel

theorem lands_raising : ∀ taken ∈ raising, taken.before.Lands taken.label :=
  forall_mem_cons.mpr ⟨lands_of_types (by decide) (by simp [fromValues]) (by decide), forall_mem_singleton.mpr trivial⟩

theorem maintained_raised : raised.Maintained :=
  run_raising.invariant_when Lands Maintained (maintained_newTable suits_oneInt)
    (fun _ _ _ before lands step => maintained_step before step lands) lands_raising

theorem inserted_row_listed : raised.heap.contents (raised.heap.ridAt 0 0) = .live (int 9).writeTo ∧
    raised.indexes.length = 2 ∧ ∀ state ∈ [withBoth, raised], ∀ index ∈ state.indexes, state.heap.Lists index := by
  have listed := (lists_iff_lands (maintained_newTable suits_oneInt) run_raising).mpr lands_raising
  exact ⟨by decide +kernel, by decide +kernel, by simpa [raising] using listed⟩

/-- `t(a string, b int)`. -/
def wideColumn : RawTupleDesc := ⟨[.string, .int], by decide⟩

def narrowRow : Tuple :=
  .fromRawTuple ((int 1).writeTo ++ (int 5).writeTo) .twoInts ⟨⟨2, 0⟩, 0⟩

def narrowBytes : RawTuple := (int 1).writeTo ++ (int 5).writeTo ++ replicate 24 0

def mislaid : TableState := (newTable wideColumn ⟨.oneInt, [1]⟩).leaves (.insert [narrowRow])

/-- The bytes of a row of two integers are copied into a table whose first column is a
string: the table reads 0 in the column that both indexes list under 5. -/
theorem copied_row_mislaid : Step (newTable wideColumn ⟨.oneInt, [1]⟩) (.insert [narrowRow]) mislaid ∧
    narrowRow.getValue 1 = some (.int 5) ∧ mislaid.heap.contents (mislaid.heap.ridAt 0 0) = .live narrowBytes ∧
    mislaid.heap.desc.getValue narrowBytes 1 = some (.int 0) ∧ mislaid.indexes.length = 2 ∧
    ∀ index ∈ mislaid.indexes, index.scanKey (int 5).writeTo = [mislaid.heap.ridAt 0 0] ∧ ¬ mislaid.heap.Lists index := by
  have live : mislaid.heap.contents (mislaid.heap.ridAt 0 0) = .live narrowBytes := by decide +kernel
  have listed : ∀ index ∈ mislaid.indexes, index.scanKey (int 5).writeTo = [mislaid.heap.ridAt 0 0] ∧
      index.metadata.keyOf (mislaid.heap.desc.values narrowBytes) ≠ some (int 5).writeTo := by
    decide +kernel
  refine ⟨step_leaves (by unfold Accepts; decide) (by decide +kernel), by decide, live, by decide +kernel, by decide +kernel,
    fun index member => ⟨(listed index member).1, fun lists => ?_⟩⟩
  obtain ⟨found, apart⟩ := listed index member
  obtain ⟨row, live', key⟩ := ((lists.found _).2 _).mp (found ▸ mem_cons_self)
  cases live.symm.trans live'
  exact apart key

end Sample
end TableState
end GoDB.Execution
