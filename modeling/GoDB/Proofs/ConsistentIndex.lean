import GoDB.Proofs.IndexKeys

/-! Reading a table through an index that lists exactly its rows. -/

namespace GoDB.Execution
open Common Lib Storage Indexing Planner List

/-- The index belongs to the catalog entry and lists every row of the table under
the row's key, and nothing else. -/
structure Consistent (catalogTable : Catalog.Table) (idx : Catalog.Index) (table : StoredTable) (index : Index) : Prop where
  columns : table.desc.fields = tableSchemaToTypes catalogTable
  metadata : indexMetadata catalogTable idx = some index.metadata
  formed : index.WellFormed
  entries : ∀ key rid, (key, rid) ∈ index.entries ↔
    ∃ raw, (rid, raw) ∈ table.rows ∧ index.metadata.keyOf (table.rowOf (rid, raw)) = some key

def rowEntry (metadata : IndexMetadata) (table : StoredTable) (stored : RecordID × RawTuple) : Indexing.Entry :=
  ((keyValues metadata (table.rowOf stored)).flatMap Value.writeTo, stored.1)

variable {catalogTable : Catalog.Table} {idx : Catalog.Index} {table : StoredTable} {index : Index}

theorem StoredTable.readTuple_stored (table : StoredTable) {stored : RecordID × RawTuple} (member : stored ∈ table.rows) :
    table.readTuple stored.1 = some (table.rowOf stored) := by
  have present : (table.rows.find? (·.1 = stored.1)).isSome = true :=
    find?_isSome.mpr ⟨stored, member, decide_eq_true rfl⟩
  obtain ⟨found, first⟩ := Option.isSome_iff_exists.mp present
  have ids := find?_some first
  rw [decide_eq_true_iff] at ids
  have same := inj_on_of_nodup_map table.distinct (mem_of_find?_eq_some first) member ids
  rw [readTuple, first, same]
  rfl

theorem consistent_of_perm (columns : table.desc.fields = tableSchemaToTypes catalogTable)
    (metadata : indexMetadata catalogTable idx = some index.metadata) (formed : index.WellFormed)
    (perm : index.entries.Perm (table.rows.filterMap fun stored =>
      (index.metadata.keyOf (table.rowOf stored)).map fun key => (key, stored.1))) :
    Consistent catalogTable idx table index := by
  refine ⟨columns, metadata, formed, fun key rid => ?_⟩
  rw [perm.mem_iff, mem_filterMap]
  constructor
  · intro ⟨stored, member, listed⟩
    obtain ⟨key', projected, same⟩ := Option.map_eq_some_iff.mp listed
    cases same
    exact ⟨stored.2, member, projected⟩
  · intro ⟨raw, member, projected⟩
    exact ⟨(rid, raw), member, by rw [projected]; rfl⟩

namespace Consistent

section
variable (agrees : Consistent catalogTable idx table index)

include agrees

theorem suits : Suits index.metadata table.desc :=
  suits_of_indexMetadata agrees.columns agrees.metadata

theorem keyValues_spec (stored : RecordID × RawTuple) : index.metadata.keyOf (table.rowOf stored) =
      some ((keyValues index.metadata (table.rowOf stored)).flatMap Value.writeTo) ∧
    (keyValues index.metadata (table.rowOf stored)).map Value.type = index.metadata.keySchema.fields ∧
    (keyValues index.metadata (table.rowOf stored)).map Value.stored = keyValues index.metadata (table.rowOf stored) := by
  have types : (table.rowOf stored).map Value.type = table.desc.fields := types_values ..
  refine ⟨agrees.suits.keyOf_eq types, (agrees.suits.keyValues_spec types).2, ?_⟩
  rw [map_congr_left (g := id), map_id]
  exact stored_keyValues (stored_values table.desc stored.2)

theorem values_key (stored : RecordID × RawTuple) :
    index.metadata.keySchema.values (rowEntry index.metadata table stored).1 =
      keyValues index.metadata (table.rowOf stored) := by
  obtain ⟨-, types, unchanged⟩ := agrees.keyValues_spec stored
  rw [RawTupleDesc.values, ← types, rowEntry, readFields_writeAll, unchanged]

theorem mem_entries (entry : Indexing.Entry) :
    entry ∈ index.entries ↔ ∃ stored ∈ table.rows, rowEntry index.metadata table stored = entry := by
  rw [agrees.entries entry.1 entry.2]
  constructor
  · rintro ⟨raw, member, key⟩
    rw [(agrees.keyValues_spec _).1, Option.some.injEq] at key
    exact ⟨(entry.2, raw), member, Prod.ext key rfl⟩
  · rintro ⟨stored, member, rfl⟩
    exact ⟨stored.2, member, (agrees.keyValues_spec stored).1⟩

theorem entries_perm : index.entries.Perm (table.rows.map (rowEntry index.metadata table)) := by
  have once : (table.rows.map (rowEntry index.metadata table)).Nodup := by
    apply List.Nodup.of_map Prod.snd
    rw [map_map]
    exact table.distinct
  apply (perm_ext_iff_of_nodup (Index.nodup_entries agrees.formed) once).mpr
  intro entry
  rw [agrees.mem_entries, mem_map]

theorem late : ∀ entry ∈ index.entries, ridRank zeroRID ≤ ridRank entry.2 := by
  intro entry member
  obtain ⟨stored, inside, rfl⟩ := (agrees.mem_entries entry).mp member
  exact BTreeItem.ridRank_zero_le (table.proper stored.1 (mem_map_of_mem inside))

theorem canonical : ∀ entry ∈ index.entries, entry.1.Canonical index.metadata.keySchema := by
  intro entry member
  obtain ⟨stored, -, rfl⟩ := (agrees.mem_entries entry).mp member
  rw [Key.Canonical, agrees.values_key]
  rfl

theorem scanKey_perm (key : Key) : (index.scanKey key).Perm ((index.entries.filter (·.1 = key)).map Prod.snd) := by
  have nodup := Index.nodup_entries agrees.formed
  cases index with
  | hash index =>
    apply (perm_ext_iff_of_nodup (agrees.formed.distinct index rfl key) _).mpr
    · intro rid
      have listed : rid ∈ index.bucket key ↔ (key, rid) ∈ index.entries := (index.mem_entries key rid).symm
      simp [listed, Index.entries]
    · apply (nodup.filter _).map_on
      intro first inFirst second inSecond same
      have keys := (of_decide_eq_true (mem_filter.mp inFirst).2).trans (of_decide_eq_true (mem_filter.mp inSecond).2).symm
      exact Prod.ext keys same
  | btree index =>
    have late := forall_mem_map.mp agrees.late
    have canonical := forall_mem_map.mp agrees.canonical
    rw [Index.scanKey, MemBTreeIndex.scanKey_eq late canonical, Index.entries, filter_map, map_map]
    rfl

theorem scan_perm (tree : index.isHash = false) (start : Key)
    (direction : ScanDirection) : ∃ rids, index.scan (some start) direction = some rids ∧
      rids.Perm ((index.entries.filter fun entry =>
        Reached index.metadata.keySchema index.entries start direction entry).map Prod.snd) := by
  cases index with
  | hash => cases tree
  | btree index =>
    have late := forall_mem_map.mp agrees.late
    refine ⟨_, rfl, ((MemBTreeIndex.scan_perm late start direction).map (·.rid)).trans ?_⟩
    rw [Index.entries, filter_map, map_map]
    rfl

theorem read_rows {rids : List RecordID} {listed : Indexing.Entry → Prop} [DecidablePred listed]
    (perm : rids.Perm ((index.entries.filter (listed ·)).map Prod.snd)) :
    ∃ rows, rids.mapM table.readTuple = some rows ∧ rows.Perm ((table.rows.filter fun stored =>
      listed (rowEntry index.metadata table stored)).map table.rowOf) := by
  have same := (agrees.entries_perm.filter (listed ·)).map Prod.snd
  rw [filter_map, map_map] at same
  refine mapM_perm (perm.trans same).symm (mapM_map_eq_some fun stored member => ?_)
  exact table.readTuple_stored (mem_filter.mp member).1

end

end Consistent
end GoDB.Execution
