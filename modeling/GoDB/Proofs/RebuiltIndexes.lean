import GoDB.Proofs.MaintainedIndexes

/-! Rebuilding the indexes of a catalog lists every live row in each of them. -/

namespace GoDB.Recovery
open Common Lib Storage Indexing Execution Planner List Function Prod Option TableHeap Value

variable {desc : RawTupleDesc} {contents : Contents} {im : RuntimeIndexes} {active : List (ObjectID × List Byte)}

def Tracks (contents : Contents) (desc : RawTupleDesc) (im : RuntimeIndexes) (active : List (ObjectID × List Byte)) : Prop :=
  ∀ entry ∈ active, ∃ index, im entry.1 = some index ∧ entry.2.length = index.metadata.keySize ∧ Mirrors contents desc index

structure Spares (im later : RuntimeIndexes) (oids : List ObjectID) : Prop where
  others : ∀ oid ∉ oids, later oid = im oid
  alike : ∀ oid index, im oid = some index → ∃ changed, later oid = some changed ∧ Index.Alike index changed

namespace Spares
variable {first second third : RuntimeIndexes} {oids more : List ObjectID}

theorem refl (im : RuntimeIndexes) (oids : List ObjectID) : Spares im im oids :=
  ⟨fun _ _ => rfl, fun _ index found => ⟨index, found, rfl, rfl⟩⟩

theorem trans (before : Spares first second oids) (after : Spares second third more) : Spares first third (oids ++ more) where
  others := fun oid outside => by
    rw [mem_append, not_or] at outside
    rw [after.others oid outside.2, before.others oid outside.1]
  alike := fun oid index found => by
    obtain ⟨middle, here, alike⟩ := before.alike oid index found
    obtain ⟨last, there, alike'⟩ := after.alike oid middle here
    exact ⟨last, there, alike'.metadata.trans alike.metadata, alike'.kind.trans alike.kind⟩

theorem mono (spares : Spares first second oids) (subset : oids ⊆ more) : Spares first second more :=
  ⟨fun oid outside => spares.others oid fun inside => outside (subset inside), spares.alike⟩

theorem update {im : RuntimeIndexes} {oid : ObjectID} {index later : Index} (found : im oid = some index)
    (alike : Index.Alike index later) : Spares im (update im oid (some later)) [oid] where
  others := fun other outside => update_of_ne (ne_of_not_mem_cons outside) ..
  alike := fun other index' found' => by
    by_cases same : other = oid
    · subst same
      cases found.symm.trans found'
      exact ⟨later, update_self .., alike⟩
    · exact ⟨index', (update_of_ne same ..).trans found', rfl, rfl⟩

end Spares

theorem ne_of_unlisted {α β : Type} {entries : List (α × β)} {key : α} (apart : key ∉ entries.map fst)
    {entry : α × β} (member : entry ∈ entries) : entry.1 ≠ key := by
  rintro rfl
  exact apart (mem_map_of_mem member)

theorem Tracks.update (tracks : Tracks contents desc im active) {oid : ObjectID} (apart : oid ∉ active.map fst)
    (index : Option Index) : Tracks contents desc (update im oid index) active := by
  intro entry member
  rw [update_of_ne (ne_of_unlisted apart member)]
  exact tracks entry member

theorem insertKeys_spec (tracks : Tracks contents desc im active) (distinct : (active.map fst).Nodup)
    {rid : RecordID} (dead : ∀ row, contents rid ≠ .live row) (row : RawTuple) :
    ∃ active' im', insertKeys desc rid row im active = some (active', im') ∧ active'.map fst = active.map fst ∧
      Tracks (update contents rid (.live row)) desc im' active' ∧ Spares im im' (active.map fst) := by
  induction active generalizing im with
  | nil => exact ⟨[], im, rfl, rfl, forall_mem_nil _, .refl im []⟩
  | cons entry rest ih =>
    obtain ⟨oid, buffer⟩ := entry
    obtain ⟨⟨index, found, size, mirrors⟩, others⟩ := forall_mem_cons.mp tracks
    obtain ⟨apart, distinct⟩ := nodup_cons.mp distinct
    obtain ⟨later, insertion, alike, mirrored⟩ := mirrors.insertKey dead row oid
    have encodes := mirrors.suits.rowKey_encodes row
    obtain ⟨rest', im', inserted, oids, tracked, spared⟩ :=
      ih (Tracks.update others apart (some later)) distinct
    have whole : index.metadata.asKey (rowKey index.metadata desc row) = rowKey index.metadata desc row :=
      take_of_length_le encodes.length_eq.le
    refine ⟨(oid, rowKey index.metadata desc row) :: rest', im', ?_, by simp [oids], ?_, ?_⟩
    · simp only [insertKeys, found, fillKey_eq mirrors.suits row size, whole, insertion, inserted, bind_eq_bind,
        bind_some]
      rfl
    · refine forall_mem_cons.mpr ⟨⟨later, ?_, ?_, mirrored⟩, tracked⟩
      · rw [spared.others oid apart, update_self]
      · rw [alike.metadata]
        exact encodes.length_eq
    · exact (Spares.update found alike).trans spared

def gathered (contents : Contents) (rows : List (RecordID × RawTuple)) : Contents :=
  rows.foldl (fun contents entry => update contents entry.1 (.live entry.2)) contents

variable {rows : List (RecordID × RawTuple)}

theorem gathered_live (distinct : (rows.map fst).Nodup)
    (dead : ∀ entry ∈ rows, ∀ row, contents entry.1 ≠ .live row) (rid : RecordID) (row : RawTuple) :
    gathered contents rows rid = .live row ↔ (rid, row) ∈ rows ∨ contents rid = .live row := by
  induction rows generalizing contents with
  | nil => simp [gathered]
  | cons entry rows ih =>
    obtain ⟨apart, distinct⟩ := nodup_cons.mp distinct
    obtain ⟨fresh, dead⟩ := forall_mem_cons.mp dead
    have still : ∀ other ∈ rows, ∀ row, update contents entry.1 (.live entry.2) other.1 ≠ .live row := by
      intro other member row
      rw [update_of_ne (ne_of_unlisted apart member)]
      exact dead other member row
    have step := ih distinct still
    rw [gathered, foldl_cons, ← gathered, step, mem_cons]
    by_cases same : rid = entry.1
    · subst same
      rw [update_self]
      constructor
      · rintro (later | here)
        · exact .inl (.inr later)
        · cases here
          exact .inl (.inl rfl)
      · rintro ((here | later) | old)
        · exact .inr (congrArg Execution.Entry.live (congrArg snd here).symm)
        · exact .inl later
        · exact absurd old (fresh row)
    · rw [update_of_ne same]
      have apart : (rid, row) ≠ entry := fun equal => same (congrArg fst equal)
      simp [apart]

variable {it after : TableHeapIterator}

theorem rebuildRows_yield {row : RawTuple} (advanced : it.next = some (true, after))
    (current : after.currentTuple = some row) : rebuildRows desc it active im =
      (insertKeys desc after.currentRID row im active).bind fun result => rebuildRows desc after result.1 result.2 := by
  rw [rebuildRows]
  split
  next missing => cases advanced.symm.trans missing
  next finished => cases advanced.symm.trans finished
  next same =>
    cases advanced.symm.trans same
    simp [current]

theorem rebuildRows_done (finished : it.next = some (false, after))
    (clean : after.err = none) : rebuildRows desc it active im = some im := by
  rw [rebuildRows]
  split
  next missing => cases finished.symm.trans missing
  next same =>
    cases finished.symm.trans same
    exact if_pos clean
  next advanced => cases finished.symm.trans advanced

theorem rebuildRows_spec (pass : it.Pass rows)
    (tracks : Tracks contents desc im active) (oids : (active.map fst).Nodup) (distinct : (rows.map fst).Nodup)
    (dead : ∀ entry ∈ rows, ∀ row, contents entry.1 ≠ .live row) :
    ∃ active' im', rebuildRows desc it active im = some im' ∧ active'.map fst = active.map fst ∧
      Tracks (gathered contents rows) desc im' active' ∧ Spares im im' (active.map fst) := by
  induction pass generalizing contents im active with
  | done finished clean => exact ⟨active, im, rebuildRows_done finished clean, rfl, tracks, .refl im _⟩
  | @yield it after row rest advanced current more ih =>
    obtain ⟨apart, distinct⟩ := nodup_cons.mp distinct
    obtain ⟨fresh, dead⟩ := forall_mem_cons.mp dead
    obtain ⟨active₁, im₁, inserted, same, tracked, spared⟩ := insertKeys_spec tracks oids fresh row
    have still : ∀ other ∈ rest, ∀ row', update contents after.currentRID (.live row) other.1 ≠ .live row' := by
      intro other member row'
      rw [update_of_ne (ne_of_unlisted apart member)]
      exact dead other member row'
    obtain ⟨active₂, im₂, rebuilt, same', tracked', spared'⟩ := ih tracked (same ▸ oids) distinct still
    refine ⟨active₂, im₂, ?_, same'.trans same, tracked', (spared.trans spared').mono ?_⟩
    · rw [rebuildRows_yield advanced current, inserted]
      exact rebuilt
    · rw [same]
      exact append_subset.mpr ⟨List.Subset.refl _, List.Subset.refl _⟩

def indexOids (c : Catalog) : List ObjectID := c.flatMap fun table => table.indexes.map (·.oid)

variable {indexes : List Catalog.Index}

theorem exists_active (opened : ∀ i ∈ indexes, ∃ index, im i.oid = some index ∧ Mirrors contents desc index) :
    ∃ active, (indexes.mapM fun i => do
        let indexObject ← im i.oid
        return (i.oid, replicate indexObject.metadata.keySize (0 : Byte))) = some active ∧
      active.map fst = indexes.map (·.oid) ∧ Tracks contents desc im active := by
  induction indexes with
  | nil => exact ⟨[], rfl, rfl, forall_mem_nil _⟩
  | cons i rest ih =>
    obtain ⟨⟨index, found, mirrors⟩, others⟩ := forall_mem_cons.mp opened
    obtain ⟨active, made, oids, tracks⟩ := ih others
    refine ⟨(i.oid, replicate index.metadata.keySize 0) :: active, ?_, by simp [oids],
      forall_mem_cons.mpr ⟨⟨index, found, by simp, mirrors⟩, tracks⟩⟩
    rw [mapM_cons, found, made]
    rfl

variable {heap : TableHeap}

theorem gathered_pass (distinct : (rows.map fst).Nodup)
    (live : ∀ rid row, (rid, row) ∈ rows ↔ heap.contents rid = .live row) (rid : RecordID) (row : RawTuple) :
    heap.contents rid = .live row ↔ gathered noRows rows rid = .live row := by
  rw [gathered_live distinct (fun entry _ => noRows_ne_live entry.1), live]
  exact (or_iff_left (noRows_ne_live rid row)).symm

variable {tables : ObjectID → Option TableHeap}

theorem rebuildTable_spec {tableDef : Catalog.Table}
    (opened : tables tableDef.oid = some heap) (formed : heap.WellFormed) (oids : (tableDef.indexes.map (·.oid)).Nodup)
    (empty : ∀ i ∈ tableDef.indexes, ∃ index, im i.oid = some index ∧ Mirrors noRows heap.desc index) :
    ∃ im', rebuildTable tables im tableDef = some im' ∧ Spares im im' (tableDef.indexes.map (·.oid)) ∧
      ∀ i ∈ tableDef.indexes, ∃ index, im' i.oid = some index ∧ Mirrors heap.contents heap.desc index := by
  by_cases without : tableDef.indexes.isEmpty = true
  · refine ⟨im, if_pos without, .refl im _, ?_⟩
    rw [isEmpty_iff.mp without]
    exact forall_mem_nil _
  · obtain ⟨rows, pass, ordered, live⟩ := iterator_pass formed
    have distinct := nodup_of_ordered ordered
    obtain ⟨active, made, named, tracks⟩ := exists_active empty
    obtain ⟨active', im', rebuilt, renamed, tracked, spared⟩ :=
      rebuildRows_spec pass tracks (named ▸ oids) distinct fun entry _ => noRows_ne_live entry.1
    refine ⟨im', ?_, named ▸ spared, fun i member => ?_⟩
    · rw [rebuildTable, if_neg without, opened, bind_eq_bind, bind_some, made]
      exact rebuilt
    · have listed : i.oid ∈ active'.map fst := by
        rw [renamed, named]
        exact mem_map_of_mem member
      obtain ⟨entry, inside, same⟩ := mem_map.mp listed
      obtain ⟨index, found, -, mirrors⟩ := tracked entry inside
      exact ⟨index, same ▸ found, mirrors.congr (gathered_pass distinct live)⟩

variable {table : Catalog.Table} {im' : RuntimeIndexes}

theorem newIndexes_spec
    (created : indexes.foldlM (fun im i => (newIndex table i).map fun idx => update im i.oid (some idx)) im = some im')
    (oids : (indexes.map (·.oid)).Nodup) :
    (∀ oid ∉ indexes.map (·.oid), im' oid = im oid) ∧ ∀ i ∈ indexes, ∃ index, newIndex table i = some index ∧
      im' i.oid = some index := by
  induction indexes generalizing im with
  | nil =>
    cases created
    exact ⟨fun _ _ => rfl, forall_mem_nil _⟩
  | cons i rest ih =>
    obtain ⟨apart, oids⟩ := nodup_cons.mp oids
    rw [foldlM_cons, bind_eq_some] at created
    obtain ⟨_, made, created⟩ := created
    obtain ⟨index, new, rfl⟩ := map_eq_some_iff.mp made
    obtain ⟨spared, others⟩ := ih created oids
    refine ⟨fun oid outside => ?_, forall_mem_cons.mpr ⟨⟨index, new, ?_⟩, others⟩⟩
    · obtain ⟨apart, outside⟩ := ne_and_not_mem_of_not_mem_cons outside
      rw [spared oid outside, update_of_ne apart]
    · rw [spared i.oid apart, update_self]

theorem newIndexManager_from {c : Catalog} (created : c.foldlM (fun im table => table.indexes.foldlM (fun im i =>
      (newIndex table i).map fun idx => update im i.oid (some idx)) im) im = some im') (oids : (indexOids c).Nodup) :
    (∀ oid ∉ indexOids c, im' oid = im oid) ∧
      ∀ table ∈ c, ∀ i ∈ table.indexes, ∃ index, newIndex table i = some index ∧ im' i.oid = some index := by
  induction c generalizing im with
  | nil =>
    cases created
    exact ⟨fun _ _ => rfl, forall_mem_nil _⟩
  | cons table c ih =>
    rw [indexOids, flatMap_cons, nodup_append] at oids
    obtain ⟨here, later, apart⟩ := oids
    rw [foldlM_cons, bind_eq_some] at created
    obtain ⟨middle, first, created⟩ := created
    obtain ⟨sparedHere, new⟩ := newIndexes_spec first here
    obtain ⟨spared, others⟩ := ih created later
    refine ⟨fun oid outside => ?_, forall_mem_cons.mpr ⟨fun i member => ?_, others⟩⟩
    · rw [indexOids, flatMap_cons, mem_append, not_or] at outside
      rw [spared oid outside.2, sparedHere oid outside.1]
    · obtain ⟨index, made, found⟩ := new i member
      refine ⟨index, made, ?_⟩
      rw [spared i.oid (fun inside => apart _ (mem_map_of_mem member) _ inside rfl), found]

variable {i : Catalog.Index}

theorem mirrors_newIndex {index : Index}
    (columns : desc.fields = tableSchemaToTypes table) (made : newIndex table i = some index) :
    Mirrors noRows desc index := by
  obtain ⟨metadata, built, rfl⟩ := map_eq_some_iff.mp made
  obtain ⟨hash, tree⟩ := mirrors_new (suits_of_indexMetadata columns built)
  cases i.type with
  | hash => exact hash
  | btree => exact tree

theorem newIndex_kind {index : Index} (made : newIndex table i = some index) :
    indexMetadata table i = some index.metadata ∧ (index.isHash = true ↔ i.type = .hash) := by
  obtain ⟨metadata, built, rfl⟩ := map_eq_some_iff.mp made
  cases i.type with
  | hash => exact ⟨built, by simp [Index.isHash]⟩
  | btree => exact ⟨built, by simp [Index.isHash]⟩

theorem rebuildIndexes_from {c : Catalog} (oids : (indexOids c).Nodup)
    (opened : ∀ table ∈ c, ∃ heap, tables table.oid = some heap ∧ heap.WellFormed ∧
      ∀ i ∈ table.indexes, ∃ index, im i.oid = some index ∧ Mirrors noRows heap.desc index) :
    ∃ im', rebuildIndexes c tables im = some im' ∧ Spares im im' (indexOids c) ∧
      ∀ table ∈ c, ∃ heap, tables table.oid = some heap ∧
        ∀ i ∈ table.indexes, ∃ index, im' i.oid = some index ∧ Mirrors heap.contents heap.desc index := by
  induction c generalizing im with
  | nil => exact ⟨im, rfl, .refl im _, forall_mem_nil _⟩
  | cons table c ih =>
    rw [indexOids, flatMap_cons, nodup_append] at oids
    obtain ⟨here, later, apart⟩ := oids
    obtain ⟨⟨heap, found, formed, empty⟩, rest⟩ := forall_mem_cons.mp opened
    obtain ⟨middle, rebuilt, sparedHere, mirrored⟩ := rebuildTable_spec found formed here empty
    have still : ∀ table ∈ c, ∃ heap, tables table.oid = some heap ∧ heap.WellFormed ∧
        ∀ i ∈ table.indexes, ∃ index, middle i.oid = some index ∧ Mirrors noRows heap.desc index := by
      intro other member
      obtain ⟨heap, found, formed, empty⟩ := rest other member
      refine ⟨heap, found, formed, fun i inside => ?_⟩
      have outside : i.oid ∉ table.indexes.map (·.oid) := fun listed =>
        apart _ listed _ (mem_flatMap.mpr ⟨other, member, mem_map_of_mem inside⟩) rfl
      rw [sparedHere.others i.oid outside]
      exact empty i inside
    obtain ⟨im', finished, spared, others⟩ := ih later still
    refine ⟨im', ?_, sparedHere.trans spared, forall_mem_cons.mpr ⟨⟨heap, found, fun i member => ?_⟩, others⟩⟩
    · rw [rebuildIndexes, foldlM_cons, rebuilt]
      exact finished
    · rw [spared.others i.oid (fun inside => apart _ (mem_map_of_mem member) _ inside rfl)]
      exact mirrored i member

/-- From the empty indexes of a catalog, in which no two indexes share an object id,
every index comes to list exactly the live rows of its table. -/
theorem rebuildIndexes_lists {c : Catalog} {tables : ObjectID → Option TableHeap} (oids : (indexOids c).Nodup)
    (opened : ∀ table ∈ c, ∃ heap, tables table.oid = some heap ∧ heap.WellFormed ∧
      heap.desc.fields = tableSchemaToTypes table) (created : newIndexManager c = some im) :
    ∃ rebuilt, rebuildIndexes c tables im = some rebuilt ∧ ∀ table ∈ c, ∀ i ∈ table.indexes, ∃ heap index,
      tables table.oid = some heap ∧ rebuilt i.oid = some index ∧ indexMetadata table i = some index.metadata ∧
      (index.isHash = true ↔ i.type = .hash) ∧ heap.Lists index := by
  obtain ⟨-, new⟩ := newIndexManager_from created oids
  have empty : ∀ table ∈ c, ∃ heap, tables table.oid = some heap ∧ heap.WellFormed ∧
      ∀ i ∈ table.indexes, ∃ index, im i.oid = some index ∧ Mirrors noRows heap.desc index := by
    intro table member
    obtain ⟨heap, found, formed, columns⟩ := opened table member
    refine ⟨heap, found, formed, fun i inside => ?_⟩
    obtain ⟨index, made, here⟩ := new table member i inside
    exact ⟨index, here, mirrors_newIndex columns made⟩
  obtain ⟨rebuilt, finished, spared, mirrored⟩ := rebuildIndexes_from oids empty
  refine ⟨rebuilt, finished, fun table member i inside => ?_⟩
  obtain ⟨heap, found, lists⟩ := mirrored table member
  obtain ⟨index, here, mirrors⟩ := lists i inside
  obtain ⟨first, made, started⟩ := new table member i inside
  obtain ⟨_, again, alike⟩ := spared.alike i.oid first started
  cases here.symm.trans again
  obtain ⟨metadata, kind⟩ := newIndex_kind made
  exact ⟨heap, index, found, here, by rw [alike.metadata, metadata], by rw [alike.kind, kind],
    (lists_iff mirrors.suits mirrors.formed).mpr mirrors⟩

/-- Whatever statements have run, the indexes that a restart rebuilds answer as those did that
the statements maintained. -/
theorem restart_answers_alike {c : Catalog} {state final : TableState} {steps : List (Taken TableState Execution.Statement)}
    (maintained : state.Maintained) (ran : Run TableState.Step state steps final)
    (lands : ∀ taken ∈ steps, taken.before.Lands taken.label) (oids : (indexOids c).Nodup)
    (opened : ∀ table ∈ c, ∃ heap, tables table.oid = some heap ∧ heap.WellFormed ∧
      ∀ i ∈ table.indexes, ∃ index, im i.oid = some index ∧ Mirrors noRows heap.desc index)
    (member : table ∈ c) (found : tables table.oid = some final.heap) : ∃ rebuilt, rebuildIndexes c tables im = some rebuilt ∧
      ∀ i ∈ table.indexes, ∀ new, im i.oid = some new → ∃ index, rebuilt i.oid = some index ∧
        ∀ old ∈ final.indexes, old.metadata = new.metadata → ∀ key, (old.scanKey key).Perm (index.scanKey key) := by
  have last := ran.invariant_when TableState.Lands TableState.Maintained maintained
    (fun _ _ _ before lands step => TableState.maintained_step before step lands) lands
  obtain ⟨rebuilt, finished, spared, mirrored⟩ := rebuildIndexes_from oids opened
  obtain ⟨heap, same, lists⟩ := mirrored table member
  cases found.symm.trans same
  refine ⟨rebuilt, finished, fun i inside new created => ?_⟩
  obtain ⟨index, here, mirrors⟩ := lists i inside
  obtain ⟨_, again, alike⟩ := spared.alike i.oid new created
  cases here.symm.trans again
  refine ⟨index, here, fun old kept metadata key => ?_⟩
  have before := (last.lists old kept).found key
  have after := ((lists_iff mirrors.suits mirrors.formed).mpr mirrors).found key
  rw [perm_ext_iff_of_nodup before.1 after.1]
  intro rid
  rw [before.2, after.2, metadata, alike.metadata]

section Sample

open TableState

def bookIndexes : List Catalog.Index := [⟨2, .hash, ["a"]⟩, ⟨3, .btree, ["a"]⟩]

def bookCatalog : Catalog := [⟨1, [⟨"a", .int⟩], bookIndexes⟩]

def books : ObjectID → Option TableHeap := fun oid => if oid = 1 then some (ofInts [7, 8]) else none

theorem rebuilt_row_found : ∃ im rebuilt, newIndexManager bookCatalog = some im ∧
    rebuildIndexes bookCatalog books im = some rebuilt ∧
    ∀ i ∈ bookIndexes, ∃ index, rebuilt i.oid = some index ∧ (ofInts [7, 8]).Lists index := by
  obtain ⟨formed, desc⟩ := ofInts_spec [7, 8]
  have managed : (newIndexManager bookCatalog).isSome = true := by decide
  obtain ⟨im, created⟩ := isSome_iff_exists.mp managed
  have opened : ∀ table ∈ bookCatalog, ∃ found : TableHeap, books table.oid = some found ∧
      found.WellFormed ∧ found.desc.fields = tableSchemaToTypes table :=
    forall_mem_singleton.mpr ⟨_, rfl, formed, by rw [desc]; rfl⟩
  obtain ⟨rebuilt, finished, lists⟩ := rebuildIndexes_lists (by decide) opened created
  refine ⟨im, rebuilt, created, finished, fun i inside => ?_⟩
  obtain ⟨_, index, same, found, -, -, listed⟩ := lists _ mem_cons_self i inside
  cases same
  exact ⟨index, found, listed⟩

def newBooks : RuntimeIndexes :=
  fun oid => some (if oid = 2 then .hash (newMemHashIndex .oneInt) else .btree (newMemBTreeIndex .oneInt))

def reopened : ObjectID → Option TableHeap := fun _ => some raised.heap

/-- After an insertion and an update, the indexes that a restart makes answer as those of the table. -/
theorem book_found_again : ∃ rebuilt, rebuildIndexes bookCatalog reopened newBooks = some rebuilt ∧
    raised.indexes.length = 2 ∧ ∀ i ∈ bookIndexes, ∃ index, rebuilt i.oid = some index ∧
      ∀ old ∈ raised.indexes, ∀ key, (old.scanKey key).Perm (index.scanKey key) := by
  have desc : raised.heap.desc = .oneInt := by decide +kernel
  have metadata : ∀ old ∈ raised.indexes, old.metadata = .oneInt := by decide +kernel
  have opened : ∀ table ∈ bookCatalog, ∃ found, reopened table.oid = some found ∧ found.WellFormed ∧
      ∀ i ∈ table.indexes, ∃ index, newBooks i.oid = some index ∧ Mirrors noRows found.desc index := by
    refine forall_mem_singleton.mpr ⟨_, rfl, maintained_raised.formed, fun i _ => ⟨_, rfl, ?_⟩⟩
    rw [desc]
    split
    · exact (mirrors_new suits_oneInt).1
    · exact (mirrors_new suits_oneInt).2
  have oids : (indexOids bookCatalog).Nodup := by decide
  obtain ⟨rebuilt, finished, answers⟩ :=
    restart_answers_alike (maintained_newTable suits_oneInt) run_raising lands_raising oids opened mem_cons_self rfl
  refine ⟨rebuilt, finished, by decide +kernel, fun i inside => ?_⟩
  obtain ⟨index, found, alike⟩ := answers i inside _ rfl
  refine ⟨index, found, fun old listed => alike old listed ?_⟩
  rw [metadata old listed]
  split <;> rfl

end Sample
end GoDB.Recovery
