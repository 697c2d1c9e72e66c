import GoDB.Proofs.IndexKeys
import GoDB.Proofs.TableHeapScan

/-! Indexes that list exactly the live rows of a table, and the changes of a row
that keep them so. -/

namespace GoDB.Execution
open Common Lib Storage Indexing Function Index

/-- The index lists every live row under the row's key, once, and nothing else. -/
structure Mirrors (contents : Contents) (desc : RawTupleDesc) (index : Index) : Prop where
  suits : Suits index.metadata desc
  formed : index.WellFormed
  entries : ∀ key rid, (key, rid) ∈ index.entries ↔ ∃ row, contents rid = .live row ∧ rowKey index.metadata desc row = key

variable {contents : Contents} {desc : RawTupleDesc} {index later : Index} {rid : RecordID}

namespace Mirrors

section
variable (mirrors : Mirrors contents desc index)

include mirrors

theorem encoded : index.Encoded := by
  refine ⟨mirrors.formed, fun entry member => ?_⟩
  obtain ⟨row, -, key⟩ := (mirrors.entries entry.1 entry.2).mp member
  rw [← key]
  exact mirrors.suits.rowKey_encodes row

variable {row : RawTuple}

theorem key_of_live (live : contents rid = .live row) {key : Key} :
    (key, rid) ∈ index.entries ↔ key = rowKey index.metadata desc row := by
  rw [mirrors.entries, live]
  constructor
  · rintro ⟨_, same, key⟩
    cases same
    exact key.symm
  · rintro rfl
    exact ⟨row, rfl, rfl⟩

theorem unlisted (dead : ∀ row, contents rid ≠ .live row) (key : Key) : (key, rid) ∉ index.entries := by
  intro listed
  obtain ⟨row, live, -⟩ := (mirrors.entries key rid).mp listed
  exact dead row live

theorem congr {other : Contents}
    (same : ∀ rid row, other rid = .live row ↔ contents rid = .live row) : Mirrors other desc index where
  suits := mirrors.suits
  formed := mirrors.formed
  entries := fun key rid => by simp only [mirrors.entries, same]

theorem changed (alike : Index.Alike index later) (encoded : later.Encoded)
    {entry : Entry} (here : ∀ key, (key, rid) ∈ later.entries ↔ ∃ row, entry = .live row ∧ rowKey index.metadata desc row = key)
    (others : ∀ listed : Indexing.Entry, listed.2 ≠ rid → (listed ∈ later.entries ↔ listed ∈ index.entries)) :
    Mirrors (update contents rid entry) desc later where
  suits := alike.metadata ▸ mirrors.suits
  formed := encoded.formed
  entries := by
    intro key other
    rw [alike.metadata]
    by_cases same : other = rid
    · subst same
      rw [update_self]
      exact here key
    · rw [update_of_ne same, others (key, other) same]
      exact mirrors.entries key other

theorem insertKey (dead : ∀ row, contents rid ≠ .live row) (row : RawTuple)
    (self : ObjectID) : ∃ later, index.insertEntry self (rowKey index.metadata desc row) rid none = some (later, none) ∧
      Index.Alike index later ∧ Mirrors (update contents rid (.live row)) desc later := by
  obtain ⟨later, insertion, alike, encoded, mem⟩ :=
    mirrors.encoded.insertEntry (mirrors.suits.rowKey_encodes row) (mirrors.unlisted dead _) self
  refine ⟨later, insertion, alike, mirrors.changed alike encoded (fun key => ?_) fun listed apart => ?_⟩
  · rw [mem]
    constructor
    · rintro (same | old)
      · cases same
        exact ⟨row, rfl, rfl⟩
      · exact absurd old (mirrors.unlisted dead key)
    · rintro ⟨_, same, rfl⟩
      cases same
      exact .inl rfl
  · rw [mem]
    exact or_iff_right fun same => apart (congrArg Prod.snd same)

theorem deleteKey (live : contents rid = .live row) {entry : Entry} (dead : ∀ row, entry ≠ .live row) (self : ObjectID) :
    ∃ later, index.deleteEntry self (rowKey index.metadata desc row) rid none = some (later, none) ∧
      Index.Alike index later ∧ Mirrors (update contents rid entry) desc later := by
  obtain ⟨later, deletion, alike, encoded, mem⟩ :=
    mirrors.encoded.deleteEntry (mirrors.suits.rowKey_encodes row) self rid
  refine ⟨later, deletion, alike, mirrors.changed alike encoded (fun key => ?_) fun listed apart => ?_⟩
  · rw [mem, mirrors.key_of_live live]
    refine iff_of_false ?_ ?_
    · rintro ⟨rfl, apart⟩
      exact apart rfl
    · rintro ⟨row, same, -⟩
      exact dead row same
  · rw [mem]
    exact and_iff_left fun same => apart (congrArg Prod.snd same)

theorem same_key {newRow : RawTuple} (live : contents rid = .live row)
    (same : rowKey index.metadata desc newRow = rowKey index.metadata desc row) :
    Mirrors (update contents rid (.live newRow)) desc index := by
  refine mirrors.changed ⟨rfl, rfl⟩ mirrors.encoded (fun key => ?_) fun _ _ => Iff.rfl
  rw [mirrors.key_of_live live, ← same]
  constructor
  · rintro rfl
    exact ⟨newRow, rfl, rfl⟩
  · rintro ⟨_, equal, rfl⟩
    cases equal
    rfl

end

end Mirrors

def noRows : Contents := fun _ => .absent

theorem noRows_ne_live (rid : RecordID) (row : RawTuple) : noRows rid ≠ .live row := nofun

theorem mirrors_new {metadata : IndexMetadata} (suits : Suits metadata desc) :
    Mirrors noRows desc (.hash (newMemHashIndex metadata)) ∧ Mirrors noRows desc (.btree (newMemBTreeIndex metadata)) := by
  have none : ∀ key rid, (∃ row, noRows rid = .live row ∧ rowKey metadata desc row = key) → False := by
    rintro key rid ⟨row, live, -⟩
    exact noRows_ne_live rid row live
  refine ⟨⟨suits, wellFormed_new_hash metadata, fun key rid => ?_⟩,
    ⟨suits, wellFormed_new_btree metadata, fun key rid => ?_⟩⟩
  · exact iff_of_false List.not_mem_nil (none key rid)
  · exact iff_of_false List.not_mem_nil (none key rid)

namespace TableHeap

/-- The index holds one entry for each live row of the heap, under the row's key,
and no other, and a lookup finds the rows with the key, each of them once. -/
structure Lists (heap : TableHeap) (index : Index) : Prop where
  once : index.entries.Nodup
  entries : ∀ key rid, (key, rid) ∈ index.entries ↔
    ∃ row, heap.contents rid = .live row ∧ index.metadata.keyOf (heap.desc.values row) = some key
  found : ∀ key, (index.scanKey key).Nodup ∧ ∀ rid, rid ∈ index.scanKey key ↔
    ∃ row, heap.contents rid = .live row ∧ index.metadata.keyOf (heap.desc.values row) = some key

variable {heap : TableHeap}

theorem late_of_live {row : RawTuple} (live : heap.contents rid = .live row) : ridRank zeroRID ≤ ridRank rid := by
  obtain ⟨p, i, rfl⟩ := exists_ridAt (by rw [live]; exact nofun)
  exact BTreeItem.ridRank_zero_le ⟨Int.natCast_nonneg p, Int.natCast_nonneg i⟩

theorem lists_iff (suits : Suits index.metadata heap.desc) (formed : index.WellFormed) :
    heap.Lists index ↔ Mirrors heap.contents heap.desc index := by
  constructor
  · intro lists
    refine ⟨suits, formed, fun key rid => ?_⟩
    simp [lists.entries, suits.keyOf_values]
  · intro mirrors
    have entries : ∀ key rid, (key, rid) ∈ index.entries ↔
        ∃ row, heap.contents rid = .live row ∧ index.metadata.keyOf (heap.desc.values row) = some key := by
      intro key rid
      simp [mirrors.entries, suits.keyOf_values]
    refine ⟨nodup_entries formed, entries, fun key => ⟨nodup_scanKey formed key, fun rid => ?_⟩⟩
    rw [mem_scanKey_iff _ mirrors.encoded.canonical, entries]
    intro entry member
    obtain ⟨row, live, -⟩ := (mirrors.entries entry.1 entry.2).mp member
    exact late_of_live live

end TableHeap
end GoDB.Execution
