import GoDB.Execution.PlanRows
import GoDB.Proofs.IndexEntries
import GoDB.Proofs.KeyEncoding

/-! What lookups and scans of an index return, in terms of its entries. -/

namespace GoDB.Common

theorem Value.eq_of_rank {v w : Value} (types : v.type = w.type) (ranks : v.rank = w.rank) : v = w := by
  cases v with
  | int a =>
    cases w with
    | int b =>
      simp only [rank, EmbeddingLike.apply_eq_iff_eq, Prod.mk.injEq, true_and, and_true] at ranks
      exact congrArg int (Int64.toInt_inj.mp ranks)
    | string | null => simp [rank] at ranks
  | string a =>
    cases w with
    | string b =>
      simp only [rank, EmbeddingLike.apply_eq_iff_eq, Prod.mk.injEq, true_and] at ranks
      exact congrArg string (Subtype.ext ranks)
    | int | null => simp [rank] at ranks
  | null t =>
    cases w with
    | null => exact congrArg null types
    | int | string => simp [rank] at ranks

end GoDB.Common

namespace GoDB.Indexing
open Common Lib Storage List BTreeItem Bool RawTupleDesc

variable {schema : RawTupleDesc} {key start : Key}

/-- The bytes are those of the values that they are read as. -/
def Key.Canonical (schema : RawTupleDesc) (key : Key) : Prop := (schema.values key).flatMap Value.writeTo = key

theorem values_eq_of_rank {first second : List Value} (types : first.map Value.type = second.map Value.type)
    (ranks : first.map Value.rank = second.map Value.rank) : first = second := by
  induction first generalizing second with
  | nil => simpa using types
  | cons v rest ih =>
    cases second with
    | nil => simp at types
    | cons w others =>
      simp only [map_cons, cons.injEq] at types ranks
      rw [Value.eq_of_rank types.1 ranks.1, ih types.2 ranks.2]

theorem Key.Canonical.eq_of_rank {other : Key} (canonical : key.Canonical schema) (canonical' : other.Canonical schema)
    (ranks : key.rank schema = other.rank schema) : key = other := by
  have values : schema.values key = schema.values other := by
    apply values_eq_of_rank _ ranks
    rw [values, values, type_readFields, type_readFields]
  rw [← canonical, ← canonical', values]

def Key.Encodes (schema : RawTupleDesc) (key : Key) : Prop :=
  ∃ vals : List Value, vals.map Value.type = schema.fields ∧ (∀ v ∈ vals, v.stored = v) ∧ vals.flatMap Value.writeTo = key

namespace Key.Encodes

theorem canonical (encodes : key.Encodes schema) : key.Canonical schema := by
  obtain ⟨vals, types, kept, rfl⟩ := encodes
  rw [Canonical, values, ← types, readFields_writeAll, map_congr_left kept, map_id']

theorem length_eq (encodes : key.Encodes schema) : key.length = schema.bytesPerTuple := by
  obtain ⟨vals, types, -, rfl⟩ := encodes
  rw [length_writeAll, types, bytesPerTuple]

end Key.Encodes

def Proper (rid : RecordID) : Prop := 0 ≤ rid.pageID.pageNum ∧ 0 ≤ rid.slot

def ridRank (rid : RecordID) : ℕ ×ₗ ℤ ×ₗ ℤ := toLex (rid.pageID.oid, toLex (rid.pageID.pageNum, rid.slot))

namespace BTreeItem

theorem ridRank_zero_le {rid : RecordID} (proper : Proper rid) : ridRank zeroRID ≤ ridRank rid := by
  simp only [ridRank, zeroRID, Prod.Lex.toLex_le_toLex]
  obtain ⟨page, slot⟩ := proper
  rcases Nat.eq_zero_or_pos rid.pageID.oid with zero | positive
  · rcases page.eq_or_lt with first | later
    · exact .inr ⟨zero.symm, .inr ⟨first, slot⟩⟩
    · exact .inr ⟨zero.symm, .inl later⟩
  · exact .inl positive

theorem less_pivot_iff {item : BTreeItem} (late : ridRank zeroRID ≤ ridRank item.rid) :
    less schema item ⟨start, zeroRID⟩ = true ↔ item.key.compare schema start = .lt := by
  rw [less_iff, Key.compare_eq_cmp, cmp_eq_lt_iff, rank, rank, Prod.Lex.toLex_lt_toLex]
  constructor
  · rintro (less | ⟨-, less⟩)
    · exact less
    · exact absurd less late.not_gt
  · exact .inl

end BTreeItem

/-- The entries that a scan from a key on comes past. Going backward it stays on
the first of several entries with the start key, so the others are left out. -/
def Reached (schema : RawTupleDesc) (entries : List Entry) (start : Key) : ScanDirection → Entry → Prop
  | .forward, entry => entry.1.compare schema start ≠ .lt
  | .backward, entry => entry.1.compare schema start = .lt ∨ entry.1.compare schema start = .eq ∧
      ∀ other ∈ entries, other.1.compare schema start = .eq → ridRank entry.2 ≤ ridRank other.2

instance (schema : RawTupleDesc) (entries : List Entry) (start : Key) (direction : ScanDirection) :
    DecidablePred (Reached schema entries start direction) :=
  fun _ => match direction with
    | .forward => inferInstanceAs (Decidable (_ ≠ _))
    | .backward => inferInstanceAs (Decidable (_ ∨ _ ∧ ∀ other ∈ _, _ → _))

namespace MemBTreeIndex
variable {index : MemBTreeIndex}

def entry (item : BTreeItem) : Entry := (item.key, item.rid)

theorem sorted_rank (index : MemBTreeIndex) : index.tree.items.Pairwise fun first second =>
    first.rank index.metadata.keySchema < second.rank index.metadata.keySchema := by
  apply index.tree.sorted.imp
  intro first second less
  exact (less_iff ..).mp less

theorem nodup_items (index : MemBTreeIndex) : index.tree.items.Nodup :=
  index.tree.nodup fun item => by
    rw [← not_eq_true, less_iff]
    exact lt_irrefl _

theorem rank_key_le {schema : RawTupleDesc} {first second : BTreeItem} (less : first.rank schema < second.rank schema) :
    first.key.rank schema ≤ second.key.rank schema := by
  rcases (Prod.Lex.toLex_lt_toLex).mp less with less | ⟨same, -⟩
  · exact less.le
  · exact same.le

theorem split_pivot (index : MemBTreeIndex) (start : Key) : index.tree.items.drop (index.seek start) =
      index.tree.items.filter (fun item => !less index.metadata.keySchema item ⟨start, zeroRID⟩) ∧
    index.tree.items.take (index.seek start) =
      index.tree.items.filter (fun item => less index.metadata.keySchema item ⟨start, zeroRID⟩) := by
  have parted := @split_findIdx _ (fun item => !less index.metadata.keySchema item ⟨start, zeroRID⟩) index.tree.items ?_
  · simpa only [seek, Bool.not_not] using parted
  · apply index.sorted_rank.imp
    intro first second less
    simp only [not_eq_true', ← not_eq_true, less_iff, not_lt]
    exact fun above => above.trans less.le

section
variable (late : ∀ item ∈ index.tree.items, ridRank zeroRID ≤ ridRank item.rid)

include late

theorem split_seek (start : Key) : index.tree.items.drop (index.seek start) =
      index.tree.items.filter (fun item => item.key.compare index.metadata.keySchema start ≠ .lt) ∧
    index.tree.items.take (index.seek start) =
      index.tree.items.filter (fun item => item.key.compare index.metadata.keySchema start = .lt) := by
  rw [(index.split_pivot start).1, (index.split_pivot start).2]
  refine ⟨filter_congr fun item member => ?_, filter_congr fun item member => ?_⟩
  · rw [Bool.eq_iff_iff, Bool.not_eq_true', ← Bool.not_eq_true, less_pivot_iff (late item member),
      decide_eq_true_iff]
  · rw [Bool.eq_iff_iff, less_pivot_iff (late item member), decide_eq_true_iff]

theorem scanKey_eq (canonical : ∀ item ∈ index.tree.items, item.key.Canonical index.metadata.keySchema) (key : Key) :
    index.scanKey key = (index.tree.items.filter (·.key = key)).map (·.rid) := by
  rw [scanKey, (split_seek late key).1, takeWhile_eq_filter, filter_filter]
  · congr 1
    apply filter_congr
    intro item _
    by_cases same : item.key = key
    · have equal : key.compare index.metadata.keySchema key = .eq := by rw [Key.compare_eq_cmp, cmp_self_eq_eq]
      simp [same, equal]
    · simp [same]
  · apply List.Pairwise.imp_of_mem _ (index.sorted_rank.filter _)
    intro first second inFirst inSecond less same
    -- The first lies between the key and the second, whose keys are equal.
    obtain ⟨memFirst, above⟩ := mem_filter.mp inFirst
    obtain ⟨memSecond, -⟩ := mem_filter.mp inSecond
    rw [decide_eq_true_iff] at same above ⊢
    rw [Key.compare_eq_cmp, Ne, cmp_eq_lt_iff, not_lt] at above
    rw [← same] at above ⊢
    apply (canonical first memFirst).eq_of_rank (canonical second memSecond)
    exact le_antisymm (rank_key_le less) above

omit late in
theorem compare_gt_mono {schema : RawTupleDesc} {start : Key} {first second : BTreeItem}
    (less : first.rank schema < second.rank schema) (above : first.key.compare schema start = .gt) :
    second.key.compare schema start = .gt := by
  rw [Key.compare_eq_cmp, cmp_eq_gt_iff] at above ⊢
  exact above.trans_le (rank_key_le less)

omit late in
theorem ridRank_lt {schema : RawTupleDesc} {start : Key} {first second : BTreeItem}
    (less : first.rank schema < second.rank schema) (same : first.key.compare schema start = .eq)
    (equal : second.key.compare schema start = .eq) : ridRank first.rid < ridRank second.rid := by
  rw [Key.compare_eq_cmp, cmp_eq_eq_iff] at same equal
  rcases (Prod.Lex.toLex_lt_toLex).mp less with less | ⟨-, less⟩
  · exact absurd (same.trans equal.symm) less.ne
  · exact less

omit late in
theorem rest_after {items rest : List BTreeItem} {i : Nat} {item : BTreeItem} (here : items.drop i = item :: rest) :
    items.take (i + 1) = items.take i ++ [item] ∧ items = items.take i ++ item :: rest := by
  have found : items[i]? = some item := by
    rw [← head?_drop, here]
    rfl
  refine ⟨?_, ?_⟩
  · rw [take_add_one, found]
    rfl
  · rw [← here, take_append_drop]

theorem parts_of_seek {start : Key} {item : BTreeItem}
    {rest : List BTreeItem} (here : index.tree.items.drop (index.seek start) = item :: rest) :
    item.key.compare index.metadata.keySchema start ≠ .lt ∧
      (∀ other ∈ rest, item.rank index.metadata.keySchema < other.rank index.metadata.keySchema) ∧
      ∀ other, other ∈ index.tree.items ↔
        other ∈ index.tree.items.take (index.seek start) ∨ other = item ∨ other ∈ rest := by
  have sorted := index.sorted_rank.sublist (drop_sublist (index.seek start) _)
  have above : item ∈ index.tree.items.drop (index.seek start) := here ▸ mem_cons_self
  rw [here] at sorted
  rw [(split_seek late start).1] at above
  refine ⟨decide_eq_true_iff.mp (mem_filter.mp above).2, (pairwise_cons.mp sorted).1, fun other => ?_⟩
  have whole := (rest_after here).2
  constructor
  · intro member
    rw [whole] at member
    rcases mem_append.mp member with front | back
    · exact .inl front
    · exact .inr (mem_cons.mp back)
  · intro parts
    rw [whole]
    exact mem_append.mpr (parts.imp_right mem_cons.mpr)

theorem mem_scan_backward (start : Key) (item : BTreeItem) :
    item ∈ index.scan (some start) .backward ↔ item ∈ index.tree.items ∧
      Reached index.metadata.keySchema (index.tree.items.map entry) start .backward (entry item) := by
  have before : ∀ other, other ∈ index.tree.items.take (index.seek start) ↔
      other ∈ index.tree.items ∧ other.key.compare index.metadata.keySchema start = .lt := by
    intro other
    rw [(split_seek late start).2, mem_filter, decide_eq_true_iff]
  cases here : index.tree.items.drop (index.seek start) with
  | nil =>
    have past : index.tree.items[index.seek start]? = none := by rw [← head?_drop, here]; rfl
    have whole : index.tree.items.take (index.seek start) = index.tree.items := by
      have parts := take_append_drop (index.seek start) index.tree.items
      rwa [here, append_nil] at parts
    simp only [scan, past, mem_reverse]
    constructor
    · intro member
      exact ⟨member, .inl ((before item).mp (by rwa [whole])).2⟩
    · exact And.left
  | cons landed rest =>
    obtain ⟨notBelow, later, parts⟩ := parts_of_seek late here
    have found : index.tree.items[index.seek start]? = some landed := by rw [← head?_drop, here]; rfl
    simp only [scan, found]
    split
    next above =>
      rw [mem_reverse, before]
      refine and_congr_right fun member => ⟨.inl, ?_⟩
      rintro (below | ⟨same, -⟩)
      · exact below
      · rcases (parts item).mp member with front | rfl | back
        · exact ((before item).mp front).2
        · cases same.symm.trans above
        · cases same.symm.trans (compare_gt_mono (later item back) above)
    next notAbove =>
      have same : landed.key.compare index.metadata.keySchema start = .eq := by
        cases order : landed.key.compare index.metadata.keySchema start with
        | lt => exact absurd order notBelow
        | gt => exact absurd order notAbove
        | eq => rfl
      rw [mem_reverse, (rest_after here).1, mem_append, mem_singleton]
      constructor
      · rintro (front | rfl)
        · exact ⟨((before item).mp front).1, .inl ((before item).mp front).2⟩
        · refine ⟨(parts item).mpr (.inr (.inl rfl)), .inr ⟨same, forall_mem_map.mpr fun other member equal => ?_⟩⟩
          rcases (parts other).mp member with front | rfl | back
          · cases equal.symm.trans ((before other).mp front).2
          · exact le_rfl
          · exact (ridRank_lt (later other back) same equal).le
      · rintro ⟨member, below | ⟨equal, first⟩⟩
        · exact .inl ((before item).mpr ⟨member, below⟩)
        · rcases (parts item).mp member with front | rfl | back
          · exact .inl front
          · exact .inr rfl
          · have landedAt := mem_map_of_mem (f := entry) ((parts landed).mpr (.inr (.inl rfl)))
            exact absurd (ridRank_lt (later item back) same equal) (first (entry landed) landedAt same).not_gt

theorem scan_perm (start : Key) (direction : ScanDirection) :
    (index.scan (some start) direction).Perm (index.tree.items.filter fun item =>
      Reached index.metadata.keySchema (index.tree.items.map entry) start direction (entry item)) := by
  cases direction with
  | forward =>
    simp only [scan, (split_seek late start).1]
    rfl
  | backward =>
    have nodup := index.nodup_items
    have once : (index.scan (some start) .backward).Nodup := by
      simp only [scan]
      split
      · exact nodup_reverse.mpr nodup
      · split
        · exact nodup_reverse.mpr (nodup.sublist (take_sublist ..))
        · exact nodup_reverse.mpr (nodup.sublist (take_sublist ..))
    apply (perm_ext_iff_of_nodup once (nodup.filter _)).mpr
    intro item
    rw [mem_scan_backward late, mem_filter, decide_eq_true_iff]

end

theorem key_of_taken {items : List BTreeItem} {key : Key} {item : BTreeItem}
    (taken : item ∈ items.takeWhile (·.key = key)) : item.key = key := by
  simpa using mem_takeWhile_imp taken

theorem late_of_mem_scanKey {key : Key} {rid : RecordID} (found : rid ∈ index.scanKey key) :
    ridRank zeroRID ≤ ridRank rid := by
  obtain ⟨item, taken, rfl⟩ := mem_map.mp found
  have same := key_of_taken taken
  have above := (takeWhile_sublist _).mem taken
  rw [(index.split_pivot key).1, mem_filter, not_eq_true', ← not_eq_true, less_iff, not_lt] at above
  rcases (Prod.Lex.toLex_le_toLex).mp above.2 with less | ⟨-, late⟩
  · exact absurd less (same ▸ lt_irrefl _)
  · exact late

theorem nodup_scanKey (index : MemBTreeIndex) (key : Key) : (index.scanKey key).Nodup := by
  refine List.Nodup.map_on ?_ (index.nodup_items.sublist ((takeWhile_sublist _).trans (drop_sublist ..)))
  intro ⟨firstKey, first⟩ inFirst ⟨secondKey, second⟩ inSecond same
  cases key_of_taken inFirst
  cases key_of_taken inSecond
  cases same
  rfl

end MemBTreeIndex

namespace Index
variable {index : Index} {key : Key} {rid : RecordID}

theorem eq_of_same {first second : Entry} (canonical : first.1.Canonical index.metadata.keySchema)
    (canonical' : second.1.Canonical index.metadata.keySchema) (same : index.Same first second) : first = second := by
  cases index with
  | hash => exact same
  | btree index =>
    have ranks := (same_less_iff ..).mp same
    simp only [rank, EmbeddingLike.apply_eq_iff_eq, Prod.mk.injEq] at ranks
    obtain ⟨keys, oid, pageNum, slot⟩ := ranks
    obtain ⟨firstKey, ⟨⟨_, _⟩, _⟩⟩ := first
    obtain ⟨secondKey, ⟨⟨_, _⟩, _⟩⟩ := second
    cases canonical.eq_of_rank canonical' keys
    cases oid
    cases pageNum
    cases slot
    rfl

theorem nodup_scanKey (formed : index.WellFormed) (key : Key) : (index.scanKey key).Nodup := by
  cases index with
  | hash index => exact formed.distinct index rfl key
  | btree index => exact index.nodup_scanKey key

theorem mem_scanKey_iff (late : ∀ entry ∈ index.entries, ridRank zeroRID ≤ ridRank entry.2)
    (canonical : ∀ entry ∈ index.entries, entry.1.Canonical index.metadata.keySchema) :
    rid ∈ index.scanKey key ↔ (key, rid) ∈ index.entries := by
  cases index with
  | hash index => exact (index.mem_entries key rid).symm
  | btree index =>
    have lateItems := forall_mem_map.mp late
    have canonicalItems := forall_mem_map.mp canonical
    rw [scanKey, MemBTreeIndex.scanKey_eq lateItems canonicalItems, mem_entries_btree]
    simp only [mem_map, mem_filter, decide_eq_true_iff]
    constructor
    · intro ⟨item, ⟨member, sameKey⟩, sameRid⟩
      subst sameKey sameRid
      exact member
    · intro member
      exact ⟨_, ⟨member, rfl⟩, rfl⟩

structure Encoded (index : Index) : Prop where
  formed : index.WellFormed
  encoded : ∀ entry ∈ index.entries, entry.1.Encodes index.metadata.keySchema

namespace Encoded

section
variable (encoded : index.Encoded)

include encoded

theorem canonical : ∀ entry ∈ index.entries, entry.1.Canonical index.metadata.keySchema :=
  fun entry member => (encoded.encoded entry member).canonical

section
variable (encodes : key.Encodes index.metadata.keySchema)

include encodes

theorem same_iff {entry : Entry}
    (member : entry ∈ index.entries) : index.Same entry (key, rid) ↔ entry = (key, rid) := by
  constructor
  · exact eq_of_same (encoded.canonical entry member) encodes.canonical
  · rintro rfl
    exact index.same_equivalence.refl _

theorem insertEntry (fresh : (key, rid) ∉ index.entries) (self : ObjectID) :
    ∃ later, index.insertEntry self key rid none = some (later, none) ∧
      Alike index later ∧ later.Encoded ∧ ∀ entry, entry ∈ later.entries ↔ entry = (key, rid) ∨ entry ∈ index.entries := by
  obtain ⟨later, insertion⟩ := @insertEntry_eq index self key rid none encodes.length_eq
  have inserted := inserted_of_insertEntry encoded.formed (fun _ => fresh) insertion
  have mem : ∀ entry, entry ∈ later.entries ↔ entry = (key, rid) ∨ entry ∈ index.entries := by
    intro entry
    rw [inserted.mem]
    refine or_congr_right (and_iff_left_of_imp fun member same => fresh ?_)
    rwa [← (encoded.same_iff encodes member).mp same]
  refine ⟨later, insertion, inserted.alike, ⟨inserted.formed, fun entry member => ?_⟩, mem⟩
  rw [inserted.alike.metadata]
  rcases (mem entry).mp member with rfl | old
  · exact encodes
  · exact encoded.encoded entry old

theorem deleteEntry (self : ObjectID) (rid : RecordID) : ∃ later, index.deleteEntry self key rid none = some (later, none) ∧
      Alike index later ∧ later.Encoded ∧ ∀ entry, entry ∈ later.entries ↔ entry ∈ index.entries ∧ entry ≠ (key, rid) := by
  obtain ⟨later, deletion, removed⟩ := removed_of_deleteEntry encoded.formed self rid encodes.length_eq
  refine ⟨later, deletion, removed.alike, ⟨removed.formed, fun entry member => ?_⟩, fun entry => ?_⟩
  · rw [removed.alike.metadata]
    exact encoded.encoded entry ((removed.mem entry).mp member).1
  · rw [removed.mem]
    exact and_congr_right fun member => not_congr (encoded.same_iff encodes member)

end

end

end Encoded
end Index
end GoDB.Indexing
