import GoDB.Indexing.Index

/-! What the calls on an index do to its entries, for both kinds alike. -/

namespace GoDB.Indexing
open Common Lib Storage Transaction List MemHashIndex Index BTreeItem OrderedSet AList

abbrev Entry := Key × RecordID

namespace MemHashIndex
variable {rid : RecordID} {array : List RecordID}

theorem removeLoop_absent (todo i : Nat) (array : List RecordID) (live : Nat)
    (absent : ∀ j, i ≤ j → j < i + todo → array[j]? ≠ some rid) :
    removeLoop rid todo i array live = some (array, live) := by
  induction todo generalizing i with
  | zero => rfl
  | succ todo ih =>
    rw [removeLoop, if_neg (absent i le_rfl (by omega))]
    exact ih (i + 1) fun j above below => absent j (by omega) (by omega)

theorem removeLoop_skip (skipped todo i : Nat) (array : List RecordID) (live : Nat)
    (absent : ∀ j, i ≤ j → j < i + skipped → array[j]? ≠ some rid) :
    removeLoop rid (skipped + todo) i array live = removeLoop rid todo (i + skipped) array live := by
  induction skipped generalizing i with
  | zero => simp
  | succ skipped ih =>
    rw [Nat.add_right_comm, removeLoop, if_neg (absent i le_rfl (by omega)),
      ih (i + 1) fun j above below => absent j (by omega) (by omega)]
    congr 1
    omega

theorem removeLoop_overrun (todo i : Nat) (array : List RecordID) (live : Nat) (short : live ≤ i + todo)
    (last : array[i + todo]? = some rid) : removeLoop rid (todo + 1) i array live = none := by
  induction todo generalizing i array live with
  | zero =>
    rw [Nat.add_zero] at last short
    rw [removeLoop, if_pos last, if_neg (by omega)]
  | succ todo ih =>
    have last' : array[i + 1 + todo]? = some rid := by
      rw [← last]
      congr 1
      omega
    rw [removeLoop]
    split
    · split
      · apply ih (i + 1) _ _ (by omega)
        rw [getElem?_set_ne (by omega)]
        exact last'
      · rfl
    · exact ih (i + 1) array live (by omega) last'

variable {front : List RecordID}

theorem getElem?_front (fresh : rid ∉ front) (back : List RecordID) (j : Nat)
    (below : j < front.length) : (front ++ back)[j]? ≠ some rid := by
  rw [getElem?_append_left below]
  intro found
  exact fresh (mem_of_getElem? found)

theorem removeLoop_match (fresh : rid ∉ front) (back : List RecordID) :
    ∃ last, removeLoop rid (front ++ rid :: back).length 0 (front ++ rid :: back) (front ++ rid :: back).length =
      removeLoop rid back.length (front.length + 1) (front ++ last :: back) (front.length + back.length) ∧
      (rid :: back).getLast? = some last := by
  have total : (front ++ rid :: back).length = front.length + (back.length + 1) := by simp
  have here : (front ++ rid :: back)[0 + front.length]? = some rid := by simp
  have found := getLast?_eq_some_getLast (cons_ne_nil rid back)
  generalize (rid :: back).getLast _ = last at found
  refine ⟨last, ?_, found⟩
  have final : (front ++ rid :: back)[front.length + (back.length + 1) - 1]? = some last := by
    rw [← found, getLast?_eq_getElem?, getElem?_append_right (by omega)]
    congr 1
    simp
  rw [total, removeLoop_skip front.length (back.length + 1) 0 _ _
    (fun j _ below => getElem?_front fresh _ j (by omega)), removeLoop, if_pos here, if_pos (by omega), final]
  simp

variable {rids : List RecordID}

theorem removeRid_of_nodup (nodup : rids.Nodup) : ∃ left, removeRid rid rids = some left ∧ left.Perm (rids.erase rid) := by
  by_cases listed : rid ∈ rids
  · obtain ⟨front, back, rfl, fresh⟩ := eq_append_cons_of_mem listed
    obtain ⟨last, reached, final⟩ := removeLoop_match fresh back
    have once : rid ∉ back := (nodup_cons.mp (nodup_append.mp nodup).2.1).1
    rw [removeRid, reached, removeLoop_absent]
    · refine ⟨_, rfl, ?_⟩
      rw [erase_append_right _ fresh, erase_cons_head]
      rcases eq_nil_or_concat back with rfl | ⟨middle, other, rfl⟩
      · simp
      · rw [concat_eq_append, ← cons_append, getLast?_concat] at final
        cases final
        have shape : front ++ last :: (middle ++ [last]) = front ++ last :: middle ++ [last] := by simp
        simp only [concat_eq_append, shape]
        rw [take_left' (by simp)]
        exact (perm_append_singleton last middle).symm.append_left front
    · intro j above below found
      rw [getElem?_append_right (by omega), getElem?_cons, if_neg (by omega)] at found
      exact once (mem_of_getElem? found)
  · refine ⟨rids, ?_, ?_⟩
    · rw [removeRid, removeLoop_absent]
      · simp
      · intro j _ _ found
        exact listed (mem_of_getElem? found)
    · rw [erase_of_not_mem listed]

theorem removeRid_repeated (listed : rid ∈ rids) : removeRid rid (rids ++ [rid]) = none := by
  obtain ⟨front, back, rfl, fresh⟩ := eq_append_cons_of_mem listed
  obtain ⟨last, reached, -⟩ := removeLoop_match fresh (back ++ [rid])
  rw [append_assoc, cons_append, removeRid, reached, length_append, length_singleton, removeLoop_overrun]
  · rfl
  · omega
  · have offset : front.length + 1 + back.length - front.length - 1 = back.length := by omega
    rw [getElem?_append_right (by omega), getElem?_cons, if_neg (by omega), offset]
    simp

variable (index : MemHashIndex)

def bucket (key : Key) : List RecordID := (index.m.lookup key).getD []

def entries : List Entry :=
  index.m.entries.flatMap fun ⟨key, rids⟩ => rids.map (Prod.mk key)

theorem mem_entries (key : Key) (rid : RecordID) : (key, rid) ∈ index.entries ↔ rid ∈ index.bucket key := by
  simp only [entries, bucket, mem_flatMap, mem_map, Prod.mk.injEq]
  constructor
  · intro ⟨⟨other, rids⟩, stored, found, member, same, equal⟩
    subst same equal
    rw [mem_lookup_iff.mpr stored]
    exact member
  · intro member
    cases found : index.m.lookup key with
    | none => simp [found] at member
    | some rids => exact ⟨⟨key, rids⟩, mem_lookup_iff.mp found, rid, by simpa [found] using member, rfl, rfl⟩

def Distinct : Prop := ∀ key, (index.bucket key).Nodup

theorem nodup_entries {index : MemHashIndex} (distinct : index.Distinct) : index.entries.Nodup := by
  refine nodup_flatMap.mpr ⟨?_, ?_⟩
  · intro ⟨key, rids⟩ stored
    have nodup := distinct key
    rw [bucket, mem_lookup_iff.mpr stored] at nodup
    exact nodup.map (fun _ _ same => (Prod.mk.inj same).2)
  · apply index.m.nodupKeys.pairwise_ne.imp
    intro first second apart entry inFirst inSecond
    obtain ⟨_, _, rfl⟩ := mem_map.mp inFirst
    obtain ⟨_, _, same⟩ := mem_map.mp inSecond
    exact apart (Prod.mk.inj same).1.symm

end MemHashIndex

def MemBTreeIndex.ofItems (metadata : IndexMetadata) (items : List BTreeItem) : MemBTreeIndex :=
  ⟨metadata, items.foldl set .empty⟩

namespace Index

def entries : Index → List Entry
  | .hash index => index.entries
  | .btree index => index.tree.items.map fun item => (item.key, item.rid)

def Same : Index → Entry → Entry → Prop
  | .hash _, first, second => first = second
  | .btree index, first, second =>
    Lib.Same (less index.metadata.keySchema) ⟨first.1, first.2⟩ ⟨second.1, second.2⟩

instance (index : Index) (first second : Entry) : Decidable (index.Same first second) :=
  match index with
  | .hash _ => inferInstanceAs (Decidable (first = second))
  | .btree _ => inferInstanceAs (Decidable (Lib.Same _ _ _))

structure WellFormed (index : Index) : Prop where
  distinct : ∀ hash, index = .hash hash → hash.Distinct
  sized : ∀ entry ∈ index.entries, entry.1.length = index.metadata.keySize

def isHash : Index → Bool
  | .hash _ => true
  | .btree _ => false

structure Alike (index later : Index) : Prop where
  metadata : later.metadata = index.metadata
  kind : later.isHash = index.isHash

structure Inserted (index later : Index) (entry : Entry) : Prop where
  alike : Alike index later
  formed : later.WellFormed
  mem : ∀ other, other ∈ later.entries ↔ other = entry ∨ other ∈ index.entries ∧ ¬ index.Same other entry

structure Removed (index later : Index) (entry : Entry) : Prop where
  alike : Alike index later
  formed : later.WellFormed
  mem : ∀ other, other ∈ later.entries ↔ other ∈ index.entries ∧ ¬ index.Same other entry

theorem Alike.same {index later : Index} (alike : Alike index later) : later.Same = index.Same := by
  cases index with
  | hash =>
    cases later with
    | hash => rfl
    | btree => exact nomatch alike.kind
  | btree first =>
    cases later with
    | hash => exact nomatch alike.kind
    | btree second =>
      have metadata : second.metadata = first.metadata := alike.metadata
      funext entry other
      simp only [Same, metadata]

theorem mem_entries_btree (index : MemBTreeIndex) (key : Key) (rid : RecordID) :
    (key, rid) ∈ (btree index).entries ↔ ⟨key, rid⟩ ∈ index.tree.items := by
  simp only [entries, mem_map, Prod.mk.injEq]
  constructor
  · intro ⟨item, member, sameKey, sameRid⟩
    subst sameKey sameRid
    exact member
  · intro member
    exact ⟨_, member, rfl, rfl⟩

theorem same_less_iff (schema : RawTupleDesc) (first second : BTreeItem) :
    Lib.Same (less schema) first second ↔ first.rank schema = second.rank schema := by
  unfold Lib.Same
  rw [← Bool.not_eq_true, ← Bool.not_eq_true, less_iff, less_iff, not_lt, not_lt]
  constructor
  · intro ⟨above, below⟩
    exact le_antisymm below above
  · intro equal
    exact ⟨equal.ge, equal.le⟩

theorem same_equivalence (index : Index) : Equivalence index.Same := by
  cases index with
  | hash => exact ⟨fun _ => rfl, Eq.symm, Eq.trans⟩
  | btree index =>
    refine ⟨?_, ?_, ?_⟩
    all_goals simp only [Same, same_less_iff]
    · exact fun _ => trivial
    · exact Eq.symm
    · exact Eq.trans

theorem eq_of_same_hash {index : Index} (hash : index.isHash = true) {first second : Entry}
    (same : index.Same first second) : first = second := by
  cases index with
  | hash => exact same
  | btree => cases hash

theorem nodup_entries {index : Index} (formed : index.WellFormed) : index.entries.Nodup := by
  cases index with
  | hash index => exact MemHashIndex.nodup_entries (formed.distinct index rfl)
  | btree index =>
    refine (index.tree.nodup ?_).map ?_
    · intro item
      rw [← Bool.not_eq_true, less_iff]
      exact lt_irrefl _
    · intro ⟨_, _⟩ ⟨_, _⟩ same
      cases same
      rfl

variable {index later : Index} {self : ObjectID} {key : Key} {rid : RecordID} {txn txn' : Option TransactionContext}

theorem wellFormed_btree {index : MemBTreeIndex}
    (sized : ∀ entry ∈ (btree index).entries, entry.1.length = index.metadata.keySize) :
    (btree index).WellFormed :=
  ⟨fun _ impossible => (nomatch impossible), sized⟩

theorem inserted_btree {index later : MemBTreeIndex} (formed : (btree index).WellFormed)
    (insertion : index.insertEntry self key rid txn = some (later, txn')) :
    Inserted (.btree index) (.btree later) (key, rid) := by
  unfold MemBTreeIndex.insertEntry at insertion
  split at insertion
  next sized =>
    cases insertion
    have mem : ∀ other, other ∈ (btree { index with tree := index.tree.set ⟨key, rid⟩ }).entries ↔
        other = (key, rid) ∨ other ∈ (btree index).entries ∧ ¬ (btree index).Same other (key, rid) := by
      intro ⟨otherKey, otherRid⟩
      rw [mem_entries_btree, mem_entries_btree, OrderedSet.mem_set]
      simp [Same]
    refine ⟨⟨rfl, rfl⟩, wellFormed_btree ?_, mem⟩
    intro entry member
    rcases (mem entry).mp member with rfl | ⟨old, _⟩
    · exact sized
    · exact formed.sized entry old
  next => cases insertion

theorem wellFormed_new_btree (metadata : IndexMetadata) : (btree (newMemBTreeIndex metadata)).WellFormed :=
  wellFormed_btree (forall_mem_nil _)

theorem wellFormed_new_hash (metadata : IndexMetadata) : (hash (newMemHashIndex metadata)).WellFormed := by
  refine ⟨?_, forall_mem_nil _⟩
  intro hash same key
  cases same
  exact nodup_nil

theorem bucket_insert (index : MemHashIndex) (key other : Key) (rids : List RecordID) :
    bucket { index with m := index.m.insert key rids } other =
      if other = key then rids else index.bucket other := by
  by_cases same : other = key
  · subst same
    simp [bucket]
  · simp [bucket, same, lookup_insert_ne]

theorem inserted_hash {index later : MemHashIndex} (formed : (hash index).WellFormed)
    (insertion : index.insertEntry self key rid txn = some (later, txn')) (absent : (key, rid) ∉ index.entries) :
    Inserted (.hash index) (.hash later) (key, rid) := by
  unfold MemHashIndex.insertEntry at insertion
  split at insertion
  next sized =>
    cases insertion
    have mem : ∀ other, other ∈ MemHashIndex.entries { index with m := index.m.insert key (index.bucket key ++ [rid]) } ↔
        other = (key, rid) ∨ other ∈ index.entries ∧ other ≠ (key, rid) := by
      intro ⟨otherKey, otherRid⟩
      rw [MemHashIndex.mem_entries, MemHashIndex.mem_entries, bucket_insert]
      by_cases sameKey : otherKey = key
      · subst sameKey
        by_cases sameRid : otherRid = rid
        · simp [sameRid]
        · simp [sameRid]
      · simp [sameKey]
    refine ⟨⟨rfl, rfl⟩, ⟨?_, ?_⟩, mem⟩
    · intro hash same other
      cases same
      have nodup := (formed.distinct index rfl key).concat
        (fun listed => absent ((index.mem_entries key rid).mpr listed))
      rw [concat_eq_append] at nodup
      rw [bucket_insert]
      split
      · exact nodup
      · exact formed.distinct index rfl other
    · intro entry member
      rcases (mem entry).mp member with rfl | ⟨old, _⟩
      · exact sized
      · exact formed.sized entry old
  next => cases insertion

theorem inserted_of_insertEntry (formed : index.WellFormed) (room : index.isHash = true → (key, rid) ∉ index.entries)
    (insertion : index.insertEntry self key rid txn = some (later, txn')) : Inserted index later (key, rid) := by
  cases index with
  | hash index =>
    obtain ⟨⟨result, _⟩, inserted, same⟩ := Option.map_eq_some_iff.mp insertion
    cases same
    exact inserted_hash formed inserted (room rfl)
  | btree index =>
    obtain ⟨⟨result, _⟩, inserted, same⟩ := Option.map_eq_some_iff.mp insertion
    cases same
    exact inserted_btree formed inserted

theorem insertEntry_eq (sized : key.length = index.metadata.keySize) : ∃ later, index.insertEntry self key rid txn =
    some (later, txn.map (·.addAbortTask ⟨self, .undoInsert, key, rid⟩)) := by
  cases index with
  | hash index =>
    change key.length = index.metadata.keySize at sized
    rw [insertEntry, MemHashIndex.insertEntry, if_pos sized]
    exact ⟨_, rfl⟩
  | btree index =>
    change key.length = index.metadata.keySize at sized
    rw [insertEntry, MemBTreeIndex.insertEntry, if_pos sized]
    exact ⟨_, rfl⟩

theorem sized_of_insertEntry (insertion : index.insertEntry self key rid txn = some (later, txn')) :
    key.length = index.metadata.keySize := by
  by_contra wrong
  cases index with
  | hash index =>
    change ¬ key.length = index.metadata.keySize at wrong
    rw [insertEntry, MemHashIndex.insertEntry, if_neg wrong] at insertion
    cases insertion
  | btree index =>
    change ¬ key.length = index.metadata.keySize at wrong
    rw [insertEntry, MemBTreeIndex.insertEntry, if_neg wrong] at insertion
    cases insertion

theorem removed_btree {index : MemBTreeIndex} (formed : (btree index).WellFormed)
    (sized : key.length = index.metadata.keySize) : ∃ later, index.deleteEntry self key rid none = some (later, none) ∧
      Removed (.btree index) (.btree later) (key, rid) := by
  refine ⟨_, by rw [MemBTreeIndex.deleteEntry, if_pos sized], ?_⟩
  have mem : ∀ other, other ∈ (btree { index with tree := index.tree.delete ⟨key, rid⟩ }).entries ↔
      other ∈ (btree index).entries ∧ ¬ (btree index).Same other (key, rid) := by
    intro ⟨otherKey, otherRid⟩
    rw [mem_entries_btree, mem_entries_btree, mem_delete]
    rfl
  refine ⟨⟨rfl, rfl⟩, wellFormed_btree ?_, mem⟩
  intro entry member
  exact formed.sized entry ((mem entry).mp member).1

theorem deleteEntry_found {index : MemHashIndex} (sized : key.length = index.metadata.keySize)
    {rids : List RecordID} (found : index.m.lookup key = some rids) : index.deleteEntry self key rid none =
      (removeRid rid rids).map fun left =>
        ({ index with m := index.m.putBack key left left.isEmpty }, none) := by
  rw [MemHashIndex.deleteEntry, if_pos sized, found]

theorem bucket_deleteEntry {index : MemHashIndex} (distinct : index.Distinct)
    (sized : key.length = index.metadata.keySize) : ∃ later, index.deleteEntry self key rid none = some (later, none) ∧
      later.metadata = index.metadata ∧ ∀ other, (later.bucket other).Perm
        (if other = key then (index.bucket key).erase rid else index.bucket other) := by
  have nodup := distinct key
  cases found : index.m.lookup key with
  | none =>
    refine ⟨index, by rw [MemHashIndex.deleteEntry, if_pos sized, found], rfl, fun other => ?_⟩
    split
    next same =>
      subst same
      simp [bucket, found]
    next => exact .refl _
  | some rids =>
    rw [bucket, found, Option.getD_some] at nodup
    obtain ⟨left, removed, perm⟩ := @removeRid_of_nodup rid _ nodup
    refine ⟨{ index with m := index.m.putBack key left left.isEmpty },
      by rw [deleteEntry_found sized found, removed]; rfl, rfl, fun other => ?_⟩
    have read := GoMap.lookup_putBack index.m key other left [] left.isEmpty isEmpty_iff.mp
    simp only [bucket, read]
    split
    · simpa [found] using perm
    · exact .refl _

theorem removed_hash {index : MemHashIndex} (formed : (hash index).WellFormed)
    (sized : key.length = index.metadata.keySize) : ∃ later, index.deleteEntry self key rid none = some (later, none) ∧
      Removed (.hash index) (.hash later) (key, rid) := by
  have distinct := formed.distinct index rfl
  obtain ⟨later, deleted, metadata, buckets⟩ := @bucket_deleteEntry self key rid index distinct sized
  have mem : ∀ other, other ∈ later.entries ↔ other ∈ index.entries ∧ other ≠ (key, rid) := by
    intro ⟨otherKey, otherRid⟩
    rw [mem_entries, mem_entries, (buckets otherKey).mem_iff]
    split
    next same => simp [same, (distinct key).mem_erase_iff, and_comm]
    next apart => simp [apart]
  refine ⟨later, deleted, ⟨metadata, rfl⟩, ⟨?_, ?_⟩, mem⟩
  · intro hash same other
    cases same
    rw [(buckets other).nodup_iff]
    split
    · exact (distinct key).erase rid
    · exact distinct other
  · intro entry member
    exact (formed.sized entry ((mem entry).mp member).1).trans (congrArg IndexMetadata.keySize metadata.symm)

theorem removed_of_deleteEntry (formed : index.WellFormed) (self : ObjectID) (rid : RecordID)
    (sized : key.length = index.metadata.keySize) :
    ∃ later, index.deleteEntry self key rid none = some (later, none) ∧ Removed index later (key, rid) := by
  cases index with
  | hash index =>
    obtain ⟨later, deleted, removed⟩ := @removed_hash self key rid index formed sized
    exact ⟨.hash later, by rw [deleteEntry, deleted]; rfl, removed⟩
  | btree index =>
    obtain ⟨later, deleted, removed⟩ := @removed_btree self key rid index formed sized
    exact ⟨.btree later, by rw [deleteEntry, deleted]; rfl, removed⟩

theorem invoke_eq (sized : key.length = index.metadata.keySize) (opType : IndexOpType) :
    index.invoke self opType key rid = (index.deleteEntry self key rid none).map Prod.fst := by
  have whole : index.metadata.asKey key = key := take_of_length_le sized.le
  cases opType <;> simp only [invoke, whole]

theorem removed_of_invoke (formed : index.WellFormed) (self : ObjectID) (rid : RecordID)
    (sized : key.length = index.metadata.keySize) (opType : IndexOpType) :
    ∃ later, index.invoke self opType key rid = some later ∧ Removed index later (key, rid) := by
  obtain ⟨later, deleted, removed⟩ := removed_of_deleteEntry formed self rid sized
  exact ⟨later, by rw [invoke_eq sized, deleted]; rfl, removed⟩

theorem deferred_of_deleteEntry {txn : TransactionContext} (formed : index.WellFormed)
    (deletion : index.deleteEntry self key rid (some txn) = some (later, txn')) : later = index ∧
      key.length = index.metadata.keySize ∧
      (txn' = some txn ∧ (∀ entry ∈ index.entries, ¬ index.Same entry (key, rid)) ∨
        ∃ stored, txn' = some (txn.addCommitTask ⟨self, .delete, stored, rid⟩) ∧
          index.Same (stored, rid) (key, rid) ∧ stored.length = index.metadata.keySize) := by
  cases index with
  | hash index =>
    obtain ⟨⟨result, _⟩, deleted, same⟩ := Option.map_eq_some_iff.mp deletion
    cases same
    unfold MemHashIndex.deleteEntry at deleted
    split at deleted
    next sized =>
      split at deleted
      next found =>
        cases deleted
        refine ⟨rfl, sized, .inl ⟨rfl, ?_⟩⟩
        rintro entry listed rfl
        have member := (index.mem_entries key rid).mp listed
        simp [bucket, found] at member
      next rids found =>
        cases deleted
        exact ⟨rfl, sized, .inr ⟨key, rfl, rfl, sized⟩⟩
    next => cases deleted
  | btree index =>
    obtain ⟨⟨result, _⟩, deleted, same⟩ := Option.map_eq_some_iff.mp deletion
    cases same
    unfold MemBTreeIndex.deleteEntry at deleted
    split at deleted
    next sized =>
      simp only at deleted
      split at deleted
      next found =>
        cases deleted
        refine ⟨rfl, sized, .inl ⟨rfl, ?_⟩⟩
        intro ⟨otherKey, otherRid⟩ listed
        exact (get_eq_none_iff _ _).mp found _ ((mem_entries_btree ..).mp listed)
      next stored found =>
        cases deleted
        obtain ⟨listed, alike⟩ := get_eq_some found
        have ranks := (same_less_iff ..).mp alike
        have keys : stored.key.rank index.metadata.keySchema = Key.rank index.metadata.keySchema key :=
          congrArg (fun rank => (ofLex rank).1) ranks
        refine ⟨rfl, sized, .inr ⟨stored.key, rfl, (same_less_iff ..).mpr ?_, ?_⟩⟩
        · simp only [rank, keys]
        · exact formed.sized (stored.key, stored.rid) ((mem_entries_btree ..).mpr listed)
    next => cases deleted

theorem invoke_repeated {index : MemHashIndex} (listed : (key, rid) ∈ index.entries)
    (insertion : (hash index).insertEntry self key rid txn = some (later, txn')) (opType : IndexOpType) :
    later.invoke self opType key rid = none := by
  obtain ⟨⟨result, _⟩, inserted, same⟩ := Option.map_eq_some_iff.mp insertion
  cases same
  unfold MemHashIndex.insertEntry at inserted
  split at inserted
  next sized =>
    cases inserted
    have repeated := removeRid_repeated ((index.mem_entries key rid).mp listed)
    have overrun := @deleteEntry_found self key rid
      { index with m := index.m.insert key (index.bucket key ++ [rid]) } sized _ (lookup_insert _)
    rw [repeated] at overrun
    rw [invoke_eq sized]
    exact congrArg (fun result => Option.map Prod.fst (Option.map (Prod.map hash id) result)) overrun
  next => cases inserted

end Index
end GoDB.Indexing
