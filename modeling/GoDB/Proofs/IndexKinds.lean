import GoDB.Lib.Run
import GoDB.Proofs.IndexReads

/-! A hash index and a tree that are given the same calls. Both hold the same
entries as long as no entry is inserted that is there already. -/

namespace GoDB.Indexing
open Common Lib Storage List Option Index

inductive EntryCall where
  | insertEntry (key : Key) (rid : RecordID)
  | deleteEntry (key : Key) (rid : RecordID)

namespace EntryCall

def key : EntryCall → Key
  | insertEntry key _ => key
  | deleteEntry key _ => key

def onIndex : EntryCall → Index → Option Index
  | insertEntry key rid, index => (index.insertEntry 0 key rid none).map Prod.fst
  | deleteEntry key rid, index => (index.deleteEntry 0 key rid none).map Prod.fst

end EntryCall

structure IndexPair where
  hash : Option Index
  tree : Option Index

namespace IndexPair

structure Step (schema : RawTupleDesc) (before : IndexPair) (call : EntryCall) (after : IndexPair) : Prop where
  encodes : call.key.Encodes schema
  hash : after.hash = before.hash.bind call.onIndex
  tree : after.tree = before.tree.bind call.onIndex

/-- Neither index has panicked, and a lookup finds the same records in both, each
of them once. -/
def Agree (pair : IndexPair) : Prop :=
  ∃ hash tree, pair = ⟨some hash, some tree⟩ ∧ ∀ key,
    (hash.scanKey key).Nodup ∧ (tree.scanKey key).Nodup ∧ ∀ rid, rid ∈ hash.scanKey key ↔ rid ∈ tree.scanKey key

/-- An inserted entry is not listed yet, and its record does not come before the
one that a lookup in the tree starts from. -/
def Fresh (pair : IndexPair) : EntryCall → Prop
  | .insertEntry key rid => (∀ hash ∈ pair.hash, rid ∉ hash.scanKey key) ∧ ridRank zeroRID ≤ ridRank rid
  | .deleteEntry _ _ => True

structure Parallel (schema : RawTupleDesc) (hash tree : Index) : Prop where
  kinds : hash.isHash = true ∧ tree.isHash = false
  schemas : hash.metadata.keySchema = schema ∧ tree.metadata.keySchema = schema
  encoded : hash.Encoded ∧ tree.Encoded
  mem : ∀ entry, entry ∈ tree.entries ↔ entry ∈ hash.entries
  late : ∀ entry ∈ hash.entries, ridRank zeroRID ≤ ridRank entry.2

variable {schema : RawTupleDesc} {hash tree hash' tree' : Index} {before after : IndexPair} {call : EntryCall}
  {key : Key} {rid : RecordID}

namespace Parallel

section
variable (parallel : Parallel schema hash tree)

include parallel

theorem scanKey_hash (key : Key) (rid : RecordID) : rid ∈ hash.scanKey key ↔ (key, rid) ∈ hash.entries :=
  mem_scanKey_iff parallel.late parallel.encoded.1.canonical

theorem scanKey_tree (key : Key) (rid : RecordID) : rid ∈ tree.scanKey key ↔ (key, rid) ∈ tree.entries :=
  mem_scanKey_iff (fun entry member => parallel.late entry ((parallel.mem entry).mp member)) parallel.encoded.2.canonical

theorem agree : Agree ⟨some hash, some tree⟩ := by
  refine ⟨hash, tree, rfl, fun key => ⟨nodup_scanKey parallel.encoded.1.formed key,
    nodup_scanKey parallel.encoded.2.formed key, fun rid => ?_⟩⟩
  rw [parallel.scanKey_hash, parallel.scanKey_tree, parallel.mem]

theorem changed (first : Index.Alike hash hash') (second : Index.Alike tree tree')
    (encoded : hash'.Encoded ∧ tree'.Encoded) (mem : ∀ entry, entry ∈ tree'.entries ↔ entry ∈ hash'.entries)
    (late : ∀ entry ∈ hash'.entries, ridRank zeroRID ≤ ridRank entry.2) : Parallel schema hash' tree' where
  kinds := ⟨first.kind.trans parallel.kinds.1, second.kind.trans parallel.kinds.2⟩
  schemas := ⟨first.metadata ▸ parallel.schemas.1, second.metadata ▸ parallel.schemas.2⟩
  encoded := encoded
  mem := mem
  late := late

theorem insertEntry (encodes : key.Encodes schema)
    (absent : (key, rid) ∉ hash.entries) (late : ridRank zeroRID ≤ ridRank rid) :
    ∃ hash' tree', (EntryCall.insertEntry key rid).onIndex hash = some hash' ∧
      (EntryCall.insertEntry key rid).onIndex tree = some tree' ∧ Parallel schema hash' tree' := by
  obtain ⟨hash', inserted, first, encoded, mem⟩ :=
    parallel.encoded.1.insertEntry (parallel.schemas.1 ▸ encodes) absent 0
  obtain ⟨tree', inserted', second, encoded', mem'⟩ :=
    parallel.encoded.2.insertEntry (parallel.schemas.2 ▸ encodes) (fun listed => absent ((parallel.mem _).mp listed)) 0
  refine ⟨hash', tree', by simp [EntryCall.onIndex, inserted], by simp [EntryCall.onIndex, inserted'],
    parallel.changed first second ⟨encoded, encoded'⟩ (fun entry => ?_) fun entry member => ?_⟩
  · rw [mem, mem', parallel.mem]
  · rcases (mem entry).mp member with rfl | old
    · exact late
    · exact parallel.late entry old

theorem deleteEntry (encodes : key.Encodes schema) :
    ∃ hash' tree', (EntryCall.deleteEntry key rid).onIndex hash = some hash' ∧
      (EntryCall.deleteEntry key rid).onIndex tree = some tree' ∧ Parallel schema hash' tree' := by
  obtain ⟨hash', deleted, first, encoded, mem⟩ := parallel.encoded.1.deleteEntry (parallel.schemas.1 ▸ encodes) 0 rid
  obtain ⟨tree', deleted', second, encoded', mem'⟩ := parallel.encoded.2.deleteEntry (parallel.schemas.2 ▸ encodes) 0 rid
  refine ⟨hash', tree', by simp [EntryCall.onIndex, deleted], by simp [EntryCall.onIndex, deleted'],
    parallel.changed first second ⟨encoded, encoded'⟩ (fun entry => ?_) fun entry member => ?_⟩
  · rw [mem, mem', parallel.mem]
  · exact parallel.late entry ((mem entry).mp member).1

end

end Parallel

theorem scanKey_insertEntry (isHash : hash.isHash = true)
    (insertion : (EntryCall.insertEntry key rid).onIndex hash = some hash') :
    hash'.scanKey key = hash.scanKey key ++ [rid] := by
  cases hash with
  | hash index =>
    obtain ⟨⟨_, _⟩, result, rfl⟩ := map_eq_some_iff.mp insertion
    obtain ⟨⟨later, _⟩, inserted, same⟩ := map_eq_some_iff.mp result
    cases same
    unfold MemHashIndex.insertEntry at inserted
    split at inserted
    · cases inserted
      simp [scanKey, MemHashIndex.scanKey]
    · cases inserted
  | btree => cases isHash

theorem late_of_found (isTree : tree.isHash = false)
    (insertion : (EntryCall.insertEntry key rid).onIndex tree = some tree') {found : RecordID}
    (there : found ∈ tree'.scanKey key) : ridRank zeroRID ≤ ridRank found := by
  cases tree with
  | hash => cases isTree
  | btree index =>
    obtain ⟨⟨_, _⟩, result, rfl⟩ := map_eq_some_iff.mp insertion
    obtain ⟨⟨later, _⟩, -, same⟩ := map_eq_some_iff.mp result
    cases same
    exact later.late_of_mem_scanKey there

theorem agree_iff_fresh (parallel : Parallel schema hash tree) (step : Step schema ⟨some hash, some tree⟩ call after) :
    (Agree after ↔ Fresh ⟨some hash, some tree⟩ call) ∧
      (Fresh ⟨some hash, some tree⟩ call → ∃ hash' tree', after = ⟨some hash', some tree'⟩ ∧ Parallel schema hash' tree') := by
  obtain ⟨encodes, first, second⟩ := step
  obtain ⟨afterHash, afterTree⟩ := after
  cases call with
  | deleteEntry key rid =>
    obtain ⟨hash', tree', deletion, deletion', kept⟩ := @Parallel.deleteEntry _ _ _ _ rid parallel encodes
    cases first.trans deletion
    cases second.trans deletion'
    exact ⟨⟨fun _ => trivial, fun _ => kept.agree⟩, fun _ => ⟨hash', tree', rfl, kept⟩⟩
  | insertEntry key rid =>
    have made : ∀ index : Index, index.metadata.keySchema = schema →
        ∃ later, (EntryCall.insertEntry key rid).onIndex index = some later := by
      intro index same
      subst same
      obtain ⟨later, insertion⟩ := @insertEntry_eq index 0 key rid none encodes.length_eq
      exact ⟨later, by simp [EntryCall.onIndex, insertion]⟩
    obtain ⟨hash', insertion⟩ := made hash parallel.schemas.1
    obtain ⟨tree', insertion'⟩ := made tree parallel.schemas.2
    cases first.trans insertion
    cases second.trans insertion'
    have kept : Fresh ⟨some hash, some tree⟩ (.insertEntry key rid) → Parallel schema hash' tree' := by
      intro ⟨unlisted, late⟩
      have absent := fun member => unlisted hash rfl ((parallel.scanKey_hash key rid).mpr member)
      obtain ⟨_, _, again, again', kept⟩ := parallel.insertEntry encodes absent late
      cases insertion.symm.trans again
      cases insertion'.symm.trans again'
      exact kept
    refine ⟨⟨?_, fun fresh => (kept fresh).agree⟩, fun fresh => ⟨hash', tree', rfl, kept fresh⟩⟩
    intro ⟨_, _, same, agree⟩
    cases same
    -- The hash index lists the record at the end now; the tree must find it too.
    obtain ⟨once, -, found⟩ := agree key
    rw [scanKey_insertEntry parallel.kinds.1 insertion] at once found
    refine ⟨?_, ?_⟩
    · rintro _ ⟨⟩ listed
      exact disjoint_of_nodup_append once listed mem_cons_self
    · have there := (found rid).mp (mem_append_right _ mem_cons_self)
      exact late_of_found parallel.kinds.2 insertion' there

/-- Along a run of calls on two parallel indexes neither panics and lookups agree
after every call, exactly when every insertion was of an entry not yet listed. -/
theorem agree_iff {steps : List (Taken IndexPair EntryCall)} {final : IndexPair} (parallel : Parallel schema hash tree)
    (run : Run (Step schema) ⟨some hash, some tree⟩ steps final) :
    (∀ taken ∈ steps, Agree taken.after) ↔ ∀ taken ∈ steps, Fresh taken.before taken.label := by
  apply run.reached_iff Fresh (fun pair => ∃ hash tree, pair = ⟨some hash, some tree⟩ ∧ Parallel schema hash tree) Agree
  · exact ⟨hash, tree, rfl, parallel⟩
  · rintro _ call final ⟨hash, tree, rfl, parallel⟩ fresh step
    exact (agree_iff_fresh parallel step).2 fresh
  · rintro _ call final ⟨hash, tree, rfl, parallel⟩ step
    exact (agree_iff_fresh parallel step).1

theorem parallel_new (metadata : IndexMetadata) :
    Parallel metadata.keySchema (.hash (newMemHashIndex metadata)) (.btree (newMemBTreeIndex metadata)) where
  kinds := ⟨rfl, rfl⟩
  schemas := ⟨rfl, rfl⟩
  encoded := ⟨⟨wellFormed_new_hash metadata, forall_mem_nil _⟩, ⟨wellFormed_new_btree metadata, forall_mem_nil _⟩⟩
  mem := fun _ => Iff.rfl
  late := forall_mem_nil _

section Sample

def sampleRecord (slot : Int) : RecordID := ⟨⟨1, 0⟩, slot⟩

def samplePair : IndexPair :=
  ⟨some (.hash (newMemHashIndex IndexMetadata.oneInt)), some (.btree (newMemBTreeIndex IndexMetadata.oneInt))⟩

theorem sample_step (before : IndexPair) (call : EntryCall) (encodes : call.key.Encodes IndexMetadata.oneInt.keySchema) :
    Step IndexMetadata.oneInt.keySchema before call ⟨before.hash.bind call.onIndex, before.tree.bind call.onIndex⟩ :=
  ⟨encodes, rfl, rfl⟩

theorem intKey_encodes (v : Int64) (kept : (Value.int v).stored = .int v) :
    (intKey v).Encodes IndexMetadata.oneInt.keySchema :=
  ⟨[.int v], rfl, List.forall_mem_singleton.mpr kept, flatMap_singleton ..⟩

theorem deleted_and_inserted_again : ∃ steps final, Run (Step IndexMetadata.oneInt.keySchema) samplePair steps final ∧
    steps.map Taken.label = [.insertEntry (intKey 7) (sampleRecord 0), .insertEntry (intKey 7) (sampleRecord 1),
      .deleteEntry (intKey 7) (sampleRecord 0), .deleteEntry (intKey 7) (sampleRecord 0),
      .insertEntry (intKey 7) (sampleRecord 0)] ∧
    final.tree.map (·.scanKey (intKey 7)) = some [sampleRecord 0, sampleRecord 1] ∧
    ∀ taken ∈ steps, Agree taken.after := by
  have encodes := intKey_encodes 7 (by decide)
  have first := Run.nil.snoc (sample_step samplePair (.insertEntry (intKey 7) (sampleRecord 0)) encodes)
  have second := first.snoc (sample_step _ (.insertEntry (intKey 7) (sampleRecord 1)) encodes)
  have third := second.snoc (sample_step _ (.deleteEntry (intKey 7) (sampleRecord 0)) encodes)
  have fourth := third.snoc (sample_step _ (.deleteEntry (intKey 7) (sampleRecord 0)) encodes)
  have run := fourth.snoc (sample_step _ (.insertEntry (intKey 7) (sampleRecord 0)) encodes)
  refine ⟨_, _, run, rfl, by decide, (agree_iff (parallel_new IndexMetadata.oneInt) run).mpr ?_⟩
  simp only [nil_append, cons_append, forall_mem_cons, not_mem_nil, false_implies, implies_true, Fresh]
  decide

/-- An entry inserted twice is found twice in the hash index and cannot be
deleted there any more. -/
theorem inserted_twice_disagrees : ∃ steps final, Run (Step IndexMetadata.oneInt.keySchema) samplePair steps final ∧
    steps.map Taken.label = [.insertEntry (intKey 7) (sampleRecord 0), .insertEntry (intKey 7) (sampleRecord 0)] ∧
    final.hash.map (·.scanKey (intKey 7)) = some [sampleRecord 0, sampleRecord 0] ∧
    final.tree.map (·.scanKey (intKey 7)) = some [sampleRecord 0] ∧
    (final.hash.bind (EntryCall.deleteEntry (intKey 7) (sampleRecord 0)).onIndex).isNone = true ∧ ¬ Agree final := by
  have encodes := intKey_encodes 7 (by decide)
  have first := Run.nil.snoc (sample_step samplePair (.insertEntry (intKey 7) (sampleRecord 0)) encodes)
  have run := first.snoc (sample_step _ (.insertEntry (intKey 7) (sampleRecord 0)) encodes)
  have twice : Option.map (·.scanKey (intKey 7)) ((samplePair.hash.bind
      (EntryCall.insertEntry (intKey 7) (sampleRecord 0)).onIndex).bind
      (EntryCall.insertEntry (intKey 7) (sampleRecord 0)).onIndex) = some [sampleRecord 0, sampleRecord 0] := by
    decide
  refine ⟨_, _, run, rfl, twice, by decide, by decide, ?_⟩
  intro ⟨hash, tree, same, agree⟩
  have once := (agree (intKey 7)).1
  have found := (congrArg (Option.map (·.scanKey (intKey 7))) (congrArg IndexPair.hash same)).symm.trans twice
  have listed : hash.scanKey (intKey 7) = [sampleRecord 0, sampleRecord 0] := some.inj found
  rw [listed] at once
  exact absurd once (by decide)

end Sample
end IndexPair
end GoDB.Indexing
