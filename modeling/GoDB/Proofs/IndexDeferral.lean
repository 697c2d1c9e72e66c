import GoDB.Lib.Run
import GoDB.Proofs.IndexEntries
import GoDB.Transaction.Manager

/-! What a transaction's end makes of its index calls. Insertions are applied at
once and deletions at the commit, so an entry that is deleted and then inserted
again is lost. -/

namespace GoDB.Indexing
open Common Lib Storage Transaction List Index TransactionManager Function Option

inductive IndexCall where
  | insert (target : ObjectID) (key : Key) (rid : RecordID)
  | delete (target : ObjectID) (key : Key) (rid : RecordID)

def IndexCall.apply (call : IndexCall) (indexes : Indexes) (txn : Option TransactionContext) :
    Option (Indexes × Option TransactionContext) :=
  match call with
  | .insert target key rid => ((indexes target).insertEntry target key rid txn).map fun (index, txn) =>
      (update indexes target index, txn)
  | .delete target key rid => ((indexes target).deleteEntry target key rid txn).map fun (index, txn) =>
      (update indexes target index, txn)

structure Session where
  indexes : Indexes
  txn : TransactionContext
  immediate : Option Indexes

namespace Session

def start (indexes : Indexes) : Session := ⟨indexes, ⟨[], []⟩, some indexes⟩

def perform (session : Session) (call : IndexCall) : Option Session :=
  (call.apply session.indexes (some session.txn)).bind fun (indexes, txn) => txn.map fun txn =>
    ⟨indexes, txn, session.immediate.bind fun indexes => (call.apply indexes none).map Prod.fst⟩

def Step (before : Session) (call : IndexCall) (after : Session) : Prop := before.perform call = some after

end Session

def SameEntries (first second : Indexes) : Prop := ∀ target, (first target).entries.Perm (second target).entries

/-- A commit now gives what the calls give at once, and an abort now what the
transaction found. -/
def Session.Settles (initial : Indexes) (session : Session) : Prop :=
  (∃ committed applied, commit session.indexes session.txn = some committed ∧
    session.immediate = some applied ∧ SameEntries committed applied) ∧
  ∃ aborted, abort session.indexes session.txn = some aborted ∧ SameEntries aborted initial

/-- An insertion is of an entry that is not queued for deletion and not in the
index; only a tree takes again what the transaction itself inserted. -/
def Session.Admissible (session : Session) : IndexCall → Prop
  | .insert target key rid =>
    (∀ task ∈ session.txn.commitActions, task.target = target →
      ¬ (session.indexes target).Same (key, rid) (task.key, task.rid)) ∧
    ∀ entry ∈ (session.indexes target).entries, (session.indexes target).Same entry (key, rid) →
      (session.indexes target).isHash = false ∧ ∃ task ∈ session.txn.abortActions, task.target = target ∧
        (session.indexes target).Same (key, rid) (task.key, task.rid)
  | .delete _ _ _ => True

instance (session : Session) (call : IndexCall) : Decidable (session.Admissible call) :=
  match call with
  | .insert _ _ _ => inferInstanceAs (Decidable (_ ∧ _))
  | .delete _ _ _ => isTrue trivial

def Spares (tasks : List IndexTask) (target : ObjectID) (index : Index) (entry : Entry) : Prop :=
  ∀ task ∈ tasks, task.target = target → ¬ index.Same entry (task.key, task.rid)

structure Keeps (indexes later : Indexes) : Prop where
  alike : ∀ target, Index.Alike (indexes target) (later target)
  formed : ∀ target, (later target).WellFormed

variable {indexes later : Indexes} {target : ObjectID} {key : Key} {rid : RecordID}

theorem Keeps.trans {third : Indexes} (first : Keeps indexes later) (second : Keeps later third) :
    Keeps indexes third :=
  ⟨fun target => ⟨(second.alike target).metadata.trans (first.alike target).metadata,
    (second.alike target).kind.trans (first.alike target).kind⟩, second.formed⟩

variable {index : Index}

theorem keeps_update (formed : ∀ target, (indexes target).WellFormed)
    (alike : Index.Alike (indexes target) index) (sane : index.WellFormed) :
    Keeps indexes (update indexes target index) := by
  refine ⟨fun other => ?_, fun other => ?_⟩
  all_goals
    by_cases same : other = target
    · subst same
      simpa using (by assumption)
    · rw [update_of_ne same]
      first | exact ⟨rfl, rfl⟩ | exact formed other

theorem mem_update_removed {entry : Entry} (removed : Index.Removed (indexes target) index entry)
    (other : ObjectID) (stored : Entry) : stored ∈ (update indexes target index other).entries ↔
      stored ∈ (indexes other).entries ∧ (target = other → ¬ (indexes other).Same stored entry) := by
  by_cases same : other = target
  · subst same
    simp [removed.mem]
  · simp [same, Ne.symm same]

theorem mem_update_inserted {entry : Entry} (inserted : Index.Inserted (indexes target) index entry)
    (other : ObjectID) (stored : Entry) : stored ∈ (update indexes target index other).entries ↔
      target = other ∧ stored = entry ∨
        stored ∈ (indexes other).entries ∧ (target = other → ¬ (indexes other).Same stored entry) := by
  by_cases same : other = target
  · subst same
    simp [inserted.mem]
  · simp [same, Ne.symm same]

theorem invoke_removes (formed : ∀ target, (indexes target).WellFormed) (task : IndexTask)
    (sized : task.key.length = (indexes task.target).metadata.keySize) :
    ∃ later, indexes.invoke task = some later ∧ Keeps indexes later ∧ ∀ target entry,
      entry ∈ (later target).entries ↔ entry ∈ (indexes target).entries ∧
        (task.target = target → ¬ (indexes target).Same entry (task.key, task.rid)) := by
  obtain ⟨index, invoked, removed⟩ :=
    removed_of_invoke (formed task.target) task.target task.rid sized task.type
  refine ⟨_, by rw [Indexes.invoke, invoked]; rfl, keeps_update formed removed.alike removed.formed, ?_⟩
  exact mem_update_removed removed

theorem tasks_remove (tasks : List IndexTask) (formed : ∀ target, (indexes target).WellFormed)
    (sized : ∀ task ∈ tasks, task.key.length = (indexes task.target).metadata.keySize) :
    ∃ later, tasks.foldlM Indexes.invoke indexes = some later ∧ Keeps indexes later ∧ ∀ target entry,
      entry ∈ (later target).entries ↔ entry ∈ (indexes target).entries ∧ Spares tasks target (indexes target) entry := by
  induction tasks generalizing indexes with
  | nil => exact ⟨indexes, rfl, ⟨fun _ => ⟨rfl, rfl⟩, formed⟩, by simp [Spares]⟩
  | cons task rest ih =>
    obtain ⟨next, invoked, kept, mem⟩ := invoke_removes formed task (sized task (by simp))
    obtain ⟨later, ran, keptLater, memLater⟩ := ih kept.formed (by
      intro other member
      rw [(kept.alike other.target).metadata]
      exact sized other (by simp [member]))
    refine ⟨later, by rw [foldlM_cons, invoked]; exact ran, kept.trans keptLater, ?_⟩
    intro target entry
    rw [memLater, mem]
    simp only [Spares, (kept.alike target).same, forall_mem_cons, and_assoc]

/-- What the transaction has done so far. The entries that its deletions spare
are those the calls leave at once; the entries that its undos spare are those it
found. -/
structure Session.Deferred (initial : Indexes) (session : Session) : Prop where
  kept : Keeps initial session.indexes
  queued : ∀ task ∈ session.txn.commitActions, task.key.length = (initial task.target).metadata.keySize
  undone : ∀ task ∈ session.txn.abortActions, task.key.length = (initial task.target).metadata.keySize
  applied : ∃ applied, session.immediate = some applied ∧ Keeps initial applied ∧ ∀ target entry,
    entry ∈ (applied target).entries ↔ entry ∈ (session.indexes target).entries ∧
      Spares session.txn.commitActions target (initial target) entry
  found : ∀ target entry, entry ∈ (initial target).entries ↔ entry ∈ (session.indexes target).entries ∧
    Spares session.txn.abortActions target (initial target) entry

namespace Session
variable {initial : Indexes} {before after : Session} {call : IndexCall}

theorem sized_tasks (kept : Keeps initial indexes) {tasks : List IndexTask}
    (sized : ∀ task ∈ tasks, task.key.length = (initial task.target).metadata.keySize) :
    ∀ task ∈ tasks, task.key.length = (indexes task.target).metadata.keySize := by
  intro task member
  rw [(kept.alike task.target).metadata]
  exact sized task member

theorem sameEntries_of_mem {first second : Indexes} (firstFormed : ∀ target, (first target).WellFormed)
    (secondFormed : ∀ target, (second target).WellFormed)
    (mem : ∀ target entry, entry ∈ (first target).entries ↔ entry ∈ (second target).entries) :
    SameEntries first second := by
  intro target
  exact (perm_ext_iff_of_nodup (nodup_entries (firstFormed target)) (nodup_entries (secondFormed target))).mpr (mem target)

theorem Deferred.settles (formed : ∀ target, (initial target).WellFormed) (deferred : Deferred initial before) :
    Settles initial before := by
  have same : ∀ target, (before.indexes target).Same = (initial target).Same :=
    fun target => (deferred.kept.alike target).same
  obtain ⟨applied, immediate, keptApplied, memApplied⟩ := deferred.applied
  obtain ⟨committed, ran, keptCommitted, memCommitted⟩ := tasks_remove before.txn.commitActions
    deferred.kept.formed (sized_tasks deferred.kept deferred.queued)
  obtain ⟨aborted, undid, keptAborted, memAborted⟩ := tasks_remove before.txn.abortActions.reverse
    deferred.kept.formed (sized_tasks deferred.kept (by simpa using deferred.undone))
  refine ⟨⟨committed, applied, ran, immediate, ?_⟩, aborted, undid, ?_⟩
  · apply sameEntries_of_mem keptCommitted.formed keptApplied.formed
    intro target entry
    simp only [memCommitted, memApplied, Spares, same]
  · apply sameEntries_of_mem keptAborted.formed formed
    intro target entry
    simp [memAborted, deferred.found, Spares, same]

theorem Step.applied (taken : before.Step call after) :
    call.apply before.indexes (some before.txn) = some (after.indexes, some after.txn) ∧
      after.immediate = before.immediate.bind fun indexes => (call.apply indexes none).map Prod.fst := by
  obtain ⟨⟨indexes, txn⟩, applied, rest⟩ := bind_eq_some_iff.mp taken
  obtain ⟨txn, rfl, rfl⟩ := map_eq_some_iff.mp rest
  exact ⟨applied, rfl⟩

theorem insert_step (taken : before.Step (.insert target key rid) after) : ∃ index,
    (before.indexes target).insertEntry target key rid (some before.txn) = some (index, some after.txn) ∧
      key.length = (before.indexes target).metadata.keySize ∧
      after.indexes = update before.indexes target index ∧
      after.txn = before.txn.addAbortTask ⟨target, .undoInsert, key, rid⟩ := by
  obtain ⟨⟨index, txn⟩, insertion, same⟩ := map_eq_some_iff.mp taken.applied.1
  have sized := sized_of_insertEntry insertion
  obtain ⟨other, inserted⟩ := @insertEntry_eq (before.indexes target) target key rid (some before.txn) sized
  cases inserted.symm.trans insertion
  obtain ⟨indexes, txns⟩ := Prod.mk.inj same
  have txn : after.txn = before.txn.addAbortTask ⟨target, .undoInsert, key, rid⟩ := (some.inj txns).symm
  exact ⟨index, by rw [txn]; exact insertion, sized, indexes.symm, txn⟩

section
variable (deferred : Deferred initial before)

include deferred

theorem inserted_both (taken : before.Step (.insert target key rid) after)
    (room : (before.indexes target).isHash = true → (key, rid) ∉ (before.indexes target).entries) :
    Keeps initial after.indexes ∧
    (∀ other stored, stored ∈ (after.indexes other).entries ↔ target = other ∧ stored = (key, rid) ∨
      stored ∈ (before.indexes other).entries ∧ (target = other → ¬ (initial other).Same stored (key, rid))) ∧
    ∃ applied, after.immediate = some applied ∧ Keeps initial applied ∧ ∀ other stored,
      stored ∈ (applied other).entries ↔ target = other ∧ stored = (key, rid) ∨
        (stored ∈ (before.indexes other).entries ∧ Spares before.txn.commitActions other (initial other) stored) ∧
          (target = other → ¬ (initial other).Same stored (key, rid)) := by
  obtain ⟨index, insertion, sized, indexes, -⟩ := insert_step taken
  obtain ⟨applied, immediate, kept, mem⟩ := deferred.applied
  have inserted := inserted_of_insertEntry (deferred.kept.formed target) room insertion
  have sizedApplied : key.length = (applied target).metadata.keySize := by
    rw [sized, (deferred.kept.alike target).metadata, (kept.alike target).metadata]
  obtain ⟨index', insertion'⟩ := @insertEntry_eq (applied target) target key rid none sizedApplied
  have roomApplied : (applied target).isHash = true → (key, rid) ∉ (applied target).entries := by
    intro hash listed
    refine room ?_ ((mem target _).mp listed).1
    rw [(deferred.kept.alike target).kind, ← (kept.alike target).kind, hash]
  have inserted' := inserted_of_insertEntry (kept.formed target) roomApplied insertion'
  refine ⟨?_, ?_, update applied target index', ?_, ?_, ?_⟩
  · rw [indexes]
    exact deferred.kept.trans (keeps_update deferred.kept.formed inserted.alike inserted.formed)
  · intro other stored
    rw [indexes, mem_update_inserted inserted, (deferred.kept.alike other).same]
  · rw [taken.applied.2, immediate]
    simp [IndexCall.apply, insertion']
  · exact kept.trans (keeps_update kept.formed inserted'.alike inserted'.formed)
  · intro other stored
    rw [mem_update_inserted inserted', (kept.alike other).same, mem]

omit deferred in
theorem spares_append (tasks : List IndexTask) (task : IndexTask) (target : ObjectID) (index : Index) (entry : Entry) :
    Spares (tasks ++ [task]) target index entry ↔
      Spares tasks target index entry ∧ (task.target = target → ¬ index.Same entry (task.key, task.rid)) := by
  simp [Spares, or_imp, forall_and]

theorem Deferred.insert (taken : before.Step (.insert target key rid) after)
    (admissible : before.Admissible (.insert target key rid)) : Deferred initial after := by
  obtain ⟨unqueued, own⟩ := admissible
  have same : ∀ other, (before.indexes other).Same = (initial other).Same :=
    fun other => (deferred.kept.alike other).same
  simp only [same] at unqueued own
  have reflexive := (same_equivalence (initial target)).refl
  obtain ⟨index, -, sized, -, txn⟩ := insert_step taken
  obtain ⟨kept, mem, applied, immediate, keptApplied, memApplied⟩ := inserted_both deferred taken (by
    intro hash listed
    have tree := (own _ listed (reflexive _)).1
    rw [hash] at tree
    cases tree)
  have commits : after.txn.commitActions = before.txn.commitActions := by rw [txn]; rfl
  have aborts : after.txn.abortActions = before.txn.abortActions ++ [⟨target, .undoInsert, key, rid⟩] := by rw [txn]; rfl
  refine ⟨kept, ?_, ?_, ⟨applied, immediate, keptApplied, ?_⟩, ?_⟩
  · rw [commits]
    exact deferred.queued
  · rw [aborts]
    intro task member
    rcases List.mem_append.mp member with old | new
    · exact deferred.undone task old
    · cases List.mem_singleton.mp new
      rw [← (deferred.kept.alike target).metadata]
      exact sized
  · intro other stored
    rw [memApplied, mem, commits]
    constructor
    · rintro (⟨rfl, rfl⟩ | ⟨⟨listed, spared⟩, apart⟩)
      · exact ⟨.inl ⟨rfl, rfl⟩, unqueued⟩
      · exact ⟨.inr ⟨listed, apart⟩, spared⟩
    · rintro ⟨new | ⟨listed, apart⟩, spared⟩
      · exact .inl new
      · exact .inr ⟨⟨listed, spared⟩, apart⟩
  · intro other stored
    rw [deferred.found, mem, aborts, spares_append]
    constructor
    · intro ⟨listed, spared⟩
      have apart : target = other → ¬ (initial other).Same stored (key, rid) := by
        rintro rfl alike
        obtain ⟨-, task, undo, about, similar⟩ := own stored listed alike
        exact spared task undo about ((same_equivalence _).trans alike similar)
      exact ⟨.inr ⟨listed, apart⟩, spared, apart⟩
    · rintro ⟨⟨rfl, rfl⟩ | ⟨listed, _⟩, spared, apart⟩
      · exact absurd (reflexive _) (apart rfl)
      · exact ⟨listed, spared⟩

theorem deleted_both (taken : before.Step (.delete target key rid) after) : after.indexes = before.indexes ∧
    (after.txn = before.txn ∧ (∀ entry ∈ (before.indexes target).entries, ¬ (initial target).Same entry (key, rid)) ∨
      ∃ stored, after.txn = before.txn.addCommitTask ⟨target, .delete, stored, rid⟩ ∧
        (initial target).Same (stored, rid) (key, rid) ∧ stored.length = (initial target).metadata.keySize) ∧
    ∃ applied, after.immediate = some applied ∧ Keeps initial applied ∧ ∀ other entry, entry ∈ (applied other).entries ↔
        (entry ∈ (before.indexes other).entries ∧ Spares before.txn.commitActions other (initial other) entry) ∧
          (target = other → ¬ (initial other).Same entry (key, rid)) := by
  obtain ⟨⟨index, txn⟩, deletion, same⟩ := map_eq_some_iff.mp taken.applied.1
  obtain ⟨rfl, sized, queue⟩ := deferred_of_deleteEntry (deferred.kept.formed target) deletion
  obtain ⟨indexes, txns⟩ := Prod.mk.inj same
  simp only [update_eq_self] at indexes
  rw [(deferred.kept.alike target).same, (deferred.kept.alike target).metadata] at queue
  obtain ⟨applied, immediate, kept, mem⟩ := deferred.applied
  have sizedApplied : key.length = (applied target).metadata.keySize := by
    rw [sized, (deferred.kept.alike target).metadata, (kept.alike target).metadata]
  obtain ⟨index', deletion', removed⟩ :=
    removed_of_deleteEntry (kept.formed target) target rid sizedApplied
  refine ⟨indexes.symm, ?_, update applied target index', ?_, ?_, ?_⟩
  · rcases queue with ⟨unchanged, absent⟩ | ⟨stored, queued, rest⟩
    · exact .inl ⟨some.inj (txns.symm.trans unchanged), absent⟩
    · exact .inr ⟨stored, some.inj (txns.symm.trans queued), rest⟩
  · rw [taken.applied.2, immediate]
    simp [IndexCall.apply, deletion']
  · exact kept.trans (keeps_update kept.formed removed.alike removed.formed)
  · intro other entry
    rw [mem_update_removed removed, (kept.alike other).same, mem]

theorem Deferred.delete (taken : before.Step (.delete target key rid) after) : Deferred initial after := by
  obtain ⟨indexes, queue, applied, immediate, keptApplied, memApplied⟩ := deleted_both deferred taken
  rcases queue with ⟨txn, absent⟩ | ⟨stored, txn, alike, sized⟩
  · refine ⟨indexes ▸ deferred.kept, txn ▸ deferred.queued, txn ▸ deferred.undone,
      ⟨applied, immediate, keptApplied, ?_⟩, by rw [indexes, txn]; exact deferred.found⟩
    intro other entry
    rw [memApplied, indexes, txn]
    refine ⟨And.left, fun kept => ⟨kept, ?_⟩⟩
    rintro rfl
    exact absent entry kept.1
  · have commits : after.txn.commitActions = before.txn.commitActions ++ [⟨target, .delete, stored, rid⟩] := by
      rw [txn]; rfl
    have aborts : after.txn.abortActions = before.txn.abortActions := by rw [txn]; rfl
    refine ⟨indexes ▸ deferred.kept, ?_, aborts ▸ deferred.undone, ⟨applied, immediate, keptApplied, ?_⟩,
      by rw [indexes, aborts]; exact deferred.found⟩
    · rw [commits]
      intro task member
      rcases List.mem_append.mp member with old | new
      · exact deferred.queued task old
      · cases List.mem_singleton.mp new
        exact sized
    · intro other entry
      have equivalence := same_equivalence (initial target)
      rw [memApplied, indexes, commits, spares_append, and_assoc]
      refine and_congr_right fun _ => and_congr_right fun _ => ?_
      constructor
      · rintro apart rfl similar
        exact apart rfl (equivalence.trans similar alike)
      · rintro apart rfl similar
        exact apart rfl (equivalence.trans similar (equivalence.symm alike))

omit deferred in
theorem deferred_start (formed : ∀ target, (initial target).WellFormed) : Deferred initial (start initial) := by
  have kept : Keeps initial initial := ⟨fun _ => ⟨rfl, rfl⟩, formed⟩
  exact ⟨kept, by simp [start], by simp [start], ⟨initial, rfl, kept, by simp [start, Spares]⟩, by simp [start, Spares]⟩

theorem deferred_step (admissible : before.Admissible call) (taken : before.Step call after) : Deferred initial after := by
  cases call with
  | insert => exact deferred.insert taken admissible
  | delete => exact deferred.delete taken

omit deferred in
theorem room_of_abort (taken : before.Step (.insert target key rid) after) {aborted : Indexes}
    (undid : abort after.indexes after.txn = some aborted)
    (hash : (before.indexes target).isHash = true) : (key, rid) ∉ (before.indexes target).entries := by
  intro listed
  obtain ⟨index, insertion, -, indexes, txn⟩ := insert_step taken
  cases shape : before.indexes target with
  | btree => simp [shape, isHash] at hash
  | hash stored =>
    rw [shape] at insertion listed
    have stuck := invoke_repeated listed insertion .undoInsert
    have task : after.indexes.invoke ⟨target, .undoInsert, key, rid⟩ = none := by
      simp [Indexes.invoke, indexes, stuck]
    simp [abort, txn, TransactionContext.addAbortTask, task] at undid

theorem admissible_of_settles (taken : before.Step call after)
    (settles : Settles initial after) : before.Admissible call := by
  cases call with
  | delete => trivial
  | insert target key rid =>
    obtain ⟨⟨committed, applied, ran, immediate, commits⟩, aborted, undid, aborts⟩ := settles
    have room := room_of_abort taken undid
    obtain ⟨index, -, sized, -, txn⟩ := insert_step taken
    obtain ⟨kept, mem, applied', immediate', -, memApplied⟩ := inserted_both deferred taken room
    cases immediate.symm.trans immediate'
    have equivalence := same_equivalence (initial target)
    have same := (deferred.kept.alike target).same
    have keptSame := (kept.alike target).same
    refine ⟨?_, ?_⟩
    · intro task queued about similar
      have queue : after.txn.commitActions = before.txn.commitActions := by rw [txn]; rfl
      obtain ⟨later, ran', -, memLater⟩ := tasks_remove after.txn.commitActions kept.formed
        (sized_tasks kept (queue ▸ deferred.queued))
      cases ran.symm.trans ran'
      have present := (commits target).mem_iff.mpr ((memApplied target (key, rid)).mpr (.inl ⟨rfl, rfl⟩))
      have spared := ((memLater target (key, rid)).mp present).2 task (queue ▸ queued) about
      rw [keptSame, ← same] at spared
      exact spared similar
    · intro entry listed alike
      have tree : (before.indexes target).isHash = false := by
        by_contra hash
        rw [Bool.not_eq_false] at hash
        cases eq_of_same_hash hash alike
        exact room hash listed
      rw [same] at alike ⊢
      refine ⟨tree, ?_⟩
      by_contra fresh
      have undone : after.txn.abortActions = before.txn.abortActions ++ [⟨target, .undoInsert, key, rid⟩] := by
        rw [txn]; rfl
      obtain ⟨later, undid', -, memLater⟩ := tasks_remove after.txn.abortActions.reverse kept.formed
        (sized_tasks kept (by
          rw [undone]
          simpa [or_imp, forall_and, ← (deferred.kept.alike target).metadata] using And.intro sized deferred.undone))
      cases undid.symm.trans undid'
      have found : entry ∈ (initial target).entries := (deferred.found target entry).mpr ⟨listed, by
        intro task undo about similar
        exact fresh ⟨task, undo, about, equivalence.trans (equivalence.symm alike) similar⟩⟩
      have spared := ((memLater target entry).mp ((aborts target).mem_iff.mpr found)).2
      rw [undone] at spared
      have apart := spared ⟨target, .undoInsert, key, rid⟩ (by simp) rfl
      rw [keptSame] at apart
      exact apart alike

end

/-- A transaction's calls end as they should, at every point where it may end,
exactly if each insertion is of an entry that it has not queued for deletion and
that is not in the index already, save where it inserted it into a tree itself. -/
theorem settles_throughout_iff (formed : ∀ target, (initial target).WellFormed)
    {steps : List (Taken Session IndexCall)} {final : Session} (run : Run Step (start initial) steps final) :
    (∀ taken ∈ steps, Settles initial taken.after) ↔ ∀ taken ∈ steps, taken.before.Admissible taken.label := by
  apply run.reached_iff Admissible (Deferred initial) (Settles initial) (deferred_start formed)
  · intro before call after deferred admissible taken
    exact deferred_step deferred admissible taken
  · intro before call after deferred taken
    constructor
    · exact admissible_of_settles deferred taken
    · intro admissible
      exact (deferred_step deferred admissible taken).settles formed

section Sample

def sampleRow : RecordID := ⟨⟨1, 0⟩, 0⟩

def sampleIndexes : Indexes := fun target =>
  if target = 1 then .btree (.ofItems IndexMetadata.oneInt [⟨intKey 1, sampleRow⟩])
  else .hash ⟨IndexMetadata.oneInt, (∅ : GoMap Key (List RecordID)).insert (intKey 1) [sampleRow]⟩

theorem sampleIndexes_wellFormed (target : ObjectID) : (sampleIndexes target).WellFormed := by
  unfold sampleIndexes
  split
  · refine ⟨?_, by decide⟩
    intro _ impossible
    cases impossible
  · refine ⟨?_, by decide⟩
    intro hash same key
    cases same
    unfold MemHashIndex.bucket
    by_cases same : key = intKey 1
    · subst same
      rw [AList.lookup_insert]
      exact nodup_singleton _
    · rw [AList.lookup_insert_ne same]
      exact nodup_nil

theorem key_moved_settles : ∃ steps final, Run Step (start sampleIndexes) steps final ∧
    steps.map Taken.label = [.delete 1 (intKey 1) sampleRow, .insert 1 (intKey 2) sampleRow,
      .delete 2 (intKey 1) sampleRow, .insert 2 (intKey 2) sampleRow] ∧
    ∀ taken ∈ steps, Settles sampleIndexes taken.after := by
  have first := (@Run.nil _ _ Step (start sampleIndexes)).extend (.delete 1 (intKey 1) sampleRow) rfl
  have second := first.extend (.insert 1 (intKey 2) sampleRow) rfl
  have third := second.extend (.delete 2 (intKey 1) sampleRow) rfl
  have run := third.extend (.insert 2 (intKey 2) sampleRow) rfl
  refine ⟨_, _, run, rfl, (settles_throughout_iff sampleIndexes_wellFormed run).mpr ?_⟩
  simp only [nil_append, cons_append, forall_mem_cons]
  refine ⟨?_, ?_, ?_, ?_, ?_⟩
  · trivial
  · decide
  · trivial
  · decide
  · simp

/-- The row's key moved away and back: the commit drops its entry from the tree,
and in the hash index it runs out of range. -/
theorem key_moved_back_lost : (∃ steps final, Run Step (start sampleIndexes) steps final ∧
      steps.map Taken.label = [.delete 1 (intKey 1) sampleRow, .insert 1 (intKey 2) sampleRow,
        .delete 1 (intKey 2) sampleRow, .insert 1 (intKey 1) sampleRow] ∧
      final.immediate.map (fun applied => (applied 1).entries) = some [(intKey 1, sampleRow)] ∧
      (commit final.indexes final.txn).map (fun committed => (committed 1).entries) = some [] ∧
      ¬ Settles sampleIndexes final) ∧
    ∃ steps final, Run Step (start sampleIndexes) steps final ∧
      steps.map Taken.label = [.delete 2 (intKey 1) sampleRow, .insert 2 (intKey 2) sampleRow,
        .delete 2 (intKey 2) sampleRow, .insert 2 (intKey 1) sampleRow] ∧
      commit final.indexes final.txn = none ∧ ¬ Settles sampleIndexes final := by
  refine ⟨?_, ?_⟩
  · have first := (@Run.nil _ _ Step (start sampleIndexes)).extend (.delete 1 (intKey 1) sampleRow) rfl
    have second := first.extend (.insert 1 (intKey 2) sampleRow) rfl
    have third := second.extend (.delete 1 (intKey 2) sampleRow) rfl
    have run := third.extend (.insert 1 (intKey 1) sampleRow) rfl
    refine ⟨_, _, run, rfl, rfl, rfl, ?_⟩
    rintro ⟨⟨committed, applied, commits, immediate, same⟩, -⟩
    cases commits
    cases immediate
    exact absurd (same 1).length_eq (by decide)
  · have first := (@Run.nil _ _ Step (start sampleIndexes)).extend (.delete 2 (intKey 1) sampleRow) rfl
    have second := first.extend (.insert 2 (intKey 2) sampleRow) rfl
    have third := second.extend (.delete 2 (intKey 2) sampleRow) rfl
    have run := third.extend (.insert 2 (intKey 1) sampleRow) rfl
    refine ⟨_, _, run, rfl, rfl, ?_⟩
    rintro ⟨⟨committed, applied, commits, -⟩, -⟩
    cases commits

end Sample
end Session
end GoDB.Indexing
