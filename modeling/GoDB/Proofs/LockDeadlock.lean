import GoDB.Lib.Acyclic
import GoDB.Proofs.LockSteps

/-! The waits-for relation never closes a cycle. The search at the enqueue keeps
out the edges that would; every other section adds edges only into a transaction
that waits for nobody. -/

namespace GoDB.Transaction
open Common Lib List LockManager

namespace LockManager

/-- The waiter is queued on a tag that another transaction holds. -/
def WaitsFor (lm : LockManager) (waiter holder : TransactionID) : Prop :=
  ∃ tag, waiter ∈ lm.queued tag ∧ holder ≠ waiter ∧ lm.held tag holder ≠ none

variable {lm rest : LockManager} {tid : TransactionID} {tag : DBLockTag} {mode : DBLockMode}

theorem held_iff_entry (holder : TransactionID) :
    lm.held tag holder ≠ none ↔ holder ∈ (lm.holders tag).entries.map Sigma.fst := by
  rw [held, Ne, AList.lookup_eq_none, not_not, AList.mem_keys]
  rfl

theorem mem_queued_iff (waiter : TransactionID) :
    waiter ∈ lm.queued tag ↔ ∃ waiters, ⟨tag, waiters⟩ ∈ lm.waitqueue.entries ∧ waiter ∈ waiters := by
  unfold queued
  constructor
  · intro member
    cases listed : lm.waitqueue.lookup tag with
    | none => simp [listed] at member
    | some waiters => exact ⟨waiters, AList.mem_lookup_iff.mp listed, by simpa [listed] using member⟩
  · intro ⟨waiters, entry, member⟩
    rw [AList.mem_lookup_iff.mpr entry]
    exact member

variable (order : RangeOrder)

theorem mem_waitsOn_iff (visited : List TransactionID) (waiter holder : TransactionID) :
    holder ∈ lm.waitsOn order visited waiter ↔ lm.WaitsFor waiter holder := by
  unfold waitsOn WaitsFor
  simp only [mem_flatMap, (order.waitqueue_perm _ _).mem_iff]
  constructor
  · intro ⟨⟨tag, waiters⟩, entry, waiting, queued, listed⟩
    split at listed
    next same =>
      subst same
      simp only [mem_filter, ((order.holders_perm _ _ _).map _).mem_iff, decide_eq_true_eq] at listed
      exact ⟨tag, (mem_queued_iff _).mpr ⟨waiters, entry, queued⟩, listed.2, (held_iff_entry _).mpr listed.1⟩
    next => cases listed
  · intro ⟨tag, queued, apart, holds⟩
    obtain ⟨waiters, entry, member⟩ := (mem_queued_iff _).mp queued
    refine ⟨⟨tag, waiters⟩, entry, waiter, member, ?_⟩
    simp only [if_true, mem_filter, ((order.holders_perm _ _ _).map _).mem_iff, decide_eq_true_eq]
    exact ⟨(held_iff_entry _).mp holds, apart⟩

variable {holder : TransactionID}

theorem mem_holderIDs (holds : lm.held tag holder ≠ none) : holder ∈ lm.holderIDs := by
  have member := (held_iff_entry _).mp holds
  unfold holders at member
  cases found : lm.locks.lookup tag with
  | none => simp [found] at member
  | some holders =>
    rw [found, Option.getD_some] at member
    exact mem_flatMap.mpr ⟨⟨tag, holders⟩, AList.mem_lookup_iff.mp found, member⟩

theorem dfs_iff {fuel : Nat} (enough : lm.holderIDs.length + 2 ≤ fuel) : ∃ answer,
    lm.dfs order tid fuel [] tid = some answer ∧ (answer.1 = true ↔ Relation.TransGen lm.WaitsFor tid tid) := by
  have graph : DepthFirst.Lists (lm.waitsOn order) lm.WaitsFor (insert tid lm.holderIDs.toFinset) := by
    refine ⟨fun visited waiter holder => mem_waitsOn_iff order visited waiter holder, ?_⟩
    intro waiter holder ⟨tag, _, _, holds⟩
    simp [mem_holderIDs holds]
  apply DepthFirst.visit_iff_cycle graph _ (Finset.mem_insert_self ..)
  have inserted := Finset.card_insert_le tid lm.holderIDs.toFinset
  have listed := lm.holderIDs.toFinset_card_le
  omega

theorem hasDeadLock_iff : lm.hasDeadLock order tid tag = true ↔ Relation.TransGen lm.WaitsFor tid tid := by
  obtain ⟨answer, answers, exactly⟩ := dfs_iff order (Nat.le_refl _)
  rwa [hasDeadLock, answers, Option.any_some]

/-- The search ends: more fuel makes no difference. In whatever order it goes, it answers
exactly whether the transaction waits for itself. -/
theorem search_finds_cycles (lm : LockManager) (order : RangeOrder) (tid : TransactionID) (tag : DBLockTag) :
    (∀ fuel, lm.holderIDs.length + 2 ≤ fuel →
      ∃ visited, lm.dfs order tid fuel [] tid = some (lm.hasDeadLock order tid tag, visited)) ∧
      (lm.hasDeadLock order tid tag = true ↔ Relation.TransGen lm.WaitsFor tid tid) := by
  refine ⟨fun fuel enough => ?_, hasDeadLock_iff order⟩
  obtain ⟨⟨found, visited⟩, answers, exactly⟩ := dfs_iff order enough
  have same : found = lm.hasDeadLock order tid tag := Bool.eq_iff_iff.mpr (exactly.trans (hasDeadLock_iff order).symm)
  exact ⟨visited, same ▸ answers⟩

theorem Vacated.held_of (vacated : lm.Vacated rest tid tag) {tag' : DBLockTag}
    (holds : rest.held tag' holder ≠ none) : lm.held tag' holder ≠ none := by
  rw [vacated.held] at holds
  split at holds
  · exact absurd rfl holds
  · exact holds

end LockManager

namespace System

def waiting (sleepers : List Sleeper) : List (TransactionID × DBLockTag) :=
  sleepers.map fun sleeper => (sleeper.tid, sleeper.tag)

def Queues (system : System) : Prop :=
  ∀ tag tid, (system.lm.queued tag).count tid = (waiting system.sleepers).count (tid, tag)

/-- A transaction calls `Lock` only when no earlier call of its own is asleep. -/
def OneOutstanding (system : System) : Call → Prop
  | .lock _ tid _ _ => ∀ sleeper ∈ system.sleepers, sleeper.tid ≠ tid
  | .wake _ | .unlock _ _ => True

structure Orderly (system : System) : Prop where
  queues : system.Queues
  single : ((waiting system.sleepers).map Prod.fst).Nodup
  acyclic : Acyclic system.lm.WaitsFor

variable {before after : System} {label : Call × Event}

theorem waiting_append (sleepers : List Sleeper) (sleeper : Sleeper) :
    waiting (sleepers ++ [sleeper]) = waiting sleepers ++ [(sleeper.tid, sleeper.tag)] := by
  simp [waiting]

theorem waiting_broadcast (sleepers : List Sleeper) : waiting (broadcast sleepers) = waiting sleepers := by
  simp [waiting, broadcast]

variable {tid : TransactionID} {tag : DBLockTag} {mode : DBLockMode} {sleepers : List Sleeper}

theorem waiting_set {index : Nat} {woken : Bool} (asleep : sleepers[index]? = some ⟨tid, tag, mode, woken⟩) :
    waiting (sleepers.set index ⟨tid, tag, mode, false⟩) = waiting sleepers := by
  unfold waiting
  rw [map_set]
  apply ext_getElem?
  intro other
  by_cases same : index = other
  · subst other
    obtain ⟨inside, found⟩ := List.getElem?_eq_some_iff.mp asleep
    simp [inside, found]
  · simp [getElem?_set_ne same]

theorem waiting_eraseIdx {index : Nat} {woken : Bool} (asleep : sleepers[index]? = some ⟨tid, tag, mode, woken⟩) :
    ((tid, tag) :: waiting (sleepers.eraseIdx index)).Perm (waiting sleepers) := by
  obtain ⟨inside, found⟩ := List.getElem?_eq_some_iff.mp asleep
  have perm := (getElem_cons_eraseIdx_perm inside).map fun sleeper => (sleeper.tid, sleeper.tag)
  rw [found] at perm
  exact perm

theorem queues_step (queues : before.Queues) (taken : before.Step label after) : after.Queues := by
  intro tag' tid'
  have count := queues tag' tid'
  cases effect_of_step taken with
  | reentered | absent => exact count
  | admitted own free vacated =>
    rw [queued_grant, vacated.queued]
    exact count
  | @refused order tid tag mode rest own blocked vacated deadlock =>
    rw [queued_removeFromWaitQueue, queued_enqueue, queued_enqueue, if_pos rfl, vacated.queued, vacated.queued]
    by_cases same : tag' = tag
    · subst tag'
      rw [if_pos rfl, ((perm_append_singleton tid _).erase tid).count_eq, erase_cons_head]
      exact count
    · rw [if_neg same, if_neg same]
      exact count
  | @enqueued order tid tag mode rest own blocked vacated clear =>
    rw [queued_enqueue, waiting_append, count_append, vacated.queued, vacated.queued]
    by_cases same : tag' = tag
    · subst tag'
      rw [if_pos rfl, count_append, count]
      simp [count_singleton, waiting]
    · rw [if_neg same, count]
      simp [waiting, Ne.symm same]
  | stayed asleep blocked =>
    rw [waiting_set asleep]
    exact count
  | @woke index tid tag mode asleep free =>
    have perm := waiting_eraseIdx asleep
    have split := perm.count_eq (tid', tag')
    rw [queued_grant, queued_removeFromWaitQueue]
    rw [count_cons] at split
    by_cases same : tag' = tag
    · subst tag'
      rw [if_pos rfl, count_erase, count, ← split]
      by_cases own : tid' = tid
      · simp [own]
      · simp [Ne.symm own]
    · rw [if_neg same, count, ← split]
      simp [Ne.symm same]
  | released own vacated awoken =>
    rw [vacated.queued, awoken]
    split
    · exact count
    · rw [waiting_broadcast]
      exact count

theorem single_step (single : ((waiting before.sleepers).map Prod.fst).Nodup) (alone : before.OneOutstanding label.1)
    (taken : before.Step label after) : ((waiting after.sleepers).map Prod.fst).Nodup := by
  cases effect_of_step taken with
  | @enqueued order tid tag mode rest =>
    rw [waiting_append, map_append, nodup_append]
    refine ⟨single, by simp, ?_⟩
    intro first member second same
    cases mem_singleton.mp same
    simp only [waiting, map_map, mem_map] at member
    obtain ⟨sleeper, asleep, rfl⟩ := member
    exact alone sleeper asleep
  | stayed asleep blocked =>
    rw [waiting_set asleep]
    exact single
  | woke asleep free =>
    have perm := (waiting_eraseIdx asleep).map Prod.fst
    exact (nodup_cons.mp (perm.nodup_iff.mpr single)).2
  | released own vacated awoken =>
    rw [awoken]
    split
    · exact single
    · rw [waiting_broadcast]
      exact single
  | _ => exact single

theorem not_queued (queues : before.Queues)
    (awake : tid ∉ (waiting before.sleepers).map Prod.fst) (tag : DBLockTag) : tid ∉ before.lm.queued tag := by
  rw [← count_eq_zero, queues, count_eq_zero]
  intro member
  exact awake (mem_map.mpr ⟨_, member, rfl⟩)

theorem awake_of_alone {order : RangeOrder}
    (alone : before.OneOutstanding (.lock order tid tag mode)) : tid ∉ (waiting before.sleepers).map Prod.fst := by
  intro member
  simp only [waiting, map_map, mem_map] at member
  obtain ⟨sleeper, asleep, same⟩ := member
  exact alone sleeper asleep same

/-- A grant adds edges into its owner only, and an owner that is not queued
waits for nobody. -/
theorem acyclic_grant {lm : LockManager} (acyclic : Acyclic before.lm.WaitsFor)
    (queued : ∀ tag' waiter, waiter ∈ lm.queued tag' → waiter ∈ before.lm.queued tag')
    (held : ∀ tag' holder, ¬ (tag' = tag ∧ holder = tid) → lm.held tag' holder = before.lm.held tag' holder)
    (awake : ∀ tag', tid ∉ lm.queued tag') : Acyclic (lm.grant tid tag mode).WaitsFor := by
  apply acyclic.add_sink
  · intro waiter holder ⟨tag', waits, apart, holds⟩
    by_cases own : holder = tid
    · exact .inr own
    · have other : ¬ (tag' = tag ∧ holder = tid) := fun both => own both.2
      rw [held_grant, if_neg other, held tag' holder other] at holds
      exact .inl ⟨tag', queued tag' waiter waits, apart, holds⟩
  · intro holder ⟨tag', waits, _⟩
    exact awake tag' waits

theorem acyclic_step (orderly : before.Orderly) (alone : before.OneOutstanding label.1)
    (taken : before.Step label after) : Acyclic after.lm.WaitsFor := by
  have queues := queues_step orderly.queues taken
  have single := single_step orderly.single alone taken
  cases effect_of_step taken with
  | reentered | absent | stayed => exact orderly.acyclic
  | @admitted order tid tag mode rest own free vacated =>
    refine acyclic_grant orderly.acyclic ?_ ?_ ?_
    · intro tag' waiter member
      rwa [vacated.queued] at member
    · intro tag' holder other
      rw [vacated.held, if_neg other]
    · intro tag'
      rw [vacated.queued]
      exact not_queued orderly.queues (awake_of_alone alone) tag'
  | @refused order tid tag mode rest own blocked vacated deadlock =>
    apply orderly.acyclic.mono
    intro waiter holder ⟨tag', waits, apart, holds⟩
    rw [← count_pos_iff, queues, ← orderly.queues, count_pos_iff] at waits
    exact ⟨tag', waits, apart, vacated.held_of holds⟩
  | @enqueued order tid tag mode rest own blocked vacated clear =>
    have clear : ¬ Relation.TransGen (rest.enqueue tid tag).WaitsFor tid tid := by
      rw [← hasDeadLock_iff order, clear]
      exact Bool.false_ne_true
    refine orderly.acyclic.add_source ?_ clear
    intro waiter holder ⟨tag', waits, apart, holds⟩
    by_cases own : waiter = tid
    · exact .inr own
    · refine .inl ⟨tag', ?_, apart, vacated.held_of holds⟩
      rw [queued_enqueue, vacated.queued, vacated.queued] at waits
      split at waits
      next same => simpa [same, own] using waits
      next => exact waits
  | @woke index tid tag mode asleep free =>
    have alone := (nodup_cons.mp (((waiting_eraseIdx asleep).map Prod.fst).nodup_iff.mpr orderly.single)).1
    refine acyclic_grant orderly.acyclic ?_ (fun _ _ _ => rfl) (not_queued queues alone)
    intro tag' waiter member
    rw [queued_removeFromWaitQueue] at member
    split at member
    next same => exact same ▸ mem_of_mem_erase member
    next => exact member
  | @released tid tag mode rest sleepers own vacated awoken =>
    apply orderly.acyclic.mono
    intro waiter holder ⟨tag', waits, apart, holds⟩
    rw [vacated.queued] at waits
    exact ⟨tag', waits, apart, vacated.held_of holds⟩

theorem orderly_initial : Orderly initial :=
  ⟨fun _ _ => rfl, nodup_nil, .of_empty fun _ _ ⟨_, queued, _⟩ => nomatch queued⟩

theorem orderly_step (orderly : before.Orderly) (alone : before.OneOutstanding label.1)
    (taken : before.Step label after) : after.Orderly :=
  ⟨queues_step orderly.queues taken, single_step orderly.single alone taken, acyclic_step orderly alone taken⟩

theorem Orderly.exists_unblocked {system : System} (orderly : system.Orderly) (tid : TransactionID) :
    ∃ last, Relation.ReflTransGen system.lm.WaitsFor tid last ∧
      ∀ sleeper ∈ system.sleepers, sleeper.tid = last → ¬ system.lm.Blocked last sleeper.tag sleeper.mode := by
  obtain ⟨last, path, ends⟩ := orderly.acyclic.exists_end
    (fun _ _ ⟨_, _, _, holds⟩ => mem_toFinset.mpr (mem_holderIDs holds)) tid
  refine ⟨last, path, ?_⟩
  rintro sleeper asleep rfl ⟨other, existing, apart, holds, -⟩
  have counted : 0 < (system.lm.queued sleeper.tag).count sleeper.tid := by
    rw [orderly.queues, count_pos_iff]
    exact mem_map_of_mem asleep
  exact ends other ⟨sleeper.tag, count_pos_iff.mp counted, apart, by simp [holds]⟩

/-- No run in which each transaction has at most one call of `Lock` outstanding
reaches a state with a cycle in the waits-for relation. -/
theorem never_deadlocked {steps : List (Taken System (Call × Event))} {final : System}
    (run : Run Step initial steps final) (alone : ∀ taken ∈ steps, taken.before.OneOutstanding taken.label.1) :
    Acyclic final.lm.WaitsFor := by
  have orderly := run.invariant_when (fun system label => system.OneOutstanding label.1) Orderly orderly_initial
    (fun _ _ _ orderly alone taken => orderly_step orderly alone taken) alone
  exact orderly.acyclic

/-- Two transactions that each ask for what the other holds: the second is
refused and the first goes on waiting. -/
theorem crossing_requests_acyclic : ∃ steps final, Run Step initial steps final ∧ final.lm.WaitsFor 1 2 ∧
    Acyclic final.lm.WaitsFor := by
  let accounts := newTableLockTag 1
  let orders := newTableLockTag 2
  have first := (@Run.nil _ _ Step initial).extend (.lock .stored 1 accounts .X, _) rfl
  have granted := first.extend (.lock .stored 2 orders .X, _) rfl
  have waits := granted.extend (.lock .stored 1 orders .X, _) rfl
  have run := waits.extend (.lock .stored 2 accounts .X, _) rfl
  refine ⟨_, _, run, ⟨orders, by decide, by decide, by decide⟩, never_deadlocked run ?_⟩
  simp [OneOutstanding, initial]

end System
end GoDB.Transaction
