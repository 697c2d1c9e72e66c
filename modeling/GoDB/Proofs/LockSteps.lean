import GoDB.Transaction.Lock
import GoDB.Lib.Run

/-! What one critical section of the lock manager can do, said in terms of who
holds what and who is queued where. Every invariant is derived from these cases
and never looks at the maps again. -/

namespace GoDB.Transaction
open Common Lib LockManager AList

namespace LockManager

def held (lm : LockManager) (tag : DBLockTag) (tid : TransactionID) : Option DBLockMode :=
  (lm.holders tag).lookup tid

def queued (lm : LockManager) (tag : DBLockTag) : List TransactionID := (lm.waitqueue.lookup tag).getD []

def Blocked (lm : LockManager) (tid : TransactionID) (tag : DBLockTag) (mode : DBLockMode) : Prop :=
  ∃ other existing, other ≠ tid ∧ lm.held tag other = some existing ∧ isCompatible mode existing = false

variable (lm : LockManager) (tid : TransactionID) (tag : DBLockTag) (mode : DBLockMode)

section
variable (tag' : DBLockTag)

include tag'

variable (tid' : TransactionID)

theorem held_grant : (lm.grant tid tag mode).held tag' tid' =
    if tag' = tag ∧ tid' = tid then some mode else lm.held tag' tid' := by
  unfold held holders grant
  by_cases sameTag : tag' = tag
  · subst tag'
    by_cases sameTid : tid' = tid
    · subst tid'
      simp
    · simp [sameTid, lookup_insert_ne, holders]
  · simp [sameTag, lookup_insert_ne]

theorem holders_dropHolder : (lm.dropHolder tid tag).holders tag' =
    if tag' = tag then (lm.holders tag).erase tid else lm.holders tag' := by
  apply GoMap.lookup_putBack
  intro empty
  exact ext (by simpa using empty)

theorem held_dropHolder : (lm.dropHolder tid tag).held tag' tid' =
    if tag' = tag ∧ tid' = tid then none else lm.held tag' tid' := by
  unfold held
  rw [holders_dropHolder]
  by_cases sameTag : tag' = tag
  · subst tag'
    by_cases sameTid : tid' = tid
    · subst tid'
      simp
    · simp [sameTid, lookup_erase_ne]
  · simp [sameTag]

@[simp] theorem held_enqueue : (lm.enqueue tid tag).held tag' tid' = lm.held tag' tid' := rfl

@[simp] theorem held_removeFromWaitQueue : (lm.removeFromWaitQueue tid tag).held tag' tid' = lm.held tag' tid' := rfl

@[simp] theorem queued_grant : (lm.grant tid tag mode).queued tag' = lm.queued tag' := rfl

@[simp] theorem queued_dropHolder : (lm.dropHolder tid tag).queued tag' = lm.queued tag' := rfl

theorem queued_enqueue : (lm.enqueue tid tag).queued tag' =
    if tag' = tag then lm.queued tag ++ [tid] else lm.queued tag' := by
  by_cases same : tag' = tag
  · subst tag'
    simp [queued, enqueue]
  · simp [queued, enqueue, same, lookup_insert_ne]

theorem queued_removeFromWaitQueue : (lm.removeFromWaitQueue tid tag).queued tag' =
    if tag' = tag then (lm.queued tag).erase tid else lm.queued tag' := by
  apply GoMap.lookup_putBack
  exact List.isEmpty_iff.mp

end

theorem conflict_iff : lm.conflict tid tag mode = true ↔ lm.Blocked tid tag mode := by
  unfold conflict Blocked held
  simp only [List.any_eq_true, Bool.and_eq_true, bne_iff_ne, Bool.not_eq_true']
  constructor
  · rintro ⟨⟨other, existing⟩, member, apart, incompatible⟩
    exact ⟨other, existing, apart, mem_lookup_iff.mpr member, incompatible⟩
  · rintro ⟨other, existing, apart, holds, incompatible⟩
    exact ⟨⟨other, existing⟩, mem_lookup_iff.mp holds, apart, incompatible⟩

theorem conflict_eq_false_iff : lm.conflict tid tag mode = false ↔ ¬ lm.Blocked tid tag mode := by
  rw [← conflict_iff, Bool.not_eq_true]

structure Vacated (lm rest : LockManager) (tid : TransactionID) (tag : DBLockTag) : Prop where
  held : ∀ tag' tid', rest.held tag' tid' = if tag' = tag ∧ tid' = tid then none else lm.held tag' tid'
  queued : ∀ tag', rest.queued tag' = lm.queued tag'

theorem vacated_dropHolder : Vacated lm (lm.dropHolder tid tag) tid tag :=
  ⟨held_dropHolder lm tid tag, queued_dropHolder lm tid tag⟩

theorem vacated_self (absent : lm.held tag tid = none) : Vacated lm lm tid tag := by
  refine ⟨fun tag' tid' => ?_, fun _ => rfl⟩
  split
  next same => rw [same.1, same.2, absent]
  next => rfl

variable {lm tid tag mode}

theorem Vacated.blocked_iff {rest : LockManager} (vacated : Vacated lm rest tid tag) :
    rest.Blocked tid tag mode ↔ lm.Blocked tid tag mode := by
  unfold Blocked
  constructor
  all_goals
    intro ⟨other, existing, apart, holds, incompatible⟩
    refine ⟨other, existing, apart, ?_, incompatible⟩
    simpa [vacated.held, apart] using holds

end LockManager

/-- One constructor for each way a critical section can go. -/
inductive Effect (before : System) : Call × Event → System → Prop where
  | reentered {order tid tag mode} (own : before.lm.held tag tid = some mode) :
      Effect before (.lock order tid tag mode, .granted tid tag mode) before
  | admitted {order tid tag mode rest} (own : before.lm.held tag tid ≠ some mode)
      (free : ¬ before.lm.Blocked tid tag mode) (vacated : before.lm.Vacated rest tid tag) :
      Effect before (.lock order tid tag mode, .granted tid tag mode) ⟨rest.grant tid tag mode, before.sleepers⟩
  | refused {order tid tag mode rest} (own : before.lm.held tag tid ≠ some mode)
      (blocked : before.lm.Blocked tid tag mode) (vacated : before.lm.Vacated rest tid tag)
      (deadlock : (rest.enqueue tid tag).hasDeadLock order tid tag = true) :
      Effect before (.lock order tid tag mode, .refused tid tag mode deadlockDetected)
        ⟨(rest.enqueue tid tag).removeFromWaitQueue tid tag, before.sleepers⟩
  | enqueued {order tid tag mode rest} (own : before.lm.held tag tid ≠ some mode)
      (blocked : before.lm.Blocked tid tag mode) (vacated : before.lm.Vacated rest tid tag)
      (clear : (rest.enqueue tid tag).hasDeadLock order tid tag = false) :
      Effect before (.lock order tid tag mode, .waiting tid tag mode)
        ⟨rest.enqueue tid tag, before.sleepers ++ [⟨tid, tag, mode, false⟩]⟩
  | stayed {index tid tag mode} (asleep : before.sleepers[index]? = some ⟨tid, tag, mode, true⟩)
      (blocked : before.lm.Blocked tid tag mode) :
      Effect before (.wake index, .waiting tid tag mode) ⟨before.lm, before.sleepers.set index ⟨tid, tag, mode, false⟩⟩
  | woke {index tid tag mode} (asleep : before.sleepers[index]? = some ⟨tid, tag, mode, true⟩)
      (free : ¬ before.lm.Blocked tid tag mode) :
      Effect before (.wake index, .granted tid tag mode)
        ⟨(before.lm.removeFromWaitQueue tid tag).grant tid tag mode, before.sleepers.eraseIdx index⟩
  | released {tid tag mode rest sleepers} (own : before.lm.held tag tid = some mode)
      (vacated : before.lm.Vacated rest tid tag)
      (awoken : sleepers = if before.lm.queued tag = [] then before.sleepers else System.broadcast before.sleepers) :
      Effect before (.unlock tid tag, .unlocked tid tag none) ⟨rest, sleepers⟩
  | absent {tid tag} (own : before.lm.held tag tid = none) :
      Effect before (.unlock tid tag, .unlocked tid tag (some lockNotFound)) before

variable {before after : System} {order : RangeOrder} {tid : TransactionID} {tag : DBLockTag} {mode : DBLockMode}

theorem request_effect {rest : LockManager} (own : before.lm.held tag tid ≠ some mode)
    (vacated : before.lm.Vacated rest tid tag) {event : Event}
    (result : System.leave before.sleepers tid tag mode (lock.request order tid tag mode rest) =
      (event, after)) : Effect before (.lock order tid tag mode, event) after := by
  unfold lock.request at result
  split at result
  next conflict =>
    have blocked := vacated.blocked_iff.mp ((conflict_iff ..).mp conflict)
    simp only at result
    split at result
    next deadlock =>
      cases result
      exact .refused own blocked vacated deadlock
    next clear =>
      -- nothing changed since the first test, so the first turn of the loop sleeps
      have again : (rest.enqueue tid tag).conflict tid tag mode = true := conflict
      rw [retry, if_pos again] at result
      cases result
      exact .enqueued own blocked vacated (by simpa using clear)
  next quiet =>
    cases result
    have free : ¬ rest.Blocked tid tag mode := (conflict_eq_false_iff ..).mp (by simpa using quiet)
    exact .admitted own (fun blocked => free (vacated.blocked_iff.mpr blocked)) vacated

theorem lock_effect {event : Event}
    (result : System.leave before.sleepers tid tag mode (before.lm.lock order tid tag mode) = (event, after)) :
    Effect before (.lock order tid tag mode, event) after := by
  unfold lock at result
  split at result
  next currentMode own =>
    split at result
    next same =>
      subst same
      cases result
      exact .reentered own
    next apart =>
      refine request_effect ?_ (vacated_dropHolder ..) result
      intro held
      exact apart (Option.some.inj (own.symm.trans held))
  next own =>
    refine request_effect ?_ (vacated_self _ _ _ own) result
    intro held
    cases own.symm.trans held

theorem effect_of_step {label : Call × Event} (taken : before.Step label after) :
    Effect before label after := by
  obtain ⟨call, event⟩ := label
  cases call with
  | lock order tid tag mode => exact lock_effect (Option.some.inj taken)
  | wake index =>
    simp only [System.Step, System.step] at taken
    split at taken
    · cases taken
    · cases taken
    next tid tag mode asleep =>
      unfold retry at taken
      by_cases conflict : before.lm.conflict tid tag mode = true
      · rw [if_pos conflict] at taken
        cases taken
        exact .stayed asleep ((conflict_iff ..).mp conflict)
      · rw [if_neg conflict] at taken
        cases taken
        exact .woke asleep ((conflict_eq_false_iff ..).mp (by simpa using conflict))
  | unlock tid tag =>
    simp only [System.Step, System.step, unlock] at taken
    cases own : (before.lm.holders tag).lookup tid with
    | none =>
      simp only [own] at taken
      cases taken
      exact .absent own
    | some mode =>
      simp only [own] at taken
      cases taken
      refine .released own (vacated_dropHolder ..) ?_
      change (if (!(before.lm.queued tag).isEmpty) = true then _ else _) = _
      cases before.lm.queued tag <;> simp

end GoDB.Transaction
