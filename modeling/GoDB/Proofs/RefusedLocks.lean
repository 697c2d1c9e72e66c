import GoDB.Proofs.LockSteps

/-! What a call of `Lock` that is refused as a deadlock leaves behind. -/

namespace GoDB.Transaction
open Common Lib List

theorem erase_concat_iff {queue : List TransactionID} {tid : TransactionID} :
    (queue ++ [tid]).erase tid = queue ↔ ∀ waiter ∈ queue.dropWhile (· ≠ tid), waiter = tid := by
  have turned (rest : List TransactionID) : rest ++ [tid] = tid :: rest ↔ ∀ waiter ∈ rest, waiter = tid := by
    induction rest with
    | nil => simp
    | cons first rest ih =>
      simp only [cons_append, List.cons.injEq, mem_cons, forall_eq_or_imp]
      refine and_congr_right fun same => ?_
      rw [same]
      exact ih
  induction queue with
  | nil => simp
  | cons first rest ih =>
    by_cases same : first = tid
    · subst first
      rw [cons_append, erase_cons_head, turned, dropWhile_cons_of_neg (by simp)]
      simp
    · rw [cons_append, erase_cons_tail (by simpa using same), List.cons.injEq,
        dropWhile_cons_of_pos (by simpa using same)]
      exact (and_iff_right rfl).trans ih

namespace LockManager
variable {lm after : LockManager} {order : RangeOrder} {tid : TransactionID} {tag : DBLockTag} {mode : DBLockMode}

theorem refused_effect {err : GoDBError} (refused : lm.lock order tid tag mode = (.returned (some err), after)) :
    err = deadlockDetected ∧
    (∀ tag' tid', after.held tag' tid' = if tag' = tag ∧ tid' = tid then none else lm.held tag' tid') ∧
    ∀ tag', after.queued tag' = if tag' = tag then (lm.queued tag ++ [tid]).erase tid else lm.queued tag' := by
  have taken : System.Step ⟨lm, []⟩ (.lock order tid tag mode, .refused tid tag mode err) ⟨after, []⟩ := by
    rw [System.Step, System.step, refused]
    rfl
  cases effect_of_step taken with
  | refused own blocked vacated deadlock =>
    refine ⟨rfl, vacated.held, fun tag' => ?_⟩
    rw [queued_removeFromWaitQueue, queued_enqueue, if_pos rfl, vacated.queued]
    split
    next => rfl
    next apart => rw [queued_enqueue, if_neg apart, vacated.queued]

/-- A refused call leaves both tables as they were exactly when the caller had no lock on the
tag, and when its own name in the queue of the tag, if it is there, has no other behind it. A lock
that the caller had is lost, and cannot be unlocked. -/
theorem refused_restores_iff {err : GoDBError} (refused : lm.lock order tid tag mode = (.returned (some err), after)) :
    (((∀ tag' tid', after.held tag' tid' = lm.held tag' tid') ∧ ∀ tag', after.queued tag' = lm.queued tag') ↔
      lm.held tag tid = none ∧ ∀ waiter ∈ (lm.queued tag).dropWhile (· ≠ tid), waiter = tid) ∧
    (lm.held tag tid ≠ none → after.held tag tid = none ∧ (after.unlock tid tag).1 = some lockNotFound) := by
  obtain ⟨-, held, queued⟩ := refused_effect refused
  have gone : after.held tag tid = none := by rw [held, if_pos ⟨rfl, rfl⟩]
  refine ⟨⟨?_, ?_⟩, fun _ => ⟨gone, ?_⟩⟩
  · rintro ⟨sameHeld, sameQueued⟩
    refine ⟨(sameHeld tag tid).symm.trans gone, erase_concat_iff.mp ?_⟩
    have same := sameQueued tag
    rwa [queued, if_pos rfl] at same
  · rintro ⟨absent, last⟩
    refine ⟨fun tag' tid' => ?_, fun tag' => ?_⟩
    · rw [held]
      split
      next same => rw [same.1, same.2, absent]
      next => rfl
    · rw [queued]
      split
      next same => rw [same, erase_concat_iff.mpr last]
      next => rfl
  · have missing : (after.holders tag).lookup tid = none := gone
    rw [unlock, missing]

/-- Transaction 2 waits for a table of transaction 1 and reads another one. -/
def crossing : LockManager :=
  ((newLockManager.grant 1 (newTableLockTag 1) .X).grant 2 (newTableLockTag 2) .S).enqueue 2 (newTableLockTag 1)

theorem new_request_restored :
    ∃ after, crossing.lock .stored 1 (newTableLockTag 2) .X = (.returned (some deadlockDetected), after) ∧
      (∀ tag tid, after.held tag tid = crossing.held tag tid) ∧ ∀ tag, after.queued tag = crossing.queued tag := by
  refine ⟨(crossing.enqueue 1 (newTableLockTag 2)).removeFromWaitQueue 1 (newTableLockTag 2), rfl, ?_⟩
  refine (@refused_restores_iff crossing _ .stored 1 (newTableLockTag 2) .X _ rfl).1.mpr ?_
  exact ⟨rfl, fun _ member => (by cases member)⟩

/-- Transaction 1 reads the table too, asks for X, and has no lock afterwards. -/
theorem refused_upgrade_loses_lock :
    ∃ after, (crossing.grant 1 (newTableLockTag 2) .S).lock .stored 1 (newTableLockTag 2) .X =
        (.returned (some deadlockDetected), after) ∧
      (crossing.grant 1 (newTableLockTag 2) .S).held (newTableLockTag 2) 1 = some .S ∧
      after.held (newTableLockTag 2) 1 = none ∧ (after.unlock 1 (newTableLockTag 2)).1 = some lockNotFound :=
  ⟨_, rfl, rfl, rfl, rfl⟩

end LockManager
end GoDB.Transaction
