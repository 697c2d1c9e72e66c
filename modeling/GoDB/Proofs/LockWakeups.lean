import GoDB.Proofs.LockCompatibility
import GoDB.Proofs.LockDeadlock

/-! Which sections of the lock manager may leave a call asleep for no reason. Only
`Unlock` broadcasts; a mode that is given up for another one is given up silently. -/

namespace GoDB.Transaction
open Common Lib List LockManager

namespace LockManager

/-- Somebody other than `tid` keeps the sleeper waiting. -/
def BlockedBeside (lm : LockManager) (tid : TransactionID) (sleeper : Sleeper) : Prop :=
  ∃ other existing, other ≠ tid ∧ other ≠ sleeper.tid ∧ lm.held sleeper.tag other = some existing ∧
    isCompatible sleeper.mode existing = false

variable {lm after : LockManager} {tid : TransactionID} {tag : DBLockTag} {new : Option DBLockMode} {sleeper : Sleeper}

section
variable (changed : ∀ tag' tid', after.held tag' tid' = if tag' = tag ∧ tid' = tid then new else lm.held tag' tid')

include changed

theorem blocked_replaced (onTag : sleeper.tag = tag) : after.Blocked sleeper.tid sleeper.tag sleeper.mode ↔
      lm.BlockedBeside tid sleeper ∨
        (tid ≠ sleeper.tid ∧ ∃ mode, new = some mode ∧ isCompatible sleeper.mode mode = false) := by
  subst onTag
  constructor
  · rintro ⟨other, existing, apart, holds, incompatible⟩
    rw [changed] at holds
    by_cases own : other = tid
    · subst own
      rw [if_pos ⟨rfl, rfl⟩] at holds
      exact .inr ⟨apart, existing, holds, incompatible⟩
    · rw [if_neg fun same => own same.2] at holds
      exact .inl ⟨other, existing, own, apart, holds, incompatible⟩
  · rintro (⟨other, existing, own, apart, holds, incompatible⟩ | ⟨apart, mode, rfl, incompatible⟩)
    · exact ⟨other, existing, apart, by rw [changed, if_neg fun same => own same.2, holds], incompatible⟩
    · exact ⟨tid, mode, apart, by rw [changed, if_pos ⟨rfl, rfl⟩], incompatible⟩

theorem blocked_elsewhere (offTag : sleeper.tag ≠ tag) : after.Blocked sleeper.tid sleeper.tag sleeper.mode ↔
      lm.Blocked sleeper.tid sleeper.tag sleeper.mode := by
  have same : ∀ other, after.held sleeper.tag other = lm.held sleeper.tag other := by
    intro other
    rw [changed, if_neg fun same => offTag same.1]
  simp only [Blocked, same]

end

theorem blockedBeside_of_absent (absent : lm.held sleeper.tag tid = none)
    (blocked : lm.Blocked sleeper.tid sleeper.tag sleeper.mode) : lm.BlockedBeside tid sleeper := by
  obtain ⟨other, existing, apart, holds, incompatible⟩ := blocked
  refine ⟨other, existing, ?_, apart, holds, incompatible⟩
  rintro rfl
  cases absent.symm.trans holds

end LockManager

namespace System

/-- Every call that is asleep has a reason to be, or has been woken. -/
def NoneForgotten (system : System) : Prop :=
  ∀ sleeper ∈ system.sleepers, sleeper.woken = false → system.lm.Blocked sleeper.tid sleeper.tag sleeper.mode

/-- The section takes up a request for the tag while its transaction holds the tag
in another mode, and that mode goes: `Lock` drops it at once, a sleeper only when
it gets the new one. -/
structure GivesUp (system : System) (call : Call) (tid : TransactionID) (tag : DBLockTag) (mode : DBLockMode) : Prop where
  request : system.request call = some (tid, tag, mode)
  held : system.lm.held tag tid ≠ none
  other : system.lm.held tag tid ≠ some mode
  granted : ∀ index, call = .wake index → ¬ system.lm.Blocked tid tag mode

/-- Whoever sleeps on a tag whose mode is given up is kept waiting by another
holder, or by the mode that comes in its place. -/
def KeepsWaiting (system : System) (call : Call) : Prop :=
  ∀ tid tag mode, system.GivesUp call tid tag mode → ∀ sleeper ∈ system.sleepers, sleeper.tag = tag →
    sleeper.woken = false → system.lm.BlockedBeside tid sleeper ∨
      (tid ≠ sleeper.tid ∧ ¬ system.lm.Blocked tid tag mode ∧ isCompatible sleeper.mode mode = false)

variable {before after : System} {label : Call × Event} {tid : TransactionID} {tag : DBLockTag} {mode : DBLockMode}

theorem noneForgotten_replaced (new : Option DBLockMode) (remembered : before.NoneForgotten)
    (request : before.request label.1 = some (tid, tag, mode)) (own : before.lm.held tag tid ≠ some mode)
    (granted : ∀ index, label.1 = .wake index → ¬ before.lm.Blocked tid tag mode)
    (changed : ∀ tag' tid', after.lm.held tag' tid' = if tag' = tag ∧ tid' = tid then new else before.lm.held tag' tid')
    (comes : ∀ mode', new = some mode' ↔ ¬ before.lm.Blocked tid tag mode ∧ mode' = mode)
    (asleep : ∀ sleeper, sleeper.woken = false → sleeper ∈ after.sleepers → sleeper ∈ before.sleepers ∨
      after.lm.Blocked sleeper.tid sleeper.tag sleeper.mode)
    (stays : ∀ sleeper ∈ before.sleepers, sleeper.woken = false → sleeper ∈ after.sleepers) :
    after.NoneForgotten ↔ before.KeepsWaiting label.1 := by
  have reasons : ∀ sleeper : Sleeper, sleeper.tag = tag → (after.lm.Blocked sleeper.tid sleeper.tag sleeper.mode ↔
      before.lm.BlockedBeside tid sleeper ∨
        (tid ≠ sleeper.tid ∧ ¬ before.lm.Blocked tid tag mode ∧ isCompatible sleeper.mode mode = false)) := by
    intro sleeper onTag
    rw [blocked_replaced changed onTag]
    simp [comes]
  constructor
  · intro later tid' tag' mode' gives sleeper member onTag unwoken
    obtain ⟨rfl, rfl, rfl⟩ : tid' = tid ∧ tag' = tag ∧ mode' = mode := by
      simpa [request, eq_comm] using gives.request
    exact (reasons sleeper onTag).mp (later sleeper (stays sleeper member unwoken) unwoken)
  · intro keeps sleeper member unwoken
    rcases asleep sleeper unwoken member with earlier | blocked
    · by_cases onTag : sleeper.tag = tag
      · refine (reasons sleeper onTag).mpr ?_
        by_cases absent : before.lm.held tag tid = none
        · subst onTag
          exact .inl (blockedBeside_of_absent absent (remembered sleeper earlier unwoken))
        · exact keeps tid tag mode ⟨request, absent, own, granted⟩ sleeper earlier onTag unwoken
      · exact (blocked_elsewhere changed onTag).mpr (remembered sleeper earlier unwoken)
    · exact blocked

theorem noneForgotten_same (idle : ∀ tid tag mode, ¬ before.GivesUp label.1 tid tag mode)
    (later : after.NoneForgotten) : after.NoneForgotten ↔ before.KeepsWaiting label.1 :=
  ⟨fun _ tid tag mode gives => (idle tid tag mode gives).elim, fun _ => later⟩

theorem queued_of_asleep (queues : before.Queues) {sleeper : Sleeper} (member : sleeper ∈ before.sleepers) :
    before.lm.queued sleeper.tag ≠ [] := by
  have counted : 0 < (before.lm.queued sleeper.tag).count sleeper.tid := by
    rw [queues, count_pos_iff]
    exact mem_map_of_mem member
  exact ne_nil_of_mem (List.count_pos_iff.mp counted)

theorem noneForgotten_step (remembered : before.NoneForgotten) (queues : before.Queues) (taken : before.Step label after) :
    after.NoneForgotten ↔ before.KeepsWaiting label.1 := by
  cases effect_of_step taken with
  | reentered own =>
    refine noneForgotten_same (fun tid tag mode gives => ?_) remembered
    cases gives.request
    exact gives.other own
  | absent own => exact noneForgotten_same (fun tid tag mode gives => nomatch gives.request) remembered
  | @admitted order tid tag mode rest own free vacated =>
    refine noneForgotten_replaced (some mode) remembered rfl own (fun _ _ => free) (fun tag' tid' => ?_)
      (fun mode' => ?_) (fun _ _ => .inl) (fun _ member _ => member)
    · rw [held_grant, vacated.held]
      split <;> rfl
    · simp [free, eq_comm]
  | @refused order tid tag mode rest own blocked vacated deadlock =>
    refine noneForgotten_replaced none remembered rfl own (fun _ same => nomatch same) (fun tag' tid' => ?_)
      (fun mode' => ?_) (fun _ _ => .inl) (fun _ member _ => member)
    · exact vacated.held tag' tid'
    · simp [blocked]
  | @enqueued order tid tag mode rest own blocked vacated clear =>
    refine noneForgotten_replaced none remembered rfl own (fun _ same => nomatch same) (fun tag' tid' => ?_)
      (fun mode' => ?_) (fun sleeper _ member => ?_) (fun _ member _ => mem_append_left _ member)
    · exact vacated.held tag' tid'
    · simp [blocked]
    · rcases List.mem_append.mp member with earlier | new
      · exact .inl earlier
      · cases List.mem_singleton.mp new
        exact .inr (vacated.blocked_iff.mpr blocked)
  | @stayed index tid tag mode asleep blocked =>
    refine noneForgotten_same (fun tid' tag' mode' gives => ?_) fun sleeper member unwoken => ?_
    · cases (request_wake asleep).symm.trans gives.request
      exact gives.granted index rfl blocked
    · rcases mem_or_eq_of_mem_set member with earlier | rfl
      · exact remembered sleeper earlier unwoken
      · exact blocked
  | @woke index tid tag mode asleep free =>
    by_cases own : before.lm.held tag tid = some mode
    · refine noneForgotten_same (fun tid' tag' mode' gives => ?_) fun sleeper member unwoken => ?_
      · cases (request_wake asleep).symm.trans gives.request
        exact gives.other own
      · obtain ⟨other, existing, apart, holds, incompatible⟩ :=
          remembered sleeper (mem_of_mem_eraseIdx member) unwoken
        refine ⟨other, existing, apart, ?_, incompatible⟩
        rw [held_grant, held_removeFromWaitQueue]
        split
        next same => rw [← own, ← same.1, ← same.2, holds]
        next => exact holds
    · refine noneForgotten_replaced (some mode) remembered (request_wake asleep) own (fun _ _ => free)
        (fun tag' tid' => held_grant ..) (fun mode' => ?_)
        (fun sleeper _ member => .inl (mem_of_mem_eraseIdx member)) (fun sleeper member unwoken => ?_)
      · simp [free, eq_comm]
      · rw [mem_eraseIdx_iff_getElem?]
        obtain ⟨place, found⟩ := mem_iff_getElem?.mp member
        refine ⟨place, ?_, found⟩
        rintro rfl
        cases asleep.symm.trans found
        cases unwoken
  | @released tid tag mode rest sleepers own vacated awoken =>
    refine noneForgotten_same (fun tid' tag' mode' gives => nomatch gives.request) fun sleeper member unwoken => ?_
    subst awoken
    dsimp only at member
    split at member
    next empty =>
      have offTag : sleeper.tag ≠ tag := by
        rintro rfl
        exact queued_of_asleep queues member empty
      exact (blocked_elsewhere vacated.held offTag).mpr (remembered sleeper member unwoken)
    next =>
      obtain ⟨earlier, -, rfl⟩ := List.mem_map.mp member
      cases unwoken

/-- In every run no call is left asleep for no reason exactly as long as nobody
gives up a mode that alone keeps a sleeper waiting. -/
theorem none_forgotten_iff {steps : List (Taken System (Call × Event))} {final : System}
    (run : Run Step initial steps final) :
    (∀ taken ∈ steps, taken.after.NoneForgotten) ↔ ∀ taken ∈ steps, taken.before.KeepsWaiting taken.label.1 := by
  apply run.reached_iff (fun system label => system.KeepsWaiting label.1)
    (fun system => system.NoneForgotten ∧ system.Queues) NoneForgotten
  · exact ⟨fun _ member => (not_mem_nil member).elim, orderly_initial.queues⟩
  · intro before label after ⟨remembered, queues⟩ keeps taken
    exact ⟨(noneForgotten_step remembered queues taken).mpr keeps, queues_step queues taken⟩
  · intro before label after ⟨remembered, queues⟩ taken
    exact noneForgotten_step remembered queues taken

theorem reader_woken_by_unlock : ∃ steps final, Run Step initial steps final ∧
    final.sleepers = [⟨2, newTableLockTag 1, .S, true⟩] ∧ ∀ taken ∈ steps, taken.after.NoneForgotten := by
  let table := newTableLockTag 1
  have writes := (@Run.nil _ _ Step initial).extend (.lock .stored 1 table .X, _) rfl
  have run := (writes.extend (.lock .stored 2 table .S, _) rfl).extend (.unlock 1 table, _) rfl
  refine ⟨_, _, run, rfl, (none_forgotten_iff run).mpr ?_⟩
  intro taken member tid tag mode gives sleeper asleep'
  simp only [nil_append, cons_append, mem_cons, not_mem_nil, or_false] at member
  rcases member with rfl | rfl | rfl
  · exact (not_mem_nil asleep').elim
  · exact (not_mem_nil asleep').elim
  · cases gives.request

/-- An updater that turns its IX into S lets the reader that waits for it sleep on,
although nothing is in the reader's way any more. -/
theorem reader_forgotten : ∃ steps final, Run Step initial steps final ∧ steps.length = 3 ∧ ¬ final.NoneForgotten := by
  let table := newTableLockTag 1
  let waiting := (newLockManager.grant 1 table .IX).enqueue 2 table
  have updates := (@Run.nil _ _ Step initial).extend (.lock .stored 1 table .IX, _) rfl
  have waits := updates.extend (.lock .stored 2 table .S, _) rfl
  refine ⟨_, _, waits.extend (.lock .stored 1 table .S, _) rfl, rfl, fun remembered => ?_⟩
  obtain ⟨other, existing, apart, holds, incompatible⟩ :=
    remembered ⟨2, table, .S, false⟩ (mem_singleton_self _) rfl
  have holds : ((waiting.dropHolder 1 table).grant 1 table .S).held table other = some existing := holds
  rw [held_grant, held_dropHolder] at holds
  by_cases own : other = 1
  · subst own
    cases holds
    cases incompatible
  · rw [if_neg fun same => own same.2, if_neg fun same => own same.2, held_enqueue,
      held_grant, if_neg fun same => own same.2] at holds
    cases holds

end System
end GoDB.Transaction
