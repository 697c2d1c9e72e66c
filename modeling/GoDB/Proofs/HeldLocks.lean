import GoDB.Proofs.LockDeadlock
import GoDB.Transaction.LockContext

/-! When a transaction's own table of locks agrees with the lock manager's. The
invariant says for each stage of a call how far the two may be apart. -/

namespace GoDB.Transaction
open Common Lib List Function LockManager

variable {tid : TransactionID}

theorem LockManager.Vacated.hasDeadLock_eq {lm rest : LockManager} {tag : DBLockTag}
    (vacated : lm.Vacated rest tid tag) (order : RangeOrder) : (rest.enqueue tid tag).hasDeadLock order tid tag =
      ((lm.dropHolder tid tag).enqueue tid tag).hasDeadLock order tid tag := by
  have same : (rest.enqueue tid tag).WaitsFor = ((lm.dropHolder tid tag).enqueue tid tag).WaitsFor := by
    funext waiter holder
    simp only [LockManager.WaitsFor, queued_enqueue, held_enqueue, vacated.held, vacated.queued,
      held_dropHolder, queued_dropHolder]
  rw [Bool.eq_iff_iff, hasDeadLock_iff, hasDeadLock_iff, same]

/-- How the tables stand to each other at this stage of the transaction's call, on the tags
that are followed. -/
def LockContext.Consistent (followed : DBLockTag → Prop) (context : LockContext) (lm : LockManager) (tid : TransactionID) :
    Prop :=
  match context.activity with
  | .idle => ∀ tag, followed tag → context.heldLocks.lookup tag = lm.held tag tid
  | .asleep tag _ =>
    lm.held tag tid = none ∧ ∀ other ≠ tag, followed other → context.heldLocks.lookup other = lm.held other tid
  | .granted tag mode =>
    lm.held tag tid = some mode ∧ ∀ other ≠ tag, followed other → context.heldLocks.lookup other = lm.held other tid
  | .releasing tags =>
    tags.Nodup ∧ ∀ tag, followed tag → lm.held tag tid = if tag ∈ tags then context.heldLocks.lookup tag else none

theorem LockContext.Consistent.frame {followed : DBLockTag → Prop} {context : LockContext} {lm later : LockManager}
    (consistent : context.Consistent followed lm tid)
    (same : ∀ tag, later.held tag tid = lm.held tag tid) : context.Consistent followed later tid := by
  unfold LockContext.Consistent at consistent ⊢
  simpa only [same] using consistent

namespace Sessions

/-- Whenever a transaction has no call in progress, its table is what the lock
manager records for it. -/
def Tracked (sessions : Sessions) : Prop :=
  ∀ tid, (sessions.contexts tid).activity = .idle →
    ∀ tag, (sessions.contexts tid).heldLocks.lookup tag = sessions.system.lm.held tag tid

/-- `AcquireLock` is not refused a change of a mode that it holds. -/
def NoChangeRefused (sessions : Sessions) (call : SessionCall) : Prop :=
  ∀ order tid tag mode, call = .acquireLock order tid tag mode →
    ((sessions.contexts tid).heldLocks.lookup tag).any (covers · mode) = false →
    sessions.system.lm.held tag tid ≠ none → sessions.system.lm.held tag tid ≠ some mode →
    sessions.system.lm.Blocked tid tag mode →
    ((sessions.system.lm.dropHolder tid tag).enqueue tid tag).hasDeadLock order tid tag = false

structure Valid (followed : TransactionID → DBLockTag → Prop) (sessions : Sessions) : Prop where
  consistent : ∀ tid, (sessions.contexts tid).Consistent (followed tid) sessions.system.lm tid
  asleep : ∀ sleeper ∈ sessions.system.sleepers, (sessions.contexts sleeper.tid).activity = .asleep sleeper.tag sleeper.mode
  single : ((System.waiting sessions.system.sleepers).map Prod.fst).Nodup

variable {before after : Sessions} {call : SessionCall} {tid : TransactionID} {tag : DBLockTag} {mode : DBLockMode}
variable {followed : TransactionID → DBLockTag → Prop}

theorem Valid.agrees {sessions : Sessions} (valid : sessions.Valid followed) (idle : (sessions.contexts tid).activity = .idle)
    (follows : followed tid tag) : (sessions.contexts tid).heldLocks.lookup tag = sessions.system.lm.held tag tid := by
  have consistent := valid.consistent tid
  rw [LockContext.Consistent, idle] at consistent
  exact consistent tag follows

theorem valid_initial : Valid followed initial :=
  ⟨fun _ _ _ => rfl, fun _ member => (not_mem_nil member).elim, nodup_nil⟩

section
variable (valid : before.Valid followed)

include valid

variable {system : System}

theorem Valid.of_step {context : LockContext}
    (others : ∀ other ≠ tid, ∀ tag, system.lm.held tag other = before.system.lm.held tag other)
    (consistent : context.Consistent (followed tid) system.lm tid)
    (asleep : ∀ sleeper ∈ system.sleepers, if sleeper.tid = tid then context.activity = .asleep sleeper.tag sleeper.mode
      else ∃ earlier ∈ before.system.sleepers, earlier.tid = sleeper.tid ∧ earlier.tag = sleeper.tag ∧
        earlier.mode = sleeper.mode) (single : ((System.waiting system.sleepers).map Prod.fst).Nodup) :
    Valid followed ⟨system, Function.update before.contexts tid context⟩ := by
  refine ⟨fun other => ?_, fun sleeper member => ?_, single⟩
  all_goals dsimp only
  · by_cases own : other = tid
    · subst own
      rwa [update_self]
    · rw [update_of_ne own]
      exact (valid.consistent other).frame (others other own)
  · have known := asleep sleeper member
    by_cases own : sleeper.tid = tid
    · rw [if_pos own] at known
      rw [own, update_self]
      exact known
    · rw [if_neg own] at known
      obtain ⟨earlier, present, same, sameTag, sameMode⟩ := known
      rw [update_of_ne own, ← same, ← sameTag, ← sameMode]
      exact valid.asleep earlier present

section
variable (up : ∀ tag mode, (before.contexts tid).activity ≠ .asleep tag mode)

include up

theorem Valid.awake : ∀ sleeper ∈ before.system.sleepers, sleeper.tid ≠ tid := by
  rintro sleeper member rfl
  exact up _ _ (valid.asleep sleeper member)

theorem Valid.sleepers_kept (activity : Activity) :
    ∀ sleeper ∈ before.system.sleepers, if sleeper.tid = tid then activity = .asleep sleeper.tag sleeper.mode
      else ∃ earlier ∈ before.system.sleepers, earlier.tid = sleeper.tid ∧ earlier.tag = sleeper.tag ∧
        earlier.mode = sleeper.mode := by
  intro sleeper member
  rw [if_neg (valid.awake up sleeper member)]
  exact ⟨sleeper, member, rfl, rfl, rfl⟩

end

theorem Valid.grant (own : ∀ other ≠ tag, followed tid other →
      (before.contexts tid).heldLocks.lookup other = before.system.lm.held other tid)
    (held : ∀ tag' tid', system.lm.held tag' tid' =
      if tag' = tag ∧ tid' = tid then some mode else before.system.lm.held tag' tid')
    (asleep : ∀ sleeper ∈ system.sleepers, sleeper.tid ≠ tid ∧ sleeper ∈ before.system.sleepers)
    (single : ((System.waiting system.sleepers).map Prod.fst).Nodup) :
    Valid followed (before.afterLock (.granted tid tag mode, system)) := by
  refine valid.of_step (fun other apart tag' => ?_) ⟨?_, fun other apart follows => ?_⟩ (fun sleeper member => ?_) single
  · rw [held, if_neg fun same => apart same.2]
  · rw [held, if_pos ⟨rfl, rfl⟩]
  · rw [held, if_neg fun same => apart same.1]
    exact own other apart follows
  · obtain ⟨apart, earlier⟩ := asleep sleeper member
    rw [if_neg apart]
    exact ⟨sleeper, earlier, rfl, rfl, rfl⟩

theorem acquire_step {order : RangeOrder} {event : Event} (idle : (before.contexts tid).activity = .idle)
    (uncovered : ((before.contexts tid).heldLocks.lookup tag).any (covers · mode) = false)
    (effect : Effect before.system (.lock order tid tag mode, event) system) :
    ((followed tid tag → before.NoChangeRefused (.acquireLock order tid tag mode)) →
        (before.afterLock (event, system)).Valid followed) ∧
      (followed tid tag → (before.afterLock (event, system)).Tracked →
        before.NoChangeRefused (.acquireLock order tid tag mode)) := by
  have up : ∀ tag mode, (before.contexts tid).activity ≠ .asleep tag mode := by simp [idle]
  have awake := valid.awake up
  have own (other : DBLockTag) (follows : followed tid other) := valid.agrees idle follows
  cases effect with
  | reentered same =>
    refine ⟨fun _ => valid.grant (fun other _ => own other) (fun tag' tid' => ?_) ?_ valid.single, fun _ _ => ?_⟩
    · split
      next here => rw [here.1, here.2, same]
      next => rfl
    · exact fun sleeper member => ⟨awake sleeper member, member⟩
    · rintro _ _ _ _ ⟨⟩ _ _ other _
      exact (other same).elim
  | admitted _ free vacated =>
    refine ⟨fun _ => valid.grant (fun other _ => own other) (fun tag' tid' => ?_) ?_ valid.single, fun _ _ => ?_⟩
    · rw [held_grant, vacated.held]
      split <;> rfl
    · exact fun sleeper member => ⟨awake sleeper member, member⟩
    · rintro _ _ _ _ ⟨⟩ _ _ _ blocked
      exact (free blocked).elim
  | @refused _ _ _ _ rest other blocked vacated deadlock =>
    have held : ∀ tag' tid', ((rest.enqueue tid tag).removeFromWaitQueue tid tag).held tag' tid' =
        if tag' = tag ∧ tid' = tid then none else before.system.lm.held tag' tid' := vacated.held
    rw [vacated.hasDeadLock_eq] at deadlock
    constructor
    · intro allowed
      refine ⟨fun tid' => ?_, valid.asleep, valid.single⟩
      by_cases same : tid' = tid
      · subst tid'
        rw [afterLock, LockContext.Consistent, idle]
        intro tag' follows
        rw [held, own tag' follows]
        split
        next here =>
          cases here.1
          by_contra present
          exact absurd (allowed follows order tid tag mode rfl uncovered present other blocked) (by simp [deadlock])
        next => rfl
      · refine (valid.consistent tid').frame fun tag' => ?_
        rw [afterLock, held, if_neg fun here => same here.2]
    · rintro follows tracked _ _ _ _ ⟨⟩ _ present _ _
      have gone := tracked tid idle tag
      rw [afterLock, held, if_pos ⟨rfl, rfl⟩] at gone
      exact (present ((own tag follows).symm.trans gone)).elim
  | @enqueued _ _ _ _ rest _ blocked vacated clear =>
    refine ⟨fun _ => valid.of_step (fun other apart tag' => ?_) ⟨?_, fun other apart follows => ?_⟩
      (fun sleeper member => ?_) ?_, fun _ _ => ?_⟩
    · rw [held_enqueue, vacated.held, if_neg fun same => apart same.2]
    · rw [held_enqueue, vacated.held, if_pos ⟨rfl, rfl⟩]
    · rw [held_enqueue, vacated.held, if_neg fun same => apart same.1]
      exact own other follows
    · rcases mem_append.mp member with earlier | new
      · exact valid.sleepers_kept up _ sleeper earlier
      · cases mem_singleton.mp new
        rw [if_pos rfl]
    · rw [System.waiting_append, map_append, nodup_append]
      refine ⟨valid.single, nodup_singleton _, ?_⟩
      rintro _ member _ last rfl
      obtain ⟨_, listed, same⟩ := mem_map.mp member
      obtain ⟨sleeper, inside, rfl⟩ := mem_map.mp listed
      exact awake sleeper inside (same.trans (mem_singleton.mp last))
    · rintro _ _ _ _ ⟨⟩ _ _ _ _
      rwa [← vacated.hasDeadLock_eq]

theorem wake_step {index : Nat} {event : Event}
    (effect : Effect before.system (.wake index, event) system) : (before.afterLock (event, system)).Valid followed := by
  cases effect with
  | @stayed _ tid tag mode asleep _ =>
    have waits := valid.asleep _ (mem_of_getElem? asleep)
    have consistent := valid.consistent tid
    rw [LockContext.Consistent, waits] at consistent
    refine valid.of_step (fun _ _ _ => rfl) consistent (fun sleeper member => ?_) ?_
    · rcases mem_or_eq_of_mem_set member with earlier | rfl
      · split
        next same =>
          have known := valid.asleep sleeper earlier
          rw [same, waits] at known
          exact known
        next => exact ⟨sleeper, earlier, rfl, rfl, rfl⟩
      · rw [if_pos rfl]
    · rw [System.waiting_set asleep]
      exact valid.single
  | @woke _ tid tag mode asleep _ =>
    have waits := valid.asleep _ (mem_of_getElem? asleep)
    have consistent := valid.consistent tid
    rw [LockContext.Consistent, waits] at consistent
    have split := ((System.waiting_eraseIdx asleep).map Prod.fst).nodup_iff.mpr valid.single
    obtain ⟨alone, rest⟩ := nodup_cons.mp split
    refine valid.grant consistent.2 (fun tag' tid' => held_grant ..) (fun sleeper member => ?_) rest
    refine ⟨?_, mem_of_mem_eraseIdx member⟩
    rintro rfl
    exact alone (mem_map.mpr ⟨(sleeper.tid, sleeper.tag), mem_map_of_mem member, rfl⟩)

end

theorem notChange (other : ∀ order tid tag mode, call ≠ .acquireLock order tid tag mode) :
    before.NoChangeRefused call := fun order tid tag mode same => (other order tid tag mode same).elim

section
variable (valid : before.Valid followed)

include valid

theorem enter_step (granted : (before.contexts tid).activity = .granted tag mode) :
    (before.setContext tid ⟨(before.contexts tid).heldLocks.insert tag mode, .idle⟩).Valid followed := by
  have up : ∀ tag mode, (before.contexts tid).activity ≠ .asleep tag mode := by simp [granted]
  have consistent := valid.consistent tid
  rw [LockContext.Consistent, granted] at consistent
  obtain ⟨held, others⟩ := consistent
  refine valid.of_step (fun _ _ _ => rfl) (fun tag' follows => ?_) (valid.sleepers_kept up _) valid.single
  by_cases same : tag' = tag
  · rw [same, AList.lookup_insert, held]
  · rw [AList.lookup_insert_ne same, others tag' same follows]

variable {tags : List DBLockTag}

theorem release_step (idle : (before.contexts tid).activity = .idle)
    (all : tags.Perm (before.contexts tid).heldLocks.keys) :
    (before.setActivity tid (.releasing tags)).Valid followed := by
  have up : ∀ tag mode, (before.contexts tid).activity ≠ .asleep tag mode := by simp [idle]
  refine valid.of_step (fun _ _ _ => rfl) ⟨all.nodup_iff.mpr (AList.keys_nodup _), fun tag follows => ?_⟩
    (valid.sleepers_kept up _) valid.single
  rw [← valid.agrees idle follows]
  split
  next => rfl
  next absent => exact AList.lookup_eq_none.mpr fun present => absent (all.mem_iff.mpr present)

theorem unlock_step {event : Event} {system : System}
    (releasing : (before.contexts tid).activity = .releasing (tag :: tags))
    (effect : Effect before.system (.unlock tid tag, event) system) :
    ({ before with system }.setActivity tid (.releasing tags)).Valid followed := by
  have up : ∀ tag mode, (before.contexts tid).activity ≠ .asleep tag mode := by simp [releasing]
  have consistent := valid.consistent tid
  rw [LockContext.Consistent, releasing] at consistent
  obtain ⟨distinct, recorded⟩ := consistent
  obtain ⟨fresh, distinct⟩ := nodup_cons.mp distinct
  have held : ∀ tag' tid', system.lm.held tag' tid' =
      if tag' = tag ∧ tid' = tid then none else before.system.lm.held tag' tid' := by
    cases effect with
    | released _ vacated => exact vacated.held
    | absent own => exact (before.system.lm.vacated_self tid tag own).held
  have consistent : LockContext.Consistent (followed tid) ⟨(before.contexts tid).heldLocks, .releasing tags⟩ system.lm tid := by
    refine ⟨distinct, fun tag' follows => ?_⟩
    rw [held, recorded tag' follows]
    by_cases same : tag' = tag
    · rw [if_pos ⟨same, rfl⟩, if_neg (same ▸ fresh)]
    · simp [same]
  have asleep : ∀ sleeper ∈ system.sleepers, ∃ earlier ∈ before.system.sleepers, earlier.tid = sleeper.tid ∧
      earlier.tag = sleeper.tag ∧ earlier.mode = sleeper.mode := by
    intro sleeper member
    cases effect with
    | absent => exact ⟨sleeper, member, rfl, rfl, rfl⟩
    | released _ _ awoken =>
      subst awoken
      dsimp only at member
      split at member
      next => exact ⟨sleeper, member, rfl, rfl, rfl⟩
      next =>
        obtain ⟨earlier, inside, rfl⟩ := mem_map.mp member
        exact ⟨earlier, inside, rfl, rfl, rfl⟩
  have names : System.waiting system.sleepers = System.waiting before.system.sleepers := by
    cases effect with
    | absent => rfl
    | released _ _ awoken =>
      subst awoken
      dsimp only
      split
      next => rfl
      next => exact System.waiting_broadcast _
  refine valid.of_step (fun other apart tag' => ?_) consistent (fun sleeper member => ?_) (names ▸ valid.single)
  · rw [held, if_neg fun same => apart same.2]
  · obtain ⟨earlier, inside, same, sameTag, sameMode⟩ := asleep sleeper member
    rw [if_neg (same ▸ valid.awake up earlier inside)]
    exact ⟨earlier, inside, same, sameTag, sameMode⟩

theorem finish_step (releasing : (before.contexts tid).activity = .releasing []) :
    (before.setContext tid ⟨∅, .idle⟩).Valid followed := by
  have up : ∀ tag mode, (before.contexts tid).activity ≠ .asleep tag mode := by simp [releasing]
  have consistent := valid.consistent tid
  rw [LockContext.Consistent, releasing] at consistent
  refine valid.of_step (fun _ _ _ => rfl) (fun tag follows => ?_) (valid.sleepers_kept up _) valid.single
  rw [consistent.2 tag follows, if_neg not_mem_nil]
  rfl

end

def AllowedOn (followed : TransactionID → DBLockTag → Prop) (sessions : Sessions) (call : SessionCall) : Prop :=
  ∀ order tid tag mode, call = .acquireLock order tid tag mode → followed tid tag → sessions.NoChangeRefused call

theorem valid_step (valid : before.Valid followed) (taken : before.Step call after) :
    (before.AllowedOn followed call → after.Valid followed) ∧
      ((∀ tid tag, followed tid tag) → after.Tracked → before.NoChangeRefused call) := by
  have fine : after.Valid followed → (∀ order tid tag mode, call ≠ .acquireLock order tid tag mode) →
      (before.AllowedOn followed call → after.Valid followed) ∧
        ((∀ tid tag, followed tid tag) → after.Tracked → before.NoChangeRefused call) :=
    fun later other => ⟨fun _ => later, fun _ _ => notChange other⟩
  cases call with
  | acquireLock order tid tag mode =>
    simp only [Step, step] at taken
    split at taken
    next idle =>
      split at taken
      next covered =>
        cases taken
        refine ⟨fun _ => valid, fun _ _ => ?_⟩
        rintro _ _ _ _ ⟨⟩ uncovered
        exact absurd covered (by simp [uncovered])
      next uncovered =>
        obtain ⟨result, made, rfl⟩ := Option.map_eq_some_iff.mp taken
        obtain ⟨keeps, needs⟩ := acquire_step valid idle (by simpa using uncovered) (effect_of_step made)
        exact ⟨fun allowed => keeps (allowed _ _ _ _ rfl), fun all => needs (all tid tag)⟩
    next => cases taken
  | wake index =>
    obtain ⟨result, made, rfl⟩ := Option.map_eq_some_iff.mp taken
    exact fine (wake_step valid (effect_of_step made)) (by simp)
  | enter tid =>
    simp only [Step, step] at taken
    split at taken
    next granted =>
      cases taken
      exact fine (enter_step valid granted) (by simp)
    next => cases taken
  | releaseAllLocks tid tags =>
    simp only [Step, step] at taken
    split at taken
    next ready =>
      cases taken
      exact fine (release_step valid ready.1 ready.2) (by simp)
    next => cases taken
  | unlockNext tid =>
    simp only [Step, step] at taken
    split at taken
    next releasing =>
      obtain ⟨result, made, rfl⟩ := Option.map_eq_some_iff.mp taken
      exact fine (unlock_step valid releasing (effect_of_step made)) (by simp)
    next => cases taken
  | finishRelease tid =>
    simp only [Step, step] at taken
    split at taken
    next releasing =>
      cases taken
      exact fine (finish_step valid releasing) (by simp)
    next => cases taken

/-- In every run the two tables agree for each transaction without a call exactly
as long as no change of a held mode is refused as a deadlock. -/
theorem tracked_throughout_iff {steps : List (Taken Sessions SessionCall)} {final : Sessions}
    (run : Run Step initial steps final) :
    (∀ taken ∈ steps, taken.after.Tracked) ↔ ∀ taken ∈ steps, taken.before.NoChangeRefused taken.label := by
  apply run.reached_iff NoChangeRefused (Valid fun _ _ => True) Tracked valid_initial
  · intro before call after valid allowed taken
    exact (valid_step valid taken).1 fun _ _ _ _ _ _ => allowed
  · intro before call after valid taken
    obtain ⟨keeps, needs⟩ := valid_step valid taken
    refine ⟨needs fun _ _ => trivial, fun allowed tid idle tag => ?_⟩
    exact (keeps fun _ _ _ _ _ _ => allowed).agrees idle trivial

theorem system_afterLock (result : Event × System) : (before.afterLock result).system = result.2 := by
  obtain ⟨event, system⟩ := result
  cases event <;> rfl

theorem orderly_session (valid : before.Valid followed) (orderly : before.system.Orderly)
    (taken : before.Step call after) : after.system.Orderly := by
  have runs : ∀ request result, before.system.step request = some result → before.system.OneOutstanding request →
      result.2.Orderly := fun request result made alone => @System.orderly_step _ _ (request, result.1) orderly alone made
  cases call with
  | acquireLock order tid tag mode =>
    simp only [Step, step] at taken
    split at taken
    next idle =>
      split at taken
      next =>
        cases taken
        exact orderly
      next =>
        obtain ⟨result, made, rfl⟩ := Option.map_eq_some_iff.mp taken
        rw [system_afterLock]
        exact runs _ result made (valid.awake (by simp [idle]))
    next => cases taken
  | wake index =>
    obtain ⟨result, made, rfl⟩ := Option.map_eq_some_iff.mp taken
    rw [system_afterLock]
    exact runs _ result made trivial
  | unlockNext tid =>
    simp only [Step, step] at taken
    split at taken
    next =>
      obtain ⟨result, made, rfl⟩ := Option.map_eq_some_iff.mp taken
      exact runs _ result made trivial
    next => cases taken
  | enter | releaseAllLocks | finishRelease =>
    simp only [Step, step] at taken
    split at taken
    all_goals cases taken
    exact orderly

/-- Whatever the transactions do, each waits at most for one that is not kept waiting itself. -/
theorem someone_goes_on {steps : List (Taken Sessions SessionCall)} {final : Sessions} (run : Run Step initial steps final)
    (tid : TransactionID) : ∃ last, Relation.ReflTransGen final.system.lm.WaitsFor tid last ∧
      ∀ sleeper ∈ final.system.sleepers, sleeper.tid = last → ¬ final.system.lm.Blocked last sleeper.tag sleeper.mode := by
  have kept := run.invariant (fun sessions => sessions.Valid (fun _ _ => False) ∧ sessions.system.Orderly)
    ⟨valid_initial, System.orderly_initial⟩ fun before call after ⟨valid, orderly⟩ taken =>
      ⟨(valid_step valid taken).1 fun _ _ _ _ _ never => never.elim, orderly_session valid orderly taken⟩
  exact kept.2.exists_unblocked tid

theorem writer_goes_on : ∃ steps final, Run Step initial steps final ∧ final.system.sleepers ≠ [] ∧
    ∃ last, Relation.ReflTransGen final.system.lm.WaitsFor 1 last ∧
      ∀ sleeper ∈ final.system.sleepers, sleeper.tid = last → ¬ final.system.lm.Blocked last sleeper.tag sleeper.mode := by
  have writes := (@Run.nil _ _ Step initial).extend (.acquireLock .stored 2 (newTableLockTag 1) .X) rfl
  have run := writes.extend (.acquireLock .stored 1 (newTableLockTag 1) .S) rfl
  exact ⟨_, _, run, cons_ne_nil _ _, someone_goes_on run 1⟩

theorem sole_change_tracked : ∃ steps final, Run Step initial steps final ∧
    (final.contexts 1).heldLocks.lookup (newTableLockTag 1) = some .X ∧ ∀ taken ∈ steps, taken.after.Tracked := by
  let table := newTableLockTag 1
  have entered := ((@Run.nil _ _ Step initial).extend (.acquireLock .stored 1 table .IX) rfl).extend (.enter 1) rfl
  have run := (entered.extend (.acquireLock .stored 1 table .X) rfl).extend (.enter 1) rfl
  refine ⟨_, _, run, rfl, (tracked_throughout_iff run).mpr ?_⟩
  intro taken member order tid tag mode same _ _ _ blocked
  simp only [nil_append, cons_append, mem_cons, not_mem_nil, or_false] at member
  rcases member with rfl | rfl | rfl | rfl
  · obtain ⟨other, existing, -, holds, -⟩ := blocked
    cases holds
  · cases same
  · cases same
    obtain ⟨other, existing, apart, holds, -⟩ := blocked
    have holds : (newLockManager.grant 1 table .IX).held table other = some existing := holds
    rw [held_grant, if_neg fun same => apart same.2] at holds
    cases holds
  · cases same

/-- Two transactions in each other's way: the one that is refused X has lost the IX
that its own table still lists. -/
theorem refused_change_untracked : ∃ steps final, Run Step initial steps final ∧ ¬ final.Tracked := by
  let accounts := newTableLockTag 1
  let orders := newTableLockTag 2
  let granted := ((newLockManager.grant 1 accounts .X).grant 1 orders .IX).grant 2 orders .IS
  have first := ((@Run.nil _ _ Step initial).extend (.acquireLock .stored 1 accounts .X) rfl).extend (.enter 1) rfl
  have second := (first.extend (.acquireLock .stored 1 orders .IX) rfl).extend (.enter 1) rfl
  have reads : Run Step initial _ ⟨⟨granted, []⟩, _⟩ :=
    (second.extend (.acquireLock .stored 2 orders .IS) rfl).extend (.enter 2) rfl
  have waits : Run Step initial _ ⟨⟨granted.enqueue 2 accounts, [⟨2, accounts, .X, false⟩]⟩, _⟩ :=
    reads.extend (.acquireLock .stored 2 accounts .X) rfl
  refine ⟨_, _, waits.extend (.acquireLock .stored 1 orders .X) rfl, fun tracked => ?_⟩
  cases (show some DBLockMode.IX = none from tracked 1 rfl orders)

end Sessions
end GoDB.Transaction
