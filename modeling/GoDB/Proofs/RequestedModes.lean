import GoDB.Proofs.HeldLocks

/-! What a transaction holds on a tag after several requests for it. `AcquireLock` either keeps
the mode at hand or replaces it with the one requested, so two modes of which neither covers the
other do not add up. -/

namespace GoDB.Transaction
open Common Lib DBLockMode List Option Function

/-- Holding the first mode is as good as holding the second. -/
def DBLockMode.includes : DBLockMode → DBLockMode → Bool
  | X, _ => true
  | SIX, mode => mode ≠ X
  | S, mode => mode = S ∨ mode = IS
  | IX, mode => mode = IX ∨ mode = IS
  | IS, mode => mode = IS

def heldNext (current : Option DBLockMode) (mode : DBLockMode) : Option DBLockMode :=
  if current.any (covers · mode) then current else some mode

def heldFor (requests : List DBLockMode) : Option DBLockMode := requests.foldl heldNext none

theorem heldFor_concat (requests : List DBLockMode) (mode : DBLockMode) :
    heldFor (requests ++ [mode]) = heldNext (heldFor requests) mode := by
  rw [heldFor, foldl_append]
  rfl

structure Strongest (requests : List DBLockMode) (mode : DBLockMode) : Prop where
  requested : mode ∈ requests
  exclusive : X ∈ requests → mode = X
  six : SIX ∈ requests → mode = X ∨ mode = SIX
  intention : mode = IS → S ∉ requests ∧ IX ∉ requests

theorem strongest_concat {requests : List DBLockMode} {current : DBLockMode}
    (strongest : Strongest requests current) (mode : DBLockMode) :
    ∃ next, heldNext (some current) mode = some next ∧ Strongest (requests ++ [mode]) next := by
  obtain ⟨requested, exclusive, six, intention⟩ := strongest
  by_cases covered : covers current mode
  · refine ⟨current, by simp [heldNext, covered], mem_append_left _ requested, ?_, ?_, ?_⟩
    all_goals cases current <;> cases mode <;> simp_all [covers]
  · refine ⟨mode, by simp [heldNext, covered], mem_append_right _ mem_cons_self, ?_, ?_, ?_⟩
    all_goals cases current <;> cases mode <;> simp_all [covers]

theorem strongest_heldFor {requests : List DBLockMode} (asked : requests ≠ []) :
    ∃ mode, heldFor requests = some mode ∧ Strongest requests mode := by
  induction requests using List.reverseRecOn with
  | nil => exact (asked rfl).elim
  | append_singleton requests mode ih =>
    rw [heldFor_concat]
    cases requests with
    | nil =>
      refine ⟨mode, rfl, mem_singleton_self _, ?_, ?_, ?_⟩
      all_goals cases mode <;> simp
    | cons first rest =>
      obtain ⟨current, held, strongest⟩ := ih (cons_ne_nil _ _)
      rw [held]
      exact strongest_concat strongest mode

theorem heldFor_includes_iff {requests : List DBLockMode} (asked : requests ≠ []) :
    (∃ mode, heldFor requests = some mode ∧ ∀ request ∈ requests, mode.includes request) ↔
      X ∈ requests ∨ SIX ∈ requests ∨ ¬ (S ∈ requests ∧ IX ∈ requests) := by
  obtain ⟨mode, held, requested, exclusive, six, intention⟩ := strongest_heldFor asked
  have only : (∃ mode, heldFor requests = some mode ∧ ∀ request ∈ requests, mode.includes request) ↔
      ∀ request ∈ requests, mode.includes request := by simp [held]
  rw [only]
  constructor
  · intro all
    by_contra! ⟨_, _, shared, intent⟩
    have first := all S shared
    have second := all IX intent
    cases mode <;> simp_all [DBLockMode.includes]
  · intro condition request member
    cases mode <;> cases request <;> simp_all [DBLockMode.includes]

namespace Sessions

def acquired (tid : TransactionID) (tag : DBLockTag) (taken : Taken Sessions SessionCall) : Option DBLockMode :=
  match taken.label with
  | .acquireLock _ caller asked mode =>
    if caller = tid ∧ asked = tag ∧ ((taken.before.contexts tid).heldLocks.lookup tag).any (covers · mode) then some mode
    else none
  | .enter caller =>
    match (taken.before.contexts tid).activity with
    | .granted asked mode => if caller = tid ∧ asked = tag then some mode else none
    | _ => none
  | _ => none

/-- The successful requests of the transaction for the tag since its last release. -/
def requestsNext (tid : TransactionID) (tag : DBLockTag) (requests : List DBLockMode)
    (taken : Taken Sessions SessionCall) : List DBLockMode :=
  match taken.label with
  | .finishRelease caller => if caller = tid then [] else requests
  | _ => requests ++ (acquired tid tag taken).toList

def requests (tid : TransactionID) (tag : DBLockTag) (steps : List (Taken Sessions SessionCall)) : List DBLockMode :=
  steps.foldl (requestsNext tid tag) []

theorem requests_concat (tid : TransactionID) (tag : DBLockTag) (steps : List (Taken Sessions SessionCall))
    (last : Taken Sessions SessionCall) :
    requests tid tag (steps ++ [last]) = requestsNext tid tag (requests tid tag steps) last := by
  rw [requests, foldl_append]
  rfl

def wanted : Activity → Option (DBLockTag × DBLockMode)
  | .asleep tag mode | .granted tag mode => some (tag, mode)
  | .idle | .releasing _ => none

/-- The table is as the requests leave it, and a call under way is for a mode that it does not cover. -/
structure Recorded (tid : TransactionID) (tag : DBLockTag) (asked : List DBLockMode) (sessions : Sessions) :
    Prop where
  held : (sessions.contexts tid).heldLocks.lookup tag = heldFor asked
  uncovered : ∀ mode, wanted (sessions.contexts tid).activity = some (tag, mode) →
    ((sessions.contexts tid).heldLocks.lookup tag).any (covers · mode) = false

variable {before after : Sessions} {call : SessionCall} {tid caller : TransactionID} {tag target : DBLockTag}
  {mode : DBLockMode} {asked : List DBLockMode}

section
variable (recorded : Recorded tid tag asked before)

include recorded

theorem Recorded.frame (same : after.contexts tid = before.contexts tid) : Recorded tid tag asked after :=
  ⟨by rw [same, recorded.held], by rw [same]; exact recorded.uncovered⟩

theorem Recorded.move {system : System} {activity : Activity}
    (uncovered : caller = tid → ∀ mode, wanted activity = some (tag, mode) →
      ((before.contexts tid).heldLocks.lookup tag).any (covers · mode) = false) :
    Recorded tid tag asked ({ before with system }.setActivity caller activity) := by
  by_cases own : caller = tid
  · subst own
    have here : (({ before with system } : Sessions).setActivity caller activity).contexts caller =
        ⟨(before.contexts caller).heldLocks, activity⟩ := update_self ..
    refine ⟨?_, ?_⟩
    all_goals rw [here]
    · exact recorded.held
    · exact uncovered rfl
  · exact recorded.frame (update_of_ne (Ne.symm own) ..)

theorem Recorded.lock {order : RangeOrder} {event : Event} {system : System}
    (uncovered : ((before.contexts caller).heldLocks.lookup target).any (covers · mode) = false)
    (effect : Effect before.system (.lock order caller target mode, event) system) :
    Recorded tid tag asked (before.afterLock (event, system)) := by
  cases effect with
  | refused => exact recorded.frame rfl
  | reentered | admitted | enqueued =>
    refine recorded.move fun own other same => ?_
    subst own
    cases same
    exact uncovered

theorem Recorded.wake {followed : TransactionID → DBLockTag → Prop} {index : Nat} {event : Event}
    {system : System} (valid : before.Valid followed)
    (effect : Effect before.system (.wake index, event) system) :
    Recorded tid tag asked (before.afterLock (event, system)) := by
  cases effect with
  | @stayed _ caller target mode asleep _ | @woke _ caller target mode asleep _ =>
    refine recorded.move fun own other same => ?_
    subst own
    cases same
    have waits := valid.asleep _ (mem_of_getElem? asleep)
    exact recorded.uncovered mode (congrArg wanted waits)

theorem Recorded.enter (granted : (before.contexts tid).activity = .granted target mode) : Recorded tid tag
      (requestsNext tid tag asked ⟨before, .enter tid, before.setContext tid
        ⟨(before.contexts tid).heldLocks.insert target mode, .idle⟩⟩)
      (before.setContext tid ⟨(before.contexts tid).heldLocks.insert target mode, .idle⟩) := by
  have here : (before.setContext tid ⟨(before.contexts tid).heldLocks.insert target mode, .idle⟩).contexts tid =
      ⟨(before.contexts tid).heldLocks.insert target mode, .idle⟩ := update_self ..
  refine ⟨?_, ?_⟩
  all_goals rw [here]
  · simp only [requestsNext, acquired, granted, true_and]
    by_cases same : target = tag
    · subst same
      have uncovered := recorded.uncovered mode (by rw [granted, wanted])
      rw [if_pos rfl, toList_some, heldFor_concat, ← recorded.held, heldNext, uncovered, AList.lookup_insert]
      rfl
    · rw [if_neg same, toList_none, append_nil, AList.lookup_insert_ne (Ne.symm same)]
      exact recorded.held
  · nofun

theorem Recorded.step {followed : TransactionID → DBLockTag → Prop} (valid : before.Valid followed)
    (taken : before.Step call after) :
    Recorded tid tag (requestsNext tid tag asked ⟨before, call, after⟩) after := by
  cases call with
  | acquireLock order caller target mode =>
    simp only [Step, step] at taken
    split at taken
    next idle =>
      split at taken
      next covered =>
        cases taken
        simp only [requestsNext, acquired]
        split
        next own =>
          refine ⟨?_, recorded.uncovered⟩
          rw [toList_some, heldFor_concat, ← recorded.held, heldNext, if_pos own.2.2]
        next => simpa using recorded
      next uncovered =>
        obtain ⟨result, made, rfl⟩ := Option.map_eq_some_iff.mp taken
        have uncovered := Bool.eq_false_iff.mpr uncovered
        have nothing : acquired tid tag ⟨before, .acquireLock order caller target mode, before.afterLock result⟩ =
            none := by
          refine if_neg ?_
          rintro ⟨rfl, rfl, covered⟩
          exact absurd covered (by simp [uncovered])
        rw [requestsNext, nothing, toList_none, append_nil]
        exact recorded.lock uncovered (effect_of_step made)
    next => cases taken
  | wake index =>
    obtain ⟨result, made, rfl⟩ := Option.map_eq_some_iff.mp taken
    simp only [requestsNext, acquired, toList_none, append_nil]
    exact recorded.wake valid (effect_of_step made)
  | enter caller =>
    simp only [Step, step] at taken
    split at taken
    next target mode granted =>
      cases taken
      by_cases own : caller = tid
      · subst own
        exact recorded.enter granted
      · have nothing : acquired tid tag ⟨before, .enter caller, before.setContext caller
            ⟨(before.contexts caller).heldLocks.insert target mode, .idle⟩⟩ = none := by
          simp only [acquired]
          split
          next => rw [if_neg fun both => own both.1]
          next => rfl
        rw [requestsNext, nothing, toList_none, append_nil]
        exact recorded.frame (update_of_ne (Ne.symm own) ..)
    next => cases taken
  | releaseAllLocks caller tags =>
    simp only [Step, step] at taken
    split at taken
    next ready =>
      cases taken
      simp only [requestsNext, acquired, toList_none, append_nil]
      exact @Recorded.move before tid caller tag asked recorded before.system (.releasing tags) fun _ _ same => by cases same
    next => cases taken
  | unlockNext caller =>
    simp only [Step, step] at taken
    split at taken
    next releasing =>
      obtain ⟨result, made, rfl⟩ := Option.map_eq_some_iff.mp taken
      simp only [requestsNext, acquired, toList_none, append_nil]
      exact recorded.move fun _ _ same => by cases same
    next => cases taken
  | finishRelease caller =>
    simp only [Step, step] at taken
    split at taken
    next releasing =>
      cases taken
      simp only [requestsNext]
      split
      next own =>
        subst own
        refine ⟨?_, ?_⟩
        all_goals simp [setContext, heldFor]
      next other => exact recorded.frame (update_of_ne (Ne.symm other) ..)
    next => cases taken

end

theorem recorded_run {steps : List (Taken Sessions SessionCall)} {final : Sessions}
    (run : Run Step initial steps final) (tid : TransactionID) (tag : DBLockTag) :
    final.Valid (fun _ _ => False) ∧ Recorded tid tag (requests tid tag steps) final := by
  induction run with
  | nil => exact ⟨valid_initial, rfl, nofun⟩
  | snoc earlier taken ih =>
    obtain ⟨valid, recorded⟩ := ih
    rw [requests_concat]
    exact ⟨(valid_step valid taken).1 fun _ _ _ _ _ => False.elim, recorded.step valid taken⟩

/-- In every run, as long as no change on the tag is refused to the transaction, the mode that it
holds in the end is as good as each one it asked for since its last release exactly when one of
them was X or SIX, or when S and IX were not both among them. -/
theorem held_includes_requests_iff {steps : List (Taken Sessions SessionCall)} {final : Sessions}
    (run : Run Step initial steps final) (tid : TransactionID) (tag : DBLockTag)
    (successful : ∀ taken ∈ steps, taken.before.AllowedOn (fun caller target => caller = tid ∧ target = tag) taken.label)
    (idle : (final.contexts tid).activity = .idle) (asked : requests tid tag steps ≠ []) :
    (∃ mode, (final.contexts tid).heldLocks.lookup tag = some mode ∧ final.system.lm.held tag tid = some mode ∧
        ∀ request ∈ requests tid tag steps, mode.includes request) ↔
      X ∈ requests tid tag steps ∨ SIX ∈ requests tid tag steps ∨
        ¬ (S ∈ requests tid tag steps ∧ IX ∈ requests tid tag steps) := by
  have valid := run.invariant_when (AllowedOn fun caller target => caller = tid ∧ target = tag)
    (Valid fun caller target => caller = tid ∧ target = tag) valid_initial
    (fun _ _ _ valid allowed taken => (valid_step valid taken).1 allowed) successful
  have agree := valid.agrees idle ⟨rfl, rfl⟩
  have held := (recorded_run run tid tag).2.held
  rw [← heldFor_includes_iff asked, ← agree, held]
  simp

/-- A transaction that has S on a table asks for IX there, and is left with IX alone. -/
theorem shared_lost_to_intent : ∃ steps final, Run Step initial steps final ∧
    (∀ taken ∈ steps, taken.before.AllowedOn (fun caller target => caller = 1 ∧ target = newTableLockTag 1) taken.label) ∧
    (final.contexts 1).activity = .idle ∧ requests 1 (newTableLockTag 1) steps = [S, IX] ∧
    (final.contexts 1).heldLocks.lookup (newTableLockTag 1) = some IX ∧
    final.system.lm.held (newTableLockTag 1) 1 = some IX ∧ IX.includes S = false := by
  let table := newTableLockTag 1
  have entered := ((@Run.nil _ _ Step initial).extend (.acquireLock .stored 1 table S) rfl).extend (.enter 1) rfl
  refine ⟨_, _, (entered.extend (.acquireLock .stored 1 table IX) rfl).extend (.enter 1) rfl, ?_, rfl, rfl, rfl, rfl, rfl⟩
  rintro taken member _ _ _ _ same - order tid tag mode same' - - - ⟨other, existing, apart, holds, -⟩
  simp only [nil_append, cons_append, mem_cons, not_mem_nil, or_false] at member
  rcases member with rfl | rfl | rfl | rfl
  · cases holds
  · cases same
  · cases same'
    have holds : (newLockManager.grant 1 table S).held table other = some existing := holds
    rw [LockManager.held_grant, if_neg fun same => apart same.2] at holds
    cases holds
  · cases same

theorem shared_includes_intent : ∃ steps final mode, Run Step initial steps final ∧
    requests 1 (newTableLockTag 1) steps = [S, IS] ∧
    (final.contexts 1).heldLocks.lookup (newTableLockTag 1) = some mode ∧
    final.system.lm.held (newTableLockTag 1) 1 = some mode ∧
    ∀ request ∈ requests 1 (newTableLockTag 1) steps, mode.includes request := by
  let table := newTableLockTag 1
  have entered := ((@Run.nil _ _ Step initial).extend (.acquireLock .stored 1 table S) rfl).extend (.enter 1) rfl
  have run := entered.extend (.acquireLock .stored 1 table IS) rfl
  have included := (held_includes_requests_iff run 1 table ?_ rfl (cons_ne_nil _ _)).mpr (.inr (.inr (by decide)))
  · obtain ⟨mode, entry, held, all⟩ := included
    exact ⟨_, _, mode, run, rfl, entry, held, all⟩
  · rintro taken member _ _ _ _ same - order tid tag mode same' uncovered - - ⟨other, existing, apart, holds, -⟩
    simp only [nil_append, cons_append, mem_cons, not_mem_nil, or_false] at member
    rcases member with rfl | rfl | rfl
    · cases holds
    · cases same
    · cases same'
      cases uncovered

end Sessions
end GoDB.Transaction
