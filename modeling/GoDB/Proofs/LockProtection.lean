import GoDB.Proofs.LockCompatibility

/-! A granted lock protects its owner until the owner unlocks, also across later
requests on the same tag. `Lock` gives the old mode up before it knows whether
it has to wait, so this needs every change of mode to take effect at once. -/

namespace GoDB.Transaction
open Common Lib List LockManager

abbrev Steps := List (Taken System (Call × Event))

def Covers (allowed : DBLockMode → DBLockMode → Bool) (stronger weaker : DBLockMode) : Prop :=
  ∀ other, allowed other stronger = true → allowed other weaker = true

theorem Covers.trans {allowed : DBLockMode → DBLockMode → Bool} {first second third : DBLockMode}
    (upper : Covers allowed first second) (lower : Covers allowed second third) : Covers allowed first third :=
  fun other admitted => lower other (upper other admitted)

/-- The grant was made and its owner has not called `Unlock` on the tag since. -/
def Owed (steps : Steps) (tid : TransactionID) (tag : DBLockTag) (mode : DBLockMode) : Prop :=
  ∃ earlier grant between, steps = earlier ++ grant :: between ∧ grant.label.2 = .granted tid tag mode ∧
    ∀ taken ∈ between, taken.label.1 ≠ .unlock tid tag

/-- From a grant up to the owner's `Unlock`, every mode that another transaction
is granted on the tag is allowed beside it. -/
def Protected (allowed : DBLockMode → DBLockMode → Bool) (steps : Steps) : Prop :=
  ∀ earlier later rest tid tag mode other otherMode, steps = earlier ++ later :: rest →
    Owed earlier tid tag mode → later.label.2 = .granted other tag otherMode → other ≠ tid →
    allowed otherMode mode = true

theorem Owed.last {steps : Steps} {last : Taken System (Call × Event)} {tid : TransactionID} {tag : DBLockTag}
    {mode : DBLockMode} (owed : Owed (steps ++ [last]) tid tag mode) :
    last.label.2 = .granted tid tag mode ∨ Owed steps tid tag mode ∧ last.label.1 ≠ .unlock tid tag := by
  obtain ⟨earlier, grant, between, listed, granted, kept⟩ := owed
  rcases eq_nil_or_concat between with rfl | ⟨shorter, final, rfl⟩
  · have same := (append_inj' listed rfl).2
    cases same
    exact .inl granted
  · rw [concat_eq_append, ← cons_append, ← append_assoc] at listed
    obtain ⟨rfl, same⟩ := append_inj' listed rfl
    cases same
    refine .inr ⟨⟨earlier, grant, shorter, rfl, granted, ?_⟩, kept _ (by simp)⟩
    exact fun taken member => kept taken (by simp [member])

theorem Owed.granted {steps : Steps} {before after final : System} {call : Call} {tid other : TransactionID}
    {tag otherTag : DBLockTag} {mode otherMode : DBLockMode} (owed : Owed steps tid tag mode)
    (taken : before.Step (call, .granted other otherTag otherMode) after) :
    Owed (steps ++ [⟨before, (call, .granted other otherTag otherMode), final⟩]) tid tag mode := by
  obtain ⟨earlier, grant, between, rfl, given, locked⟩ := owed
  refine ⟨earlier, grant, between ++ [_], append_assoc .., given, ?_⟩
  intro step member
  rcases List.mem_append.mp member with member | member
  · exact locked step member
  · cases List.mem_singleton.mp member
    intro unlocked
    cases unlocked
    cases effect_of_step taken

namespace System

/-- A transaction that holds the tag in another mode asks for one that covers it,
and a fresh call finds no conflict. -/
def KeepsHeld (allowed : DBLockMode → DBLockMode → Bool) (system : System) (call : Call) : Prop :=
  ∀ tid tag mode current, system.request call = some (tid, tag, mode) →
    system.lm.held tag tid = some current → current ≠ mode →
    (¬ system.lm.Blocked tid tag mode → Covers allowed mode current) ∧
      (∀ order, call = .lock order tid tag mode → ¬ system.lm.Blocked tid tag mode)

theorem held_of_granted {before after : System} {call : Call} {tid : TransactionID} {tag : DBLockTag}
    {mode : DBLockMode} (taken : before.Step (call, .granted tid tag mode) after) :
    after.lm.held tag tid = some mode := by
  cases effect_of_step taken with
  | reentered own => exact own
  | admitted | woke => simp [held_grant]

variable {allowed : DBLockMode → DBLockMode → Bool} {before after : System} {label : Call × Event}
  {tid : TransactionID} {tag : DBLockTag} {mode current : DBLockMode}

theorem held_covered (taken : before.Step label after) (keeps : KeepsHeld allowed before label.1)
    (holds : before.lm.held tag tid = some current) (covers : Covers allowed current mode)
    (locked : label.1 ≠ .unlock tid tag) :
    ∃ later, after.lm.held tag tid = some later ∧ Covers allowed later mode := by
  cases effect_of_step taken with
  | reentered | absent | stayed => exact ⟨current, holds, covers⟩
  | @admitted order tid' tag' mode' rest own free vacated =>
    by_cases same : tag = tag' ∧ tid = tid'
    · obtain ⟨rfl, rfl⟩ := same
      have apart : current ≠ mode' := fun equal => own (holds.trans (congrArg some equal))
      have stronger := (keeps tid tag mode' current rfl holds apart).1 free
      exact ⟨mode', by simp [held_grant], stronger.trans covers⟩
    · exact ⟨current, by simpa [held_grant, vacated.held, same] using holds, covers⟩
  | @refused order tid' tag' mode' rest own blocked vacated
  | @enqueued order tid' tag' mode' rest own blocked vacated =>
    by_cases same : tag = tag' ∧ tid = tid'
    · obtain ⟨rfl, rfl⟩ := same
      have apart : current ≠ mode' := fun equal => own (holds.trans (congrArg some equal))
      exact absurd blocked ((keeps tid tag mode' current rfl holds apart).2 order rfl)
    · exact ⟨current, by simpa [vacated.held, same] using holds, covers⟩
  | @woke index tid' tag' mode' asleep free =>
    by_cases same : tag = tag' ∧ tid = tid'
    · obtain ⟨rfl, rfl⟩ := same
      refine ⟨mode', by simp [held_grant], ?_⟩
      by_cases unchanged : current = mode'
      · exact unchanged ▸ covers
      · exact ((keeps tid tag mode' current (by simp [request, asleep]) holds unchanged).1 free).trans covers
    · exact ⟨current, by simpa [held_grant, same] using holds, covers⟩
  | @released tid' tag' _ rest _ own vacated =>
    have other : ¬ (tag = tag' ∧ tid = tid') := by
      rintro ⟨sameTag, sameTid⟩
      exact locked (by rw [sameTag, sameTid])
    exact ⟨current, by simpa [vacated.held, other] using holds, covers⟩

theorem owed_covered {steps : Steps} {final : System} (run : Run Step initial steps final)
    (keeps : ∀ taken ∈ steps, KeepsHeld allowed taken.before taken.label.1)
    (owed : Owed steps tid tag mode) : ∃ later, final.lm.held tag tid = some later ∧ Covers allowed later mode := by
  induction run generalizing mode with
  | nil =>
    obtain ⟨earlier, grant, between, listed, _⟩ := owed
    simp at listed
  | @snoc steps state label final earlier taken ih =>
    rcases owed.last with granted | ⟨before, locked⟩
    · obtain ⟨call, event⟩ := label
      cases granted
      exact ⟨mode, held_of_granted taken, fun _ admitted => admitted⟩
    · obtain ⟨current, holds, covers⟩ := ih (fun item member => keeps item (by simp [member])) before
      exact held_covered taken (keeps ⟨state, label, final⟩ (by simp)) holds covers locked

section
variable (symmetric : ∀ first second, allowed first second = allowed second first)

include symmetric

theorem agrees_throughout {steps : Steps} {final : System} (run : Run Step initial steps final)
    (admits : ∀ taken ∈ steps, Admits allowed taken.before taken.label.1) : Agrees allowed final :=
  run.invariant_when (fun system label => Admits allowed system label.1) (Agrees allowed) (agrees_initial allowed)
    (fun _ _ _ agrees meets taken => (agrees_step symmetric agrees taken).mpr meets) admits

theorem protected_when {steps : Steps} {final : System} (run : Run Step initial steps final)
    (keeps : ∀ taken ∈ steps, KeepsHeld allowed taken.before taken.label.1)
    (admits : ∀ taken ∈ steps, Admits allowed taken.before taken.label.1) : Protected allowed steps := by
  intro earlier later rest tid tag mode other otherMode listed owed granted apart
  subst listed
  rw [append_cons] at run keeps admits
  obtain ⟨state, first, -⟩ := run.split
  have keepsFirst := fun taken member => keeps taken (mem_append_left rest member)
  have admitsFirst := fun taken member => admits taken (mem_append_left rest member)
  obtain ⟨-, taken, -⟩ := first.last
  obtain ⟨stateBefore, ⟨call, event⟩, stateAfter⟩ := later
  cases granted
  obtain ⟨current, holds, covers⟩ := owed_covered first keepsFirst (owed.granted taken)
  have agrees := agrees_throughout symmetric first admitsFirst
  exact covers _ (agrees tag other tid otherMode current apart (held_of_granted taken) holds)

end

/-- In every run where each change of mode takes effect at once and asks for no
less than before, a grant protects its owner until the owner unlocks: against
what the lock manager calls incompatible, and against the whole matrix as long
as S and SIX stay apart. -/
theorem protected_throughout {steps : Steps} {final : System} (run : Run Step initial steps final) :
    ((∀ taken ∈ steps, KeepsHeld isCompatible taken.before taken.label.1) → Protected isCompatible steps) ∧
      ((∀ taken ∈ steps, KeepsHeld compatible taken.before taken.label.1 ∧
        SeparatesSIX taken.before taken.label.1) → Protected compatible steps) := by
  refine ⟨fun keeps => ?_, fun meets => ?_⟩
  · exact protected_when isCompatible_comm run keeps (fun _ _ => admits_isCompatible _ _)
  · refine protected_when compatible_comm run (fun taken member => (meets taken member).1) ?_
    intro taken member
    exact (admits_compatible_iff _ _).mpr (meets taken member).2

theorem keepsHeld_of_none {system : System} {order : RangeOrder} (none : system.lm.held tag tid = none) :
    KeepsHeld allowed system (.lock order tid tag mode) := by
  intro _ _ _ current requested holds
  cases requested
  cases none.symm.trans holds

/-- A second transaction writes beside a lock that was changed, and a reader waits for both. -/
theorem changed_lock_protected : ∃ steps final, Run Step initial steps final ∧
    steps.map (fun taken => taken.label.2) = [.granted 1 (newTableLockTag 1) .IS, .granted 1 (newTableLockTag 1) .IX,
      .granted 2 (newTableLockTag 1) .IX, .waiting 3 (newTableLockTag 1) .S] ∧
    Protected isCompatible steps ∧ Protected compatible steps := by
  let table := newTableLockTag 1
  have first := (@Run.nil _ _ Step initial).extend (.lock .stored 1 table .IS, _) rfl
  have changed := first.extend (.lock .stored 1 table .IX, _) rfl
  have beside := changed.extend (.lock .stored 2 table .IX, _) rfl
  have run := beside.extend (.lock .stored 3 table .S, _) rfl
  have keeps {allowed : DBLockMode → DBLockMode → Bool} (covers : Covers allowed .IX .IS) :
      KeepsHeld allowed ⟨newLockManager.grant 1 table .IS, []⟩ (.lock .stored 1 table .IX) := by
    intro _ _ _ current requested holds _
    cases requested
    cases holds
    exact ⟨fun _ => covers, fun _ _ => (conflict_eq_false_iff ..).mp rfl⟩
  refine ⟨_, _, run, rfl, (protected_throughout run).1 ?_, (protected_throughout run).2 ?_⟩
  all_goals simp only [nil_append, cons_append, forall_mem_cons]
  · exact ⟨keepsHeld_of_none rfl, keeps fun other => by cases other <;> decide, keepsHeld_of_none rfl,
      keepsHeld_of_none rfl, forall_mem_nil _⟩
  · refine ⟨⟨keepsHeld_of_none rfl, ?_⟩, ⟨keeps fun other => by cases other <;> decide, ?_⟩, ⟨keepsHeld_of_none rfl, ?_⟩,
      ⟨keepsHeld_of_none rfl, ?_⟩, forall_mem_nil _⟩
    all_goals
      intro _ _ _ requested free
      cases requested
    · simp [SharedBesideSIX]
    · simp [SharedBesideSIX]
    · simp [SharedBesideSIX]
    · exact absurd ((conflict_iff ..).mp rfl) free

/-- Two readers upgrade: the first gives up its S and waits, the second is
granted X although the first never unlocked. -/
theorem upgrade_loses_protection : ∃ steps final, Run Step initial steps final ∧
    ¬ Protected isCompatible steps ∧ ¬ Protected compatible steps := by
  let table := newTableLockTag 1
  have first := (@Run.nil _ _ Step initial).extend (.lock .stored 1 table .S, _) rfl
  have second := first.extend (.lock .stored 2 table .S, _) rfl
  have blocked := second.extend (.lock .stored 1 table .X, _) rfl
  refine ⟨_, _, blocked.extend (.lock .stored 2 table .X, _) rfl, ?_, ?_⟩
  all_goals
    intro protects
    refine absurd (protects _ _ [] 1 table .S 2 .X rfl ⟨[], _, _, rfl, rfl, ?_⟩ rfl (by decide)) (by decide)
    simp

end System
end GoDB.Transaction
