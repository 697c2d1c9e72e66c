import GoDB.Proofs.LockSteps

/-! Which modes can be held side by side. The admission test lets S stand beside
SIX, which the multi-granularity matrix does not; every other pair agrees. -/

namespace GoDB.Transaction
open Common Lib LockManager

/-- The multi-granularity matrix of the tests. -/
def compatible : DBLockMode → DBLockMode → Bool
  | .X, _ | _, .X => false
  | .IS, _ | _, .IS => true
  | .S, .S | .IX, .IX => true
  | .S, _ | .IX, _ | .SIX, _ => false

variable (requested existing : DBLockMode)

def SharedBesideSIX : Prop :=
  requested = .S ∧ existing = .SIX ∨ requested = .SIX ∧ existing = .S

instance (requested existing : DBLockMode) : Decidable (SharedBesideSIX requested existing) :=
  inferInstanceAs (Decidable (_ ∨ _))

theorem isCompatible_iff : isCompatible requested existing = true ↔
    compatible requested existing = true ∨ SharedBesideSIX requested existing := by
  cases requested <;> cases existing <;> decide

theorem compatible_excludes (allowed : compatible requested existing = true) : ¬ SharedBesideSIX requested existing := by
  revert allowed
  cases requested <;> cases existing <;> decide

theorem compatible_comm (first second : DBLockMode) : compatible first second = compatible second first := by
  cases first <;> cases second <;> rfl

theorem isCompatible_comm (first second : DBLockMode) : isCompatible first second = isCompatible second first := by
  cases first <;> cases second <;> rfl

namespace System
variable (system : System) (call : Call)

def request : Call → Option (TransactionID × DBLockTag × DBLockMode)
  | .lock _ tid tag mode => some (tid, tag, mode)
  | .wake index => (system.sleepers[index]?).bind fun sleeper =>
      if sleeper.woken then some (sleeper.tid, sleeper.tag, sleeper.mode) else none
  | .unlock _ _ => none

/-- Different transactions on one tag hold modes that are allowed together. -/
def Agrees (allowed : DBLockMode → DBLockMode → Bool) (system : System) : Prop :=
  ∀ tag first second firstMode secondMode, first ≠ second →
    system.lm.held tag first = some firstMode → system.lm.held tag second = some secondMode →
    allowed firstMode secondMode = true

/-- A request that finds no conflict is allowed beside every other holder. -/
def Admits (allowed : DBLockMode → DBLockMode → Bool) (system : System) (call : Call) : Prop :=
  ∀ tid tag mode, system.request call = some (tid, tag, mode) → ¬ system.lm.Blocked tid tag mode →
    ∀ other existing, other ≠ tid → system.lm.held tag other = some existing → allowed mode existing = true

theorem agrees_initial (allowed : DBLockMode → DBLockMode → Bool) : Agrees allowed initial := by
  intro tag first second firstMode secondMode _ holds
  cases holds

variable {before after : System} {tid : TransactionID} {tag : DBLockTag} {mode : DBLockMode}
  {allowed : DBLockMode → DBLockMode → Bool}

theorem Agrees.fewer (agrees : Agrees allowed before)
    (fewer : ∀ tag tid mode, after.lm.held tag tid = some mode → before.lm.held tag tid = some mode) :
    Agrees allowed after := by
  intro tag first second firstMode secondMode apart firstHolds secondHolds
  exact agrees tag first second firstMode secondMode apart (fewer _ _ _ firstHolds) (fewer _ _ _ secondHolds)

theorem Agrees.vacated (agrees : Agrees allowed before)
    (given : ∀ tag' tid', after.lm.held tag' tid' = if tag' = tag ∧ tid' = tid then none else before.lm.held tag' tid') :
    Agrees allowed after := by
  apply agrees.fewer
  intro tag' tid' mode holds
  rw [given] at holds
  split at holds
  · cases holds
  · exact holds

theorem Agrees.add (symmetric : ∀ first second, allowed first second = allowed second first)
    (agrees : Agrees allowed before)
    (others : ∀ tag' tid', ¬ (tag' = tag ∧ tid' = tid) → after.lm.held tag' tid' = before.lm.held tag' tid')
    (own : after.lm.held tag tid = some mode)
    (admits : ∀ other existing, other ≠ tid → before.lm.held tag other = some existing →
      allowed mode existing = true) : Agrees allowed after := by
  intro tag' first second firstMode secondMode apart firstHolds secondHolds
  by_cases onTag : tag' = tag
  · subst tag'
    by_cases firstOwn : first = tid
    · subst first
      rw [own] at firstHolds
      cases firstHolds
      rw [others tag second (fun same => apart same.2.symm)] at secondHolds
      exact admits second secondMode apart.symm secondHolds
    · rw [others tag first (fun same => firstOwn same.2)] at firstHolds
      by_cases secondOwn : second = tid
      · subst second
        rw [own] at secondHolds
        cases secondHolds
        rw [symmetric]
        exact admits first firstMode apart firstHolds
      · rw [others tag second (fun same => secondOwn same.2)] at secondHolds
        exact agrees tag first second firstMode secondMode apart firstHolds secondHolds
  · rw [others tag' first (fun same => onTag same.1)] at firstHolds
    rw [others tag' second (fun same => onTag same.1)] at secondHolds
    exact agrees tag' first second firstMode secondMode apart firstHolds secondHolds

theorem request_wake {index : Nat} (asleep : before.sleepers[index]? = some ⟨tid, tag, mode, true⟩) :
    before.request (.wake index) = some (tid, tag, mode) := by
  simp [request, asleep]

theorem agrees_step (symmetric : ∀ first second, allowed first second = allowed second first)
    {label : Call × Event} (agrees : Agrees allowed before) (taken : before.Step label after) :
    Agrees allowed after ↔ Admits allowed before label.1 := by
  have effect := effect_of_step taken
  constructor
  · intro later tid' tag' mode' requested free other existing apart holds
    cases effect with
    | reentered own =>
      cases requested
      exact later _ _ _ _ _ apart.symm own holds
    | admitted own _ vacated =>
      cases requested
      refine later tag' tid' other mode' existing apart.symm ?_ ?_
      · simp [held_grant]
      · simpa [held_grant, vacated.held, apart] using holds
    | refused own blocked | enqueued own blocked =>
      cases requested
      exact absurd blocked free
    | stayed asleep blocked =>
      cases (request_wake asleep).symm.trans requested
      exact absurd blocked free
    | woke asleep _ =>
      cases (request_wake asleep).symm.trans requested
      refine later tag' tid' other mode' existing apart.symm ?_ ?_
      · simp [held_grant]
      · simpa [held_grant, apart] using holds
    | released | absent => cases requested
  · intro admits
    cases effect with
    | reentered | absent => exact agrees
    | @admitted _ tid tag mode rest own free vacated =>
      refine agrees.add symmetric ?_ ?_ (admits tid tag mode rfl free)
      · intro tag' tid' other
        simp [held_grant, vacated.held, other]
      · simp [held_grant]
    | refused own blocked vacated | enqueued own blocked vacated => exact agrees.vacated vacated.held
    | stayed => exact agrees
    | @woke index tid tag mode asleep free =>
      refine agrees.add symmetric ?_ ?_ (admits tid tag mode (request_wake asleep) free)
      · intro tag' tid' other
        simp [held_grant, other]
      · simp [held_grant]
    | released own vacated => exact agrees.vacated vacated.held

theorem admits_isCompatible : Admits isCompatible system call := by
  intro tid tag mode _ free other existing apart holds
  by_contra refused
  exact free ⟨other, existing, apart, holds, by simpa using refused⟩

/-- Different transactions on one tag hold modes that the matrix of the tests
allows side by side. -/
def Isolated : Prop := Agrees compatible system

/-- The section does not admit S next to another's SIX, or SIX next to another's S. -/
def SeparatesSIX : Prop :=
  ∀ tid tag mode, system.request call = some (tid, tag, mode) → ¬ system.lm.Blocked tid tag mode →
    ∀ other existing, other ≠ tid → system.lm.held tag other = some existing → ¬ SharedBesideSIX mode existing

theorem admits_compatible_iff : Admits compatible system call ↔ SeparatesSIX system call := by
  constructor
  · intro admits tid tag mode requested free other existing apart holds
    exact compatible_excludes _ _ (admits tid tag mode requested free other existing apart holds)
  · intro separates tid tag mode requested free other existing apart holds
    have passed := admits_isCompatible system call tid tag mode requested free other existing apart holds
    exact ((isCompatible_iff _ _).mp passed).resolve_right
      (separates tid tag mode requested free other existing apart holds)

/-- In every run the table stays within the matrix exactly as long as no section
admits S beside SIX. -/
theorem isolated_throughout_iff {steps : List (Taken System (Call × Event))} {final : System}
    (run : Run Step initial steps final) :
    (∀ taken ∈ steps, Isolated taken.after) ↔ ∀ taken ∈ steps, SeparatesSIX taken.before taken.label.1 := by
  have exactly : ∀ before label after, Isolated before → before.Step label after →
      (Isolated after ↔ SeparatesSIX before label.1) := by
    intro before label after isolated taken
    rw [← admits_compatible_iff]
    exact agrees_step compatible_comm isolated taken
  apply run.reached_iff (fun system label => SeparatesSIX system label.1) Isolated Isolated (agrees_initial compatible)
  · intro before label after isolated separates taken
    exact (exactly before label after isolated taken).mpr separates
  · exact exactly

theorem intent_beside_six_isolated : ∃ steps final, Run Step initial steps final ∧ steps.length = 2 ∧
    ∀ taken ∈ steps, Isolated taken.after := by
  let table := newTableLockTag 1
  have updater := (@Run.nil _ _ Step initial).extend (.lock .stored 1 table .SIX, _) rfl
  have run := updater.extend (.lock .stored 2 table .IS, _) rfl
  refine ⟨_, _, run, rfl, (isolated_throughout_iff run).mpr ?_⟩
  intro taken member
  simp only [List.nil_append, List.cons_append, List.mem_cons, List.not_mem_nil, or_false] at member
  rcases member with rfl | rfl
  · intro tid tag mode _ _ other existing _ holds
    cases holds
  · intro tid tag mode requested _ other existing _ holds shared
    cases requested
    rcases shared with ⟨impossible, _⟩ | ⟨impossible, _⟩ <;> cases impossible

/-- A scanner's S is granted beside an updater's SIX. -/
theorem shared_beside_six_admitted : ∃ steps final, Run Step initial steps final ∧ ¬ Isolated final := by
  let table := newTableLockTag 1
  have updater := (@Run.nil _ _ Step initial).extend (.lock .stored 1 table .SIX, _) rfl
  refine ⟨_, _, updater.extend (.lock .stored 2 table .S, _) rfl, fun isolated => ?_⟩
  exact absurd (isolated table 1 2 .SIX .S (by decide) rfl rfl) (by decide)

end System
end GoDB.Transaction
