import GoDB.Proofs.BufferPoolSteps

/-! No lost update and no second copy of a page, under every interleaving. -/

namespace GoDB.Storage.PoolSystem
open Common Lib List

variable {τ : Type} {n : Nat} {system later : PoolSystem τ n} {page : PageID} {frame : Fin n}

theorem Invariant.unique (invariant : system.Invariant) {other : Fin n} (named : page.isNil = false)
    (first : (system.frames frame).pageID = page) (second : (system.frames other).pageID = page) : other = frame := by
  have here := (invariant.framed frame).mapped (first ▸ named)
  have there := (invariant.framed other).mapped (second ▸ named)
  rw [first] at here
  rw [second] at there
  exact Option.some.inj (there.symm.trans here)

variable [DecidableEq τ]

theorem returns_written {event : PoolEvent τ n} (invariant : system.Invariant) (taken : system.Step event later) :
    ∀ thread page frame bytes, event = .returned thread page frame bytes → bytes = system.written page := by
  intro thread page frame bytes returned
  cases taken with
  | @pinned thread page frame at' free mine =>
    cases returned
    have named : page.isNil = false := invariant.at at'
    have current := (invariant.framed frame).current (settled_of_free free) (mine ▸ named)
    rw [current.1, mine]
  | read at' =>
    cases returned
    exact (invariant.at at').1.synced
  | _ => cases returned

theorem no_lost_update (disk : PageID → PageBytes) {steps : List (Taken (PoolSystem τ n) (PoolEvent τ n))}
    {final : PoolSystem τ n} (run : Run Step (start τ n disk) steps final)
    (disciplined : ∀ taken ∈ steps, taken.before.Disciplined taken.label) :
    (∀ pin ∈ final.pins, (final.frames pin.frame).pageID = pin.page ∧
      ∀ other, (final.frames other).pageID = pin.page → other = pin.frame) ∧
    ∀ taken ∈ steps, ∀ thread page frame bytes, taken.label = .returned thread page frame bytes →
      bytes = taken.before.written page := by
  have preserved : ∀ (system : PoolSystem τ n) event later, system.Invariant → system.Disciplined event →
      system.Step event later → later.Invariant := fun _ _ _ invariant => invariant_step invariant
  constructor
  · have invariant := run.invariant_when Disciplined Invariant (invariant_start disk) preserved disciplined
    intro pin member
    obtain ⟨assigned, named⟩ := invariant.pinned pin member
    exact ⟨assigned, fun other same => invariant.unique named assigned same⟩
  · exact run.every_when Disciplined Invariant
      (fun system event _ => ∀ thread page frame bytes, event = .returned thread page frame bytes →
        bytes = system.written page)
      (invariant_start disk) preserved (fun _ _ _ invariant _ => returns_written invariant) disciplined

section OneFrame

def ones : PageBytes := ⟨replicate pageSize 1, length_replicate⟩

def Course (steps : List (Taken (PoolSystem Unit 1) (PoolEvent Unit 1))) (state : PoolSystem Unit 1) : Prop :=
  Run Step (start Unit 1 fun _ => .zero) steps state ∧ ∀ taken ∈ steps, taken.before.Disciplined taken.label

variable {steps : List (Taken (PoolSystem Unit 1) (PoolEvent Unit 1))} {state final : PoolSystem Unit 1}

theorem Course.next {event : PoolEvent Unit 1} (course : Course steps state) (taken : state.Step event final)
    (disciplined : state.Disciplined event) : Course (steps ++ [⟨state, event, final⟩]) final :=
  ⟨.snoc course.1 taken, forall_mem_append.mpr ⟨course.2, forall_mem_singleton.mpr disciplined⟩⟩

theorem Course.work (course : Course steps state) (taken : state.Step (.worked ()) final) :
    Course (steps ++ [⟨state, .worked (), final⟩]) final :=
  course.next taken trivial

theorem course_evicting : ∃ steps final, Course steps final ∧
    ∃ taken ∈ steps, taken.label = .returned () firstPage 0 ones := by
  have course : Course [] _ := ⟨.nil, forall_mem_nil _⟩
  have course := course.next (@Step.getPage _ _ _ _ () firstPage rfl) rfl
  have course := course.work (.missed rfl rfl)
  have course := course.work (.enterPool rfl rfl)
  have course := course.work (.missedAgain rfl rfl)
  have course := course.work (.approached rfl Nat.one_pos rfl)
  have course := course.work (.claimed rfl rfl rfl rfl)
  have course := course.work (.assigned rfl)
  have course := course.work (.clean rfl rfl)
  have course := course.work (.dropped rfl)
  have course := course.next (@Step.read _ _ _ _ () _ _ rfl) trivial
  have course := course.next (@Step.modify _ _ _ _ 0 _ ones rfl) trivial
  have course := course.next (@Step.unpinPage _ _ _ _ 0 _ true rfl rfl) (fun _ _ _ => rfl)
  have course := course.next (@Step.getPage _ _ _ _ () secondPage rfl) rfl
  have course := course.work (.missed rfl rfl)
  have course := course.work (.enterPool rfl rfl)
  have course := course.work (.missedAgain rfl rfl)
  have course := course.work (.approached rfl Nat.one_pos rfl)
  have course := course.work (.claimed rfl rfl rfl rfl)
  have course := course.work (.assigned rfl)
  have course := course.work (.wroteBack rfl rfl)
  have course := course.work (.dropped rfl)
  have course := course.next (@Step.read _ _ _ _ () _ _ rfl) trivial
  have course := course.next (@Step.unpinPage _ _ _ _ 0 _ false rfl rfl) (fun _ held => by cases held; exact nofun)
  have course := course.next (@Step.getPage _ _ _ _ () firstPage rfl) rfl
  have course := course.work (.missed rfl rfl)
  have course := course.work (.enterPool rfl rfl)
  have course := course.work (.missedAgain rfl rfl)
  have course := course.work (.approached rfl Nat.one_pos rfl)
  have course := course.work (.claimed rfl rfl rfl rfl)
  have course := course.work (.assigned rfl)
  have course := course.work (.clean rfl rfl)
  have course := course.work (.dropped rfl)
  have course := course.next (@Step.read _ _ _ _ () _ _ rfl) trivial
  exact ⟨_, _, course, _, mem_append_right _ (mem_singleton_self _), rfl⟩

theorem evicted_page_not_lost : ∃ steps final, Run Step (start Unit 1 fun _ => .zero) steps final ∧
    (∃ taken ∈ steps, taken.label = .returned () firstPage 0 ones ∧ ones = taken.before.written firstPage) ∧
    ∀ pin ∈ final.pins, (final.frames pin.frame).pageID = pin.page := by
  obtain ⟨steps, final, ⟨run, disciplined⟩, taken, member, returned⟩ := course_evicting
  obtain ⟨assigned, current⟩ := no_lost_update _ run disciplined
  exact ⟨steps, final, run, ⟨taken, member, returned, current taken member _ _ _ _ returned⟩,
    fun pin inside => (assigned pin inside).1⟩

end OneFrame
end GoDB.Storage.PoolSystem
