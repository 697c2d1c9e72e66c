import Mathlib.Data.List.Induction

/-! Runs of a labelled transition relation. A run keeps the steps it made, so a
claim about every step of a run and a claim about the state it reaches can be
stated side by side. -/

namespace GoDB.Lib
open List

universe u v

structure Taken (σ : Type u) (ε : Type v) where
  before : σ
  label : ε
  after : σ

inductive Run {σ : Type u} {ε : Type v} (step : σ → ε → σ → Prop) (start : σ) :
    List (Taken σ ε) → σ → Prop where
  | nil : Run step start [] start
  | snoc {steps state label final} (earlier : Run step start steps state)
      (taken : step state label final) :
      Run step start (steps ++ [⟨state, label, final⟩]) final

namespace Run
variable {σ : Type u} {ε : Type v} {step : σ → ε → σ → Prop} {start final : σ} {steps : List (Taken σ ε)}

/-- `snoc` with the label given, so that the state after the step can be computed. -/
theorem extend {state : σ} (earlier : Run step start steps state) (label : ε) (taken : step state label final) :
    Run step start (steps ++ [⟨state, label, final⟩]) final :=
  .snoc earlier taken

variable (condition : σ → ε → Prop) (property : σ → Prop)

/-- The rule for an invariant that only the steps meeting a condition keep. -/
theorem invariant_when (initially : property start)
    (preserved : ∀ state label final, property state → condition state label → step state label final → property final)
    (run : Run step start steps final) (meets : ∀ taken ∈ steps, condition taken.before taken.label) :
    property final := by
  induction run with
  | nil => exact initially
  | snoc earlier taken ih =>
    have before := ih (fun item member => meets item (mem_append_left _ member))
    exact preserved _ _ _ before (meets _ (mem_append_right _ mem_cons_self)) taken

theorem invariant (initially : property start)
    (preserved : ∀ state label final, property state → step state label final → property final)
    (run : Run step start steps final) : property final :=
  run.invariant_when (fun _ _ => True) property initially
    (fun state label final holds _ taken => preserved state label final holds taken) (fun _ _ => trivial)

theorem every_when (effect : σ → ε → σ → Prop) (initially : property start)
    (preserved : ∀ state label final, property state → condition state label → step state label final → property final)
    (does : ∀ state label final, property state → condition state label → step state label final → effect state label final)
    (run : Run step start steps final) (meets : ∀ taken ∈ steps, condition taken.before taken.label) :
    ∀ taken ∈ steps, effect taken.before taken.label taken.after := by
  induction run with
  | nil => simp
  | snoc earlier taken ih =>
    obtain ⟨met, now⟩ := List.forall_mem_append.mp meets
    have before := earlier.invariant_when condition property initially preserved met
    have made := does _ _ _ before (now _ mem_cons_self) taken
    exact List.forall_mem_append.mpr ⟨ih met, List.forall_mem_singleton.mpr made⟩

/-- Where one step gives a property exactly when a condition held before it, and
the condition also keeps an invariant that this needs, a run has the property
all along exactly when each of its steps met the condition. -/
theorem reached_iff (invariant property : σ → Prop) (initially : invariant start)
    (kept : ∀ state label final, invariant state → condition state label → step state label final → invariant final)
    (exactly : ∀ state label final, invariant state → step state label final →
      (property final ↔ condition state label)) (run : Run step start steps final) :
    (∀ taken ∈ steps, property taken.after) ↔ ∀ taken ∈ steps, condition taken.before taken.label := by
  induction run with
  | nil => simp
  | snoc earlier taken ih =>
    simp only [forall_mem_append, forall_mem_singleton]
    constructor
    · intro ⟨reached, last⟩
      have before := earlier.invariant_when condition invariant initially kept (ih.mp reached)
      exact ⟨ih.mp reached, (exactly _ _ _ before taken).mp last⟩
    · intro ⟨met, last⟩
      have before := earlier.invariant_when condition invariant initially kept met
      exact ⟨ih.mpr met, (exactly _ _ _ before taken).mpr last⟩

theorem last {last : Taken σ ε} (run : Run step start (steps ++ [last]) final) :
    Run step start steps last.before ∧ step last.before last.label final ∧ last.after = final := by
  generalize listed : steps ++ [last] = whole at run
  cases run with
  | nil => simp at listed
  | snoc earlier taken =>
    obtain ⟨rfl, rfl⟩ := append_inj' listed rfl |>.imp_right List.singleton_inj.mp
    exact ⟨earlier, taken, rfl⟩

theorem split {later : List (Taken σ ε)} (run : Run step start (steps ++ later) final) :
    ∃ middle, Run step start steps middle ∧ Run step middle later final := by
  induction later using List.reverseRecOn generalizing final with
  | nil => exact ⟨final, by simpa using run, .nil⟩
  | append_singleton later last ih =>
    rw [← append_assoc] at run
    obtain ⟨earlier, taken, rfl⟩ := run.last
    obtain ⟨middle, first, rest⟩ := ih earlier
    exact ⟨middle, first, .snoc rest taken⟩

def follow (next : σ → ε → Option σ) : σ → List ε → Option (List (Taken σ ε) × σ)
  | state, [] => some ([], state)
  | state, label :: rest =>
    match next state label with
    | none => none
    | some later => (follow next later rest).map fun made => (⟨state, label, later⟩ :: made.1, made.2)

theorem of_follow {next : σ → ε → Option σ} {state : σ} {labels : List ε} {more : List (Taken σ ε)}
    (earlier : Run (fun state label later => next state label = some later) start steps state)
    (followed : follow next state labels = some (more, final)) :
    Run (fun state label later => next state label = some later) start (steps ++ more) final ∧
      more.map Taken.label = labels := by
  induction labels generalizing steps state more with
  | nil =>
    cases followed
    exact ⟨by rwa [append_nil], rfl⟩
  | cons label rest ih =>
    cases taken : next state label with
    | none => simp [follow, taken] at followed
    | some later =>
      simp only [follow, taken, Option.map_eq_some_iff] at followed
      obtain ⟨⟨others, last⟩, followed, same⟩ := followed
      cases same
      obtain ⟨run, listed⟩ := ih (earlier.snoc taken) followed
      exact ⟨by rwa [append_assoc] at run, congrArg (label :: ·) listed⟩

end Run
end GoDB.Lib
