import GoDB.Proofs.ReleasedLatches

/-! Whether the root of a tree of executors reports that one of the leaves failed. -/

namespace GoDB.Execution
open Common Lib Storage Indexing Planner ModificationExecutor Bool

theorem watched_releases_sound {σ : Type} (c : Executor σ) :
    Releases (watched c) (fun e => e.2 = false) (fun e => e.2 = false) True True True False where
  tidy_of_clean fine := fine
  init fine returned := by
    obtain ⟨⟨err, s⟩, -, same⟩ := bind_eq_some.mp returned
    cases same
    exact ⟨fun _ => ⟨fine, fun _ => fine⟩, fun _ => fine⟩
  next {s found later} fine returned := by
    obtain ⟨⟨found, below⟩, advanced, same⟩ := bind_eq_some.mp returned
    cases same
    cases found with
    | false =>
      refine ⟨fun silent => ?_, False.elim⟩
      have silent : c.error below = none := silent
      simp [fine, silent]
    | true =>
      have fine : (s.2 || (!true && (c.error below).isSome)) = false := by simp [fine]
      exact ⟨fine, fun _ => fine⟩

section Operators
variable {σ : Type} {child : Executor σ} {tidy clean : σ → Prop} {atInit always : Prop}
variable (releases : Releases child tidy clean True True atInit always)

include releases

theorem watched_releases_noted :
    Releases (watched child) (fun e => e.2 = true ∨ tidy e.1) (fun e => e.2 = true ∨ clean e.1) True True atInit True where
  tidy_of_clean fine := fine.imp_right releases.tidy_of_clean
  init {s err later} fine returned := by
    obtain ⟨⟨err, below⟩, begun, same⟩ := bind_eq_some.mp returned
    cases same
    rcases fine with noted | fine
    · exact ⟨fun _ => ⟨.inl noted, fun _ => .inl noted⟩, fun _ => .inl noted⟩
    · obtain ⟨started, settled⟩ := releases.init fine begun
      exact ⟨fun quiet => ⟨.inr (started quiet).1, fun _ => .inr ((started quiet).2 trivial)⟩,
        fun wanted => .inr (settled wanted)⟩
  next {s found later} fine returned := by
    obtain ⟨⟨found, below⟩, advanced, same⟩ := bind_eq_some.mp returned
    cases same
    have noted (before : s.2 = true) : (s.2 || !found && (child.error below).isSome) = true := by simp [before]
    cases found with
    | false =>
      have over_ : (s.2 || !false && (child.error below).isSome) = true ∨ clean below := by
        rcases fine with before | fine
        · exact .inl (noted before)
        · cases failed : child.error below with
          | none => exact .inr ((releases.next fine advanced).1 failed)
          | some => exact .inl (by simp)
      exact ⟨fun _ => over_, fun _ => over_⟩
    | true =>
      refine ⟨fine.imp noted fun fine => (releases.next fine advanced).1, fun _ => fine.imp noted fun fine => ?_⟩
      exact (releases.next fine advanced).2 trivial

variable {later : σ}

theorem Releases.of_found {s : σ} (fine : clean s) (returned : child.next s = some (true, later)) : clean later :=
  (releases.next (releases.tidy_of_clean fine) returned).2 trivial

theorem Releases.of_ended {s : σ} (fine : clean s) (returned : child.next s = some (false, later))
    (silent : child.error later = none) : clean later :=
  (releases.next (releases.tidy_of_clean fine) returned).1 silent

theorem Releases.of_begun {s : σ} (fine : clean s) (returned : child.init s = some (none, later)) : clean later :=
  ((releases.init fine returned).1 rfl).2 trivial

end Operators

namespace Pipeline

/-- No leaf has failed, but perhaps on the left side of a join that has failed. -/
def Sound : (tree : Pipeline Source) → tree.State → Prop
  | .leaf _, (e : _ × Bool) => e.2 = false
  | .filter _ child _, (e : FilterExecutor child.State) => child.Sound e.child
  | .projection child _, (e : ProjectionExecutor child.State) => child.Sound e.child
  | .limit child _, (e : LimitExecutor child.State) => child.Sound e.child
  | .sort _ child _ _, (e : SortExecutor child.State) => child.Sound e.child
  | .aggregate _ child _ _, (e : AggregateExecutor child.State) => child.Sound e.child
  | .join _ left right _ _ _, (e : BlockNestedLoopJoinExecutor (left.State × Bool) right.State) =>
    (e.left.2 = true ∨ left.Sound e.left.1) ∧ right.Sound e.right

theorem not_failed_of_sound {tree : Pipeline Source} {e : tree.State} (sound : tree.Sound e) (kept : ¬ tree.Lost e) :
    ¬ tree.Failed e := by
  induction tree with
  | leaf => exact eq_false_iff.mp sound
  | filter _ _ _ ih | projection _ _ ih | limit _ _ ih | sort _ _ _ _ ih | aggregate _ _ _ _ ih => exact ih sound kept
  | join _ _ _ _ _ _ ihLeft ihRight =>
    obtain ⟨unnoted, keptLeft, keptRight⟩ := not_or.mp kept |>.imp_right not_or.mp
    exact not_or.mpr ⟨ihLeft (sound.1.resolve_left unnoted) keptLeft, ihRight sound.2 keptRight⟩

theorem sound_fresh (tree : Pipeline Source) : tree.Sound tree.fresh := by
  induction tree with
  | leaf => rfl
  | filter _ _ _ ih | projection _ _ ih | limit _ _ ih | sort _ _ _ _ ih | aggregate _ _ _ _ ih => exact ih
  | join _ _ _ _ _ _ ihLeft ihRight => exact ⟨.inr ihLeft, ihRight⟩

theorem releases_sound (tree : Pipeline Source) : ∃ tidy, Releases tree.executor tidy tree.Sound True True False False := by
  induction tree with
  | leaf source => exact ⟨_, (watched_releases_sound source.executor).weaken id id False.elim id⟩
  | filter fuel child predicate ih =>
    obtain ⟨_, releases⟩ := ih
    exact ⟨_, filterExecutor_releases releases fuel predicate⟩
  | projection child expressions ih =>
    obtain ⟨_, releases⟩ := ih
    exact ⟨_, projectionExecutor_releases releases expressions⟩
  | limit child count ih =>
    obtain ⟨_, releases⟩ := ih
    exact ⟨_, limitExecutor_releases releases trivial trivial count⟩
  | sort fuel child schema orderBy ih =>
    obtain ⟨_, releases⟩ := ih
    exact ⟨_, sortExecutor_releases releases fuel schema orderBy⟩
  | aggregate fuel child groupByClause aggClauses ih =>
    obtain ⟨_, releases⟩ := ih
    exact ⟨_, (aggregateExecutor_releases releases fuel groupByClause aggClauses).weaken id id False.elim False.elim⟩
  | join fuel left right leftSchema rightSchema predicate ihLeft ihRight =>
    obtain ⟨_, releases⟩ := ihLeft
    obtain ⟨_, releasesRight⟩ := ihRight
    exact ⟨_, (blockNestedLoopJoinExecutor_releases (watched_releases_noted releases) trivial releasesRight trivial fuel
      leftSchema rightSchema predicate).weaken id (fun _ => ⟨trivial, trivial⟩) False.elim False.elim⟩

end Pipeline

section Modification
variable {σ : Type} {child : Executor σ} {tidy clean : σ → Prop} {atInit always : Prop}

def Shown (child : Executor σ) (clean : σ → Prop) (e : ModificationExecutor σ) : Prop :=
  e.done = true ∧ (child.error e.child = none → clean e.child)

variable {e : ModificationExecutor σ}

theorem shown_settle {outcome : Outcome} (shown : Shown child clean e) : Shown child clean (e.settle outcome).2 := by
  obtain ⟨result, table⟩ := outcome
  cases result <;> exact shown

variable (releases : Releases child tidy clean True True atInit always)

include releases

variable {later : ModificationExecutor σ}

theorem shown_collect {fuel : Nat} {apply : TableState → List Tuple → Option Outcome}
    {found : Bool} (fine : clean e.child) (done : e.done = true)
    (returned : collect fuel child apply e = some (found, later)) : Shown child clean later := by
  simp only [collect, bind_eq_some] at returned
  obtain ⟨⟨rows, below⟩, drained, outcome, -, made⟩ := returned
  have shown : Shown child clean ({ e with child := below }.settle outcome).2 :=
    shown_settle ⟨done, (drain_releases releases (releases.tidy_of_clean fine) drained).1⟩
  rwa [Option.some.inj made] at shown

theorem shown_insert {fuel : Nat} {found : Bool} (fine : clean e.child)
    (done : e.done = true) (returned : repeatUntil (insertStep child) fuel (0, e) = some (found, later)) :
    Shown child clean later := by
  refine repeatUntil_rule (fun state : Int64 × ModificationExecutor σ => clean state.2.child ∧ state.2.done = true)
    (fun r => Shown child clean r.2) ?_ ⟨fine, done⟩ returned
  rintro ⟨count, e⟩ outcome ⟨fine, done⟩ taken
  obtain ⟨⟨found, below⟩, advanced, rest⟩ := bind_eq_some.mp taken
  cases found with
  | false =>
    cases rest
    exact shown_settle ⟨done, releases.of_ended fine advanced⟩
  | true =>
    have fine' := releases.of_found fine advanced
    simp only [if_true, bind_eq_some] at rest
    obtain ⟨tuple, -, ⟨result, table⟩, -, rest⟩ := rest
    cases result with
    | ok =>
      cases rest
      exact ⟨fine', done⟩
    | error =>
      cases rest
      exact ⟨done, fun _ => fine'⟩

theorem modification_reports {work : ModificationExecutor σ → Option (Bool × ModificationExecutor σ)}
    (shows : ∀ e found later, clean e.child → e.done = true → work e = some (found, later) → Shown child clean later)
    {start last : ModificationExecutor σ} (fine : clean e.child)
    (begun : (executor child work).init e = some (none, start))
    (ends : (executor child work).Ends start last) (fails : ¬ clean last.child) :
    ((executor child work).error last).isSome := by
  have started : clean start.child := by
    obtain ⟨⟨err, below⟩, childBegun, made⟩ := bind_eq_some.mp begun
    cases made
    exact releases.of_begun fine childBegun
  have shown : clean start.child ∨ Shown child clean start := .inl started
  have reported (e : ModificationExecutor σ) (shown : Shown child clean e) (fails : ¬ clean e.child) :
      ((executor child work).error e).isSome := by
    have below : (child.error e.child).isSome := Option.isSome_iff_ne_none.mpr fun silent => fails (shown.2 silent)
    simp [executor, below]
  clear started begun
  induction ends with
  | done finished =>
    simp only [executor] at finished
    split at finished
    next =>
      cases finished
      exact reported _ (shown.resolve_left fails) fails
    next pending =>
      have fine := shown.resolve_right fun shown => pending shown.1
      exact reported _ (shows _ _ _ (by exact fine) rfl finished) fails
  | more advanced _ ih =>
    refine ih fails (.inr ?_)
    simp only [executor] at advanced
    split at advanced
    next => cases advanced
    next pending =>
      have fine := shown.resolve_right fun shown => pending shown.1
      exact shows _ _ _ (by exact fine) rfl advanced

end Modification

def emptySource : Source where
  State := Unit
  executor := { init := fun s => some (none, s), next := fun s => some (false, s), current := fun _ => none,
                error := fun _ => none }
  start := ()

def brokenSource : Source where
  State := Bool
  executor := { init := fun s => some (none, s), next := fun _ => some (false, true), current := fun _ => none,
                error := fun broken => if broken then some .scanUnsupported else none }
  start := false

def oneRowSource : Source where
  State := Bool
  executor := { init := fun _ => some (none, false), next := fun passed => some (!passed, true),
                current := fun _ => some (.fromValues [.int 7]), error := fun _ => none }
  start := false

namespace Root
variable {root : Root Source} {start last : root.State}

/-- When a leaf fails in a run, the root reports an error at the end, unless the left side of a
join has failed in `Next`. -/
theorem reports_leaf_errors (begun : root.executor.init root.fresh = some (none, start))
    (ends : root.executor.Ends start last) (kept : ¬ root.Lost last) (failed : root.Failed last) :
    (root.executor.error last).isSome := by
  have unsound : ¬ root.tree.Sound (root.below last) := fun sound => Pipeline.not_failed_of_sound sound kept failed
  cases root with
  | read tree =>
    obtain ⟨_, releases⟩ := tree.releases_sound
    have fine := releases.of_begun tree.sound_fresh begun
    clear begun kept failed
    induction ends with
    | done finished => exact Option.isSome_iff_ne_none.mpr fun silent => unsound (releases.of_ended fine finished silent)
    | more advanced _ ih => exact ih unsound (releases.of_found fine advanced)
  | insert fuel tree table =>
    obtain ⟨_, releases⟩ := tree.releases_sound
    exact modification_reports releases (fun _ _ _ => shown_insert releases) tree.sound_fresh begun ends unsound
  | delete fuel tree table =>
    obtain ⟨_, releases⟩ := tree.releases_sound
    exact modification_reports releases (fun _ _ _ => shown_collect releases) tree.sound_fresh begun ends unsound
  | update fuel tree table expressions =>
    obtain ⟨_, releases⟩ := tree.releases_sound
    exact modification_reports releases (fun _ _ _ => shown_collect releases) tree.sound_fresh begun ends unsound

def joined (left right : Source) : Root Source :=
  read (.join 2 (.leaf left) (.leaf right) [.int] [.int] (.constant (.int 1)))

/-- The left side has a row, and the right side fails. -/
theorem right_failure_reported : ∃ start last, (joined oneRowSource brokenSource).executor.init
      (joined oneRowSource brokenSource).fresh = some (none, start) ∧
    (joined oneRowSource brokenSource).executor.Ends start last ∧ (joined oneRowSource brokenSource).Failed last ∧
    ((joined oneRowSource brokenSource).executor.error last).isSome := by
  refine ⟨_, _, rfl, .done rfl, .inr rfl, reports_leaf_errors rfl (.done rfl) ?_ (.inr rfl)⟩
  rintro (noted | lost | lost)
  · cases noted
  · exact lost
  · exact lost

/-- A left side that fails at once leaves a join that ends without a row and without an error. -/
theorem left_failure_lost : ∃ start last, (joined brokenSource emptySource).executor.init
      (joined brokenSource emptySource).fresh = some (none, start) ∧
    (joined brokenSource emptySource).executor.Ends start last ∧ (joined brokenSource emptySource).Failed last ∧
    (joined brokenSource emptySource).executor.error last = none :=
  ⟨_, _, rfl, .done rfl, .inl rfl, rfl⟩

end Root
end GoDB.Execution
