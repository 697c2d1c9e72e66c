import GoDB.Execution.StatementLatches

/-! What the calls of an executor leave in order: the latches of the pages below it, or a
table of which no leaf has failed. -/

namespace GoDB.Execution
open Common Lib Storage Indexing Planner Option

def Leaves {σ : Type} (c : Executor σ) (tidy clean : σ → Prop) (rows always : Prop) : Bool → σ → Prop
  | true, later => tidy later ∧ (rows → clean later)
  | false, later => (c.error later = none → clean later) ∧ (always → clean later)

/-- How an executor treats the latches of a table. In a clean state none is held; a tidy
state can be called on, and the calls give back what they hold. -/
structure Releases {σ : Type} (c : Executor σ) (tidy clean : σ → Prop) (starts rows atInit always : Prop) : Prop where
  tidy_of_clean : ∀ {s}, clean s → tidy s
  init : ∀ {s err later}, clean s → c.init s = some (err, later) →
    (err = none → tidy later ∧ (starts → clean later)) ∧ (atInit → clean later)
  next : ∀ {s found later}, tidy s → c.next s = some (found, later) → Leaves c tidy clean rows always found later

theorem Releases.weaken {σ : Type} {c : Executor σ} {tidy clean : σ → Prop}
    {starts rows atInit always starts' rows' atInit' always' : Prop}
    (releases : Releases c tidy clean starts rows atInit always) (start : starts' → starts) (row : rows' → rows)
    (give : atInit' → atInit) (settle : always' → always) : Releases c tidy clean starts' rows' atInit' always' where
  tidy_of_clean := releases.tidy_of_clean
  init resting returned := by
    obtain ⟨started, settled⟩ := releases.init resting returned
    exact ⟨fun fine => ⟨(started fine).1, (started fine).2 ∘ start⟩, settled ∘ give⟩
  next {s found later} ready returned := by
    have left := releases.next ready returned
    cases found
    · exact ⟨left.1, left.2 ∘ settle⟩
    · exact ⟨left.1, left.2 ∘ row⟩

section Operators
variable {σ τ β : Type} {child : Executor σ} {tidy clean : σ → Prop} {starts rows atInit always : Prop}

section
variable (releases : Releases child tidy clean starts rows atInit always)

include releases

theorem filterExecutor_releases (fuel : Nat) (predicate : PhysicalExpr) :
    Releases (filterExecutor fuel child predicate) (fun e => tidy e.child) (fun e => clean e.child) starts rows atInit
      always where
  tidy_of_clean := releases.tidy_of_clean
  init resting returned := by
    obtain ⟨⟨err, below⟩, begun, made⟩ := bind_eq_some.mp returned
    cases made
    exact releases.init resting begun
  next ready returned := by
    refine repeatUntil_rule (fun e : FilterExecutor σ => tidy e.child)
      (fun r => Leaves (filterExecutor fuel child predicate) (fun e => tidy e.child) (fun e => clean e.child) rows always
        r.1 r.2) ?_ ready returned
    intro e outcome ready taken
    obtain ⟨⟨found, below⟩, advanced, rest⟩ := bind_eq_some.mp taken
    have left := releases.next ready advanced
    cases found with
    | false =>
      cases rest
      exact left
    | true =>
      simp only [if_true, bind_eq_some] at rest
      obtain ⟨tuple, -, passed, -, rest⟩ := rest
      cases passed <;> cases rest
      · exact left.1
      · exact left

theorem projectionExecutor_releases (expressions : List PhysicalExpr) :
    Releases (projectionExecutor child expressions) (fun e => tidy e.child) (fun e => clean e.child) starts rows atInit
      always where
  tidy_of_clean := releases.tidy_of_clean
  init resting returned := by
    obtain ⟨⟨err, below⟩, begun, made⟩ := bind_eq_some.mp returned
    cases made
    exact releases.init resting begun
  next ready returned := by
    obtain ⟨⟨found, below⟩, advanced, rest⟩ := bind_eq_some.mp returned
    have left := releases.next ready advanced
    cases found with
    | false =>
      cases rest
      exact left
    | true =>
      simp only [if_true, bind_eq_some] at rest
      obtain ⟨_, -, _, -, rest⟩ := rest
      cases rest
      exact left

theorem limitExecutor_releases (begins : starts) (streams : rows) (limit : Int) :
    Releases (limitExecutor child limit) (fun e => clean e.child) (fun e => clean e.child) starts rows atInit always where
  tidy_of_clean resting := resting
  init resting returned := by
    obtain ⟨⟨err, below⟩, begun, made⟩ := bind_eq_some.mp returned
    cases made
    obtain ⟨started, settled⟩ := releases.init resting begun
    exact ⟨fun fine => ⟨(started fine).2 begins, (started fine).2⟩, settled⟩
  next resting returned := by
    simp only [limitExecutor] at returned
    split at returned
    next =>
      cases returned
      exact ⟨fun _ => resting, fun _ => resting⟩
    next =>
      obtain ⟨⟨found, below⟩, advanced, rest⟩ := bind_eq_some.mp returned
      have left := releases.next (releases.tidy_of_clean resting) advanced
      cases found with
      | false =>
        cases rest
        exact left
      | true =>
        obtain ⟨_, -, rest⟩ := bind_eq_some.mp rest
        cases rest
        exact ⟨left.2 streams, left.2⟩

theorem drain_releases {fuel : Nat} {body : β → Tuple → Option β} {start final : β} {below last : σ} (ready : tidy below)
    (drained : drain fuel child body start below = some (final, last)) :
    Leaves child tidy clean rows always false last := by
  refine repeatUntil_rule (fun state : β × σ => tidy state.2)
    (fun r : β × σ => Leaves child tidy clean rows always false r.2) ?_ ready drained
  intro state outcome ready taken
  obtain ⟨⟨found, below⟩, advanced, rest⟩ := bind_eq_some.mp taken
  have left := releases.next ready advanced
  cases found with
  | false =>
    cases rest
    exact left
  | true =>
    simp only [if_true, bind_eq_some] at rest
    obtain ⟨_, -, _, -, rest⟩ := rest
    cases rest
    exact left.1

/-- The child of a sort is drained before the first row. -/
def SortTidy (tidy clean : σ → Prop) (e : SortExecutor σ) : Prop :=
  clean e.child ∨ e.err = none ∧ e.loaded = false ∧ tidy e.child

theorem loadBuffer_releases {fuel : Nat} {orderBy : List (OrderByClause BoundValueExpr)} {e later : SortExecutor σ}
    (ready : SortTidy tidy clean e) (loads : loadBuffer fuel child orderBy e = some later) :
    (later.err = none → clean later.child) ∧ (always → clean later.child) := by
  unfold loadBuffer at loads
  split at loads
  next loaded =>
    cases loads
    have resting := ready.resolve_right fun waiting => by cases loaded.symm.trans waiting.2.1
    exact ⟨fun _ => resting, fun _ => resting⟩
  next =>
    obtain ⟨⟨buffer, below⟩, drained, rest⟩ := bind_eq_some.mp loads
    have left := drain_releases releases (ready.elim releases.tidy_of_clean fun waiting => waiting.2.2) drained
    dsimp only at rest
    split at rest
    next err failed =>
      cases rest
      exact ⟨fun fine => (by cases fine), left.2⟩
    next fine =>
      obtain ⟨sorted, -, rest⟩ := bind_eq_some.mp rest
      cases rest
      exact ⟨fun _ => left.1 fine, left.2⟩

theorem sortExecutor_releases (fuel : Nat) (schema : List FieldType) (orderBy : List (OrderByClause BoundValueExpr)) :
    Releases (sortExecutor fuel child schema orderBy) (SortTidy tidy clean) (fun e => clean e.child) starts True atInit
      always where
  tidy_of_clean := .inl
  init resting returned := by
    obtain ⟨⟨err, below⟩, begun, rest⟩ := bind_eq_some.mp returned
    obtain ⟨started, settled⟩ := releases.init resting begun
    cases err with
    | some =>
      cases rest
      exact ⟨fun fine => (by cases fine), settled⟩
    | none =>
      obtain ⟨desc, -, rest⟩ := bind_eq_some.mp rest
      cases rest
      have ready := started rfl
      exact ⟨fun _ => ⟨.inr ⟨rfl, rfl, ready.1⟩, ready.2⟩, settled⟩
  next {e found later} ready returned := by
    simp only [sortExecutor] at returned
    split at returned
    next failed =>
      cases returned
      have resting := ready.resolve_right fun waiting => by simp [waiting.1] at failed
      exact ⟨fun _ => resting, fun _ => resting⟩
    next =>
      obtain ⟨loaded, loads, rest⟩ := bind_eq_some.mp returned
      obtain ⟨kept, settled⟩ := loadBuffer_releases releases ready loads
      split at rest
      next =>
        cases rest
        exact ⟨kept, settled⟩
      next more =>
        cases rest
        have resting := kept (not_isSome_iff_eq_none.mp fun failed => more (.inl failed))
        exact ⟨.inl resting, fun _ => resting⟩

theorem aggregateExecutor_releases (fuel : Nat) (groupByClause : List PhysicalExpr)
    (aggClauses : List (AggregateClause BoundValueExpr)) :
    Releases (aggregateExecutor fuel child groupByClause aggClauses) (fun e => clean e.child) (fun e => clean e.child) True
      True (atInit ∧ always) True where
  tidy_of_clean resting := resting
  init resting returned := by
    obtain ⟨⟨err, below⟩, begun, rest⟩ := bind_eq_some.mp returned
    obtain ⟨started, settled⟩ := releases.init resting begun
    cases err with
    | some =>
      cases rest
      exact ⟨fun fine => (by cases fine), fun wanted => settled wanted.1⟩
    | none =>
      obtain ⟨desc, -, rest⟩ := bind_eq_some.mp rest
      obtain ⟨⟨groups, last⟩, drained, rest⟩ := bind_eq_some.mp rest
      have left := drain_releases releases (started rfl).1 drained
      dsimp only at rest
      split at rest
      next err failed =>
        cases rest
        exact ⟨fun fine => (by cases fine), fun wanted => left.2 wanted.2⟩
      next fine =>
        cases rest
        have resting := left.1 fine
        exact ⟨fun _ => ⟨resting, fun _ => resting⟩, fun _ => resting⟩
  next resting returned := by
    simp only [aggregateExecutor] at returned
    split at returned <;> cases returned
    · exact ⟨fun _ => resting, fun _ => resting⟩
    · exact ⟨resting, fun _ => resting⟩

end

variable {right : Executor τ} {tidyRight cleanRight : τ → Prop} {startsRight rowsRight atInitRight alwaysRight : Prop}
variable (releases : Releases child tidy clean starts rows atInit always) (settles : always)

include releases settles

theorem load_releases {fuel : Nat} {leftDesc : RawTupleDesc} {start below : σ} {err : Option ExecError}
    {block : List Tuple} (ready : tidy start)
    (loaded : repeatUntil (loadStep child leftDesc) fuel (0, [], start) = some (err, block, below)) :
    tidy below ∧ (rows → clean below) ∧ (err = none → block = [] → clean below) := by
  refine repeatUntil_rule (fun state : Loading σ => tidy state.2.2 ∧
      (0 < state.1 → state.2.1 ≠ [] ∧ (rows → clean state.2.2)))
    (fun r : Option ExecError × List Tuple × σ => tidy r.2.2 ∧ (rows → clean r.2.2) ∧
      (r.1 = none → r.2.1 = [] → clean r.2.2)) ?_ ⟨ready, fun begun => absurd begun (Nat.lt_irrefl 0)⟩ loaded
  rintro ⟨usedSize, block, below⟩ outcome ⟨ready, begun⟩ taken
  simp only [loadStep] at taken
  split at taken
  next full =>
    cases taken
    obtain ⟨filled, kept⟩ := begun (Nat.lt_of_lt_of_le (by decide) full)
    exact ⟨ready, kept, fun _ empty => absurd empty filled⟩
  next =>
    obtain ⟨⟨found, later⟩, advanced, rest⟩ := bind_eq_some.mp taken
    have left := releases.next ready advanced
    cases found with
    | false =>
      cases rest
      have resting := left.2 settles
      exact ⟨releases.tidy_of_clean resting, fun _ => resting, fun _ _ => resting⟩
    | true =>
      simp only [if_true] at rest
      split at rest
      next err failed =>
        cases rest
        exact ⟨left.1, left.2, fun fine => (by cases fine)⟩
      next =>
        obtain ⟨tuple, -, rest⟩ := bind_eq_some.mp rest
        obtain ⟨copied, -, rest⟩ := bind_eq_some.mp rest
        cases rest
        exact ⟨left.1, fun _ => ⟨by simp, left.2⟩⟩

structure JoinTidy (tidy clean : σ → Prop) (tidyRight cleanRight : τ → Prop) (rows rowsRight : Prop)
    (e : BlockNestedLoopJoinExecutor σ τ) : Prop where
  left : tidy e.left
  right : tidyRight e.right
  block : rows → clean e.left
  row : e.rightHasCur = true → rowsRight → cleanRight e.right
  ended : e.leftblock = [] → clean e.left ∧ cleanRight e.right

variable {leftSchema rightSchema : List FieldType} {predicate : PhysicalExpr} {fuel : Nat}

abbrev TurnLeaves (join : Executor (BlockNestedLoopJoinExecutor σ τ)) (tidy clean : σ → Prop)
    (tidyRight cleanRight : τ → Prop) (rows rowsRight atInitRight alwaysRight : Prop) :
    BlockNestedLoopJoinExecutor σ τ ⊕ Bool × BlockNestedLoopJoinExecutor σ τ → Prop :=
  Sum.elim (JoinTidy tidy clean tidyRight cleanRight rows rowsRight) fun r =>
    Leaves join (JoinTidy tidy clean tidyRight cleanRight rows rowsRight) (fun e => clean e.left ∧ cleanRight e.right)
      (rows ∧ rowsRight) (rows ∧ alwaysRight ∧ atInitRight) r.1 r.2

variable (releasesRight : Releases right tidyRight cleanRight startsRight rowsRight atInitRight alwaysRight)

include releasesRight

variable {e : BlockNestedLoopJoinExecutor σ τ}
  {outcome : BlockNestedLoopJoinExecutor σ τ ⊕ Bool × BlockNestedLoopJoinExecutor σ τ}

theorem nextBlock_releases (ready : tidy e.left) (block : rows → clean e.left) (waiting : e.rightHasCur = false)
    (over_ : Leaves right tidyRight cleanRight rowsRight alwaysRight false e.right)
    (taken : nextBlock fuel child right e = some outcome) :
    TurnLeaves (blockNestedLoopJoinExecutor fuel child right leftSchema rightSchema predicate)
      tidy clean tidyRight cleanRight rows rowsRight atInitRight alwaysRight outcome := by
  simp only [nextBlock] at taken
  split at taken
  next err failed =>
    cases taken
    exact ⟨fun fine => (by cases fine), fun wanted => ⟨block wanted.1, over_.2 wanted.2.1⟩⟩
  next fine =>
    have restingRight := over_.1 fine
    obtain ⟨⟨err, loaded⟩, loads, rest⟩ := bind_eq_some.mp taken
    obtain ⟨leftDesc, -, loads⟩ := bind_eq_some.mp loads
    obtain ⟨⟨err', rowsLoaded, below⟩, filled, made⟩ := bind_eq_some.mp loads
    cases made
    obtain ⟨readyLeft, blockLeft, emptyLeft⟩ := load_releases releases settles ready filled
    dsimp only at rest
    split at rest
    next failed =>
      cases rest
      refine ⟨fun fine => ?_, fun wanted => ⟨blockLeft wanted.1, restingRight⟩⟩
      have fine : err = none := fine
      simp [fine] at failed
    next fine =>
      have fine := not_isSome_iff_eq_none.mp fine
      split at rest
      next empty =>
        cases rest
        have resting := emptyLeft fine (List.isEmpty_iff.mp empty)
        exact ⟨fun _ => ⟨resting, restingRight⟩, fun _ => ⟨resting, restingRight⟩⟩
      next filled =>
        obtain ⟨⟨err, belowRight⟩, begun, rest⟩ := bind_eq_some.mp rest
        obtain ⟨started, settled⟩ := releasesRight.init restingRight begun
        dsimp only at rest
        split at rest
        next failed =>
          cases rest
          refine ⟨fun fine => ?_, fun wanted => ⟨blockLeft wanted.1, settled wanted.2.2⟩⟩
          have fine : err = none := fine
          simp [fine] at failed
        next fine =>
          cases rest
          have empty (none_left : rowsLoaded = []) : clean below ∧ cleanRight belowRight :=
            absurd (List.isEmpty_iff.mpr none_left) filled
          exact ⟨readyLeft, (started (not_isSome_iff_eq_none.mp fine)).1, blockLeft,
            fun current => (by cases waiting.symm.trans current), empty⟩

theorem joinStep_releases (ready : JoinTidy tidy clean tidyRight cleanRight rows rowsRight e)
    (taken : joinStep fuel child right predicate e = some outcome) :
    TurnLeaves (blockNestedLoopJoinExecutor fuel child right leftSchema rightSchema predicate)
      tidy clean tidyRight cleanRight rows rowsRight atInitRight alwaysRight outcome := by
  simp only [joinStep] at taken
  split at taken
  next empty =>
    cases taken
    have resting := ready.ended (List.isEmpty_iff.mp empty)
    exact ⟨fun _ => resting, fun _ => resting⟩
  next filled =>
    split at taken
    next current =>
      split at taken
      next =>
        cases taken
        exact { ready with row := fun current => by cases current }
      next tuple _ =>
        obtain ⟨joinedDesc, -, rest⟩ := bind_eq_some.mp taken
        obtain ⟨rightTuple, -, rest⟩ := bind_eq_some.mp rest
        obtain ⟨joinedBuf, -, rest⟩ := bind_eq_some.mp rest
        obtain ⟨passed, -, rest⟩ := bind_eq_some.mp rest
        cases passed <;> cases rest
        · exact ⟨ready.left, ready.right, ready.block, ready.row, ready.ended⟩
        · exact ⟨⟨ready.left, ready.right, ready.block, ready.row, ready.ended⟩,
            fun wanted => ⟨ready.block wanted.1, ready.row current wanted.2⟩⟩
    next waiting =>
      obtain ⟨⟨found, below⟩, advanced, rest⟩ := bind_eq_some.mp taken
      have over_ := releasesRight.next ready.right advanced
      cases found with
      | true =>
        cases rest
        have empty (none_left : e.leftblock = []) : clean e.left ∧ cleanRight below :=
          absurd (List.isEmpty_iff.mpr none_left) filled
        exact ⟨ready.left, over_.1, ready.block, fun _ => over_.2, empty⟩
      | false =>
        have turned : nextBlock fuel child right { e with right := below } = some outcome := rest
        exact nextBlock_releases (e := { e with right := below }) releases settles releasesRight ready.left ready.block
          (Bool.not_eq_true _ ▸ waiting) over_ turned

theorem blockNestedLoopJoinExecutor_releases (begins : startsRight) (fuel : Nat) (leftSchema rightSchema : List FieldType)
    (predicate : PhysicalExpr) : Releases (blockNestedLoopJoinExecutor fuel child right leftSchema rightSchema predicate)
      (JoinTidy tidy clean tidyRight cleanRight rows rowsRight) (fun e => clean e.left ∧ cleanRight e.right)
      rows (rows ∧ rowsRight) (rows ∧ atInit ∧ atInitRight) (rows ∧ alwaysRight ∧ atInitRight) where
  tidy_of_clean resting := ⟨releases.tidy_of_clean resting.1, releasesRight.tidy_of_clean resting.2, fun _ => resting.1,
    fun _ _ => resting.2, fun _ => resting⟩
  init {e err later} resting returned := by
    obtain ⟨restingLeft, restingRight⟩ := resting
    obtain ⟨⟨errLeft, belowLeft⟩, begunLeft, rest⟩ := bind_eq_some.mp returned
    obtain ⟨startedLeft, settledLeft⟩ := releases.init restingLeft begunLeft
    dsimp only at rest
    split at rest
    next failed =>
      cases rest
      refine ⟨fun fine => ?_, fun wanted => ⟨settledLeft wanted.2.1, restingRight⟩⟩
      simp [fine] at failed
    next fineLeft =>
      obtain ⟨⟨errRight, belowRight⟩, begunRight, rest⟩ := bind_eq_some.mp rest
      obtain ⟨startedRight, settledRight⟩ := releasesRight.init restingRight begunRight
      dsimp only at rest
      split at rest
      next failed =>
        cases rest
        refine ⟨fun fine => ?_, fun wanted => ⟨settledLeft wanted.2.1, settledRight wanted.2.2⟩⟩
        simp [fine] at failed
      next fineRight =>
        obtain ⟨leftDesc, -, rest⟩ := bind_eq_some.mp rest
        obtain ⟨joinedDesc, -, rest⟩ := bind_eq_some.mp rest
        obtain ⟨⟨errLoad, block, below⟩, loaded, made⟩ := bind_eq_some_iff.mp rest
        cases made
        have readyLeft := (startedLeft (not_isSome_iff_eq_none.mp fineLeft)).1
        obtain ⟨ready, kept, empty⟩ := load_releases releases settles readyLeft loaded
        obtain ⟨readyRight, freshRight⟩ := startedRight (not_isSome_iff_eq_none.mp fineRight)
        exact ⟨fun fine => ⟨⟨ready, readyRight, kept, fun current => (by cases current),
            fun none_left => ⟨empty fine none_left, freshRight begins⟩⟩, fun wanted => ⟨kept wanted, freshRight begins⟩⟩,
          fun wanted => ⟨kept wanted.1, freshRight begins⟩⟩
  next ready returned := by
    refine repeatUntil_rule (JoinTidy tidy clean tidyRight cleanRight rows rowsRight)
      (fun r => Leaves (blockNestedLoopJoinExecutor fuel child right leftSchema rightSchema predicate)
        (JoinTidy tidy clean tidyRight cleanRight rows rowsRight) (fun e => clean e.left ∧ cleanRight e.right)
        (rows ∧ rowsRight) (rows ∧ alwaysRight ∧ atInitRight) r.1 r.2) ?_ ready returned
    intro e outcome ready taken
    exact joinStep_releases releases settles releasesRight ready taken

end Operators
end GoDB.Execution
