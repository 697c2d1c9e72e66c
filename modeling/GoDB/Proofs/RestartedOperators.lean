import GoDB.Execution.Executors

/-! Starting an operator again: two of its runs go the same way when those of its
children do. The first run is one without errors, so the second meets none. -/

namespace GoDB.Execution
open Common Lib Storage Indexing Planner

variable {σ τ β : Type} {c d : Executor σ} {clean : σ → Prop} {alike : σ → σ → Prop} (restarts : c.Restarts d clean alike)

include restarts

section Filtering

abbrev FilterAlike (alike : σ → σ → Prop) (e other : FilterExecutor σ) : Prop := alike e.child other.child

theorem filterStep_follows (predicate : PhysicalExpr)
    (e other : FilterExecutor σ) (same : FilterAlike alike e other) :
    Follows (SumRel (FilterAlike alike) fun first second => first.1 = second.1 ∧ FilterAlike alike first.2 second.2 ∧
      (first.1 = true → first.2.current = second.2.current)) (filterStep c predicate e) (filterStep d predicate other) := by
  refine (restarts.next _ _ same).bind ?_
  rintro ⟨found, below⟩ ⟨_, below'⟩ ⟨rfl, same', agree⟩
  cases found with
  | false => exact .of_some (.inr ⟨rfl, same', nofun⟩)
  | true =>
    simp only [if_true, agree rfl]
    refine .bind_same fun tuple => ?_
    refine .bind_same fun passed => ?_
    cases passed with
    | false => exact .of_some (.inl same')
    | true => exact .of_some (.inr ⟨rfl, same', fun _ => rfl⟩)

theorem filterExecutor_restarts (fuel : Nat) (predicate : PhysicalExpr) :
    (filterExecutor fuel c predicate).Restarts (filterExecutor fuel d predicate) (fun e => clean e.child)
      (fun e other => alike e.child other.child) where
  init e other first second := by
    refine (restarts.init _ _ first second).bind ?_
    rintro ⟨_, below⟩ ⟨_, below'⟩ ⟨rfl, rfl, same⟩
    exact .of_some ⟨rfl, rfl, same⟩
  next e other same := follows_repeatUntil (filterStep_follows restarts predicate) fuel same
  clean e other same := restarts.clean _ _ same
  errors e other same := restarts.errors _ _ same

end Filtering

theorem projectionExecutor_restarts (expressions : List PhysicalExpr) :
    (projectionExecutor c expressions).Restarts (projectionExecutor d expressions) (fun e => clean e.child)
      (fun e other => alike e.child other.child) where
  init e other first second := by
    refine (restarts.init _ _ first second).bind ?_
    rintro ⟨_, below⟩ ⟨_, below'⟩ ⟨rfl, rfl, same⟩
    exact .of_some ⟨rfl, rfl, same⟩
  next e other same := by
    refine (restarts.next _ _ same).bind ?_
    rintro ⟨found, below⟩ ⟨_, below'⟩ ⟨rfl, same', agree⟩
    cases found with
    | false => exact .of_some ⟨rfl, same', nofun⟩
    | true =>
      simp only [if_true, agree rfl]
      refine .bind_same fun inputTuple => ?_
      refine .bind_same fun projectedValues => ?_
      exact .of_some ⟨rfl, same', fun _ => rfl⟩
  clean e other same := restarts.clean _ _ same
  errors e other same := restarts.errors _ _ same

theorem limitExecutor_restarts (limit : Int) :
    (limitExecutor c limit).Restarts (limitExecutor d limit) (fun e => clean e.child)
      (fun e other => alike e.child other.child ∧ e.count = other.count) where
  init e other first second := by
    refine (restarts.init _ _ first second).bind ?_
    rintro ⟨_, below⟩ ⟨_, below'⟩ ⟨rfl, rfl, same⟩
    exact .of_some ⟨rfl, rfl, same, rfl⟩
  next e other same := by
    obtain ⟨same, counts⟩ := same
    simp only [limitExecutor, counts]
    split
    next => exact .of_some ⟨rfl, ⟨same, counts⟩, nofun⟩
    next =>
      refine (restarts.next _ _ same).bind ?_
      rintro ⟨found, below⟩ ⟨_, below'⟩ ⟨rfl, same', agree⟩
      cases found with
      | false => exact .of_some ⟨rfl, ⟨same', rfl⟩, nofun⟩
      | true =>
        simp only [if_true, agree rfl]
        refine .bind_same fun tuple => ?_
        exact .of_some ⟨rfl, ⟨same', rfl⟩, fun _ => rfl⟩
  clean e other same := restarts.clean _ _ same.1
  errors e other same := restarts.errors _ _ same.1

section Draining

abbrev DrainAlike (alike : σ → σ → Prop) (first second : β × σ) : Prop := first.1 = second.1 ∧ alike first.2 second.2

theorem drainStep_follows (body : β → Tuple → Option β)
    (first second : β × σ) (same : DrainAlike alike first second) :
    Follows (SumRel (DrainAlike alike) (DrainAlike alike)) (drainStep c body first) (drainStep d body second) := by
  obtain ⟨collected, below⟩ := first
  obtain ⟨_, below'⟩ := second
  obtain ⟨rfl, same⟩ := same
  refine (restarts.next _ _ same).bind ?_
  rintro ⟨found, below⟩ ⟨_, below'⟩ ⟨rfl, same', agree⟩
  cases found with
  | false => exact .of_some (.inr ⟨rfl, same'⟩)
  | true =>
    simp only [if_true, agree rfl]
    refine .bind_same fun tuple => ?_
    refine .bind_same fun more => ?_
    exact .of_some (.inl ⟨rfl, same'⟩)

theorem drain_follows (fuel : Nat) (body : β → Tuple → Option β) (start : β) {s other : σ} (same : alike s other) :
    Follows (fun first second => first.1 = second.1 ∧ alike first.2 second.2) (drain fuel c body start s)
      (drain fuel d body start other) :=
  follows_repeatUntil (drainStep_follows restarts body) fuel ⟨rfl, same⟩

end Draining

section Sorting

structure SortExecutor.Alike (alike : σ → σ → Prop) (e other : SortExecutor σ) : Prop where
  child : alike e.child other.child
  fields : other = { e with child := other.child }
  err : e.err = none

theorem loadBuffer_follows (fuel : Nat)
    (orderBy : List (OrderByClause BoundValueExpr)) {e other : SortExecutor σ} (same : e.Alike alike other) :
    Follows (SortExecutor.Alike alike) (loadBuffer fuel c orderBy e) (loadBuffer fuel d orderBy other) := by
  obtain ⟨child, desc, buffer, pos, loaded, err⟩ := e
  obtain ⟨child', _, _, _, _, _⟩ := other
  obtain ⟨same, fields, clean⟩ := same
  cases fields
  cases clean
  cases loaded with
  | true => exact .of_some ⟨same, rfl, rfl⟩
  | false =>
    refine (drain_follows restarts fuel _ buffer same).bind ?_
    rintro ⟨collected, below⟩ ⟨_, below'⟩ ⟨rfl, same'⟩
    obtain ⟨fine, fine'⟩ := restarts.errors _ _ same'
    simp only [fine, fine']
    refine .bind_same fun sorted => ?_
    exact .of_some ⟨same', rfl, rfl⟩

theorem sortExecutor_restarts (fuel : Nat) (schema : List FieldType) (orderBy : List (OrderByClause BoundValueExpr)) :
    (sortExecutor fuel c schema orderBy).Restarts (sortExecutor fuel d schema orderBy) (fun e => clean e.child)
      (SortExecutor.Alike alike) where
  init e other first second := by
    refine (restarts.init _ _ first second).bind ?_
    rintro ⟨_, below⟩ ⟨_, below'⟩ ⟨rfl, rfl, same⟩
    refine .bind_same fun desc => ?_
    exact .of_some ⟨rfl, rfl, same, rfl, rfl⟩
  next e other same := by
    have fine : other.err = none := by rw [same.fields]; exact same.err
    simp only [sortExecutor, same.err, fine]
    refine (loadBuffer_follows restarts fuel orderBy same).bind ?_
    rintro ⟨child, desc, buffer, pos, loaded, err⟩ ⟨child', _, _, _, _, _⟩ ⟨same, fields, clean⟩
    cases fields
    cases clean
    simp only
    split
    next => exact .of_some ⟨rfl, ⟨same, rfl, rfl⟩, nofun⟩
    next => exact .of_some ⟨rfl, ⟨same, rfl, rfl⟩, fun _ => rfl⟩
  clean e other same := restarts.clean _ _ same.child
  errors e other same := ⟨same.err, by rw [same.fields]; exact same.err⟩

end Sorting

/-- The results are made by `Init`; the child is not asked any more. -/
structure AggregateExecutor.Alike (alike : σ → σ → Prop) (e other : AggregateExecutor σ) : Prop where
  child : alike e.child other.child
  fields : other = { e with child := other.child }
  err : e.err = none

theorem aggregateExecutor_restarts (fuel : Nat) (groupByClause : List PhysicalExpr)
    (aggClauses : List (AggregateClause BoundValueExpr)) :
    (aggregateExecutor fuel c groupByClause aggClauses).Restarts (aggregateExecutor fuel d groupByClause aggClauses)
      (fun e => clean e.child) (AggregateExecutor.Alike alike) where
  init e other first second := by
    refine (restarts.init _ _ first second).bind ?_
    rintro ⟨_, below⟩ ⟨_, below'⟩ ⟨rfl, rfl, same⟩
    refine .bind_same fun groupDesc => ?_
    refine (drain_follows restarts fuel _ [] same).bind ?_
    rintro ⟨groups, below⟩ ⟨_, below'⟩ ⟨rfl, same'⟩
    obtain ⟨fine, fine'⟩ := restarts.errors _ _ same'
    simp only [fine, fine']
    exact .of_some ⟨rfl, rfl, same', rfl, rfl⟩
  next e other same := by
    obtain ⟨child, results, pos, err⟩ := e
    obtain ⟨child', _, _, _⟩ := other
    obtain ⟨same, fields, clean⟩ := same
    cases fields
    cases clean
    simp only [aggregateExecutor]
    split
    next => exact .of_some ⟨rfl, ⟨same, rfl, rfl⟩, nofun⟩
    next => exact .of_some ⟨rfl, ⟨same, rfl, rfl⟩, fun _ => rfl⟩
  clean e other same := restarts.clean _ _ same.child
  errors e other same := ⟨same.err, by rw [same.fields]; exact same.err⟩

section Joining
variable {c' d' : Executor τ} {clean' : τ → Prop} {alike' : τ → τ → Prop}

namespace BlockNestedLoopJoinExecutor

/-- Two runs of a join agree in all but the children and the row returned last. The
row of the right child counts as long as it is being joined. -/
structure Alike (c' d' : Executor τ) (alike : σ → σ → Prop) (alike' : τ → τ → Prop)
    (e other : BlockNestedLoopJoinExecutor σ τ) : Prop where
  left : alike e.left other.left
  right : alike' e.right other.right
  fields : other = { e with left := other.left, right := other.right, current := other.current }
  err : e.err = none
  row : e.rightHasCur = true → c'.current e.right = d'.current other.right

end BlockNestedLoopJoinExecutor

abbrev LoadAlike (alike : σ → σ → Prop) (first second : Loading σ) : Prop :=
  first.1 = second.1 ∧ first.2.1 = second.2.1 ∧ alike first.2.2 second.2.2

theorem loadStep_follows (leftDesc : RawTupleDesc) (first second : Loading σ)
    (same : LoadAlike alike first second) :
    Follows (SumRel (LoadAlike alike) fun first second => first.1 = none ∧ second.1 = none ∧ first.2.1 = second.2.1 ∧
      alike first.2.2 second.2.2) (loadStep c leftDesc first) (loadStep d leftDesc second) := by
  obtain ⟨usedSize, block, below⟩ := first
  obtain ⟨_, _, below'⟩ := second
  obtain ⟨rfl, rfl, same⟩ := same
  simp only [loadStep]
  split
  next => exact .of_some (.inr ⟨rfl, rfl, rfl, same⟩)
  next =>
    refine (restarts.next _ _ same).bind ?_
    rintro ⟨found, below⟩ ⟨_, below'⟩ ⟨rfl, same', agree⟩
    obtain ⟨fine, fine'⟩ := restarts.errors _ _ same'
    cases found with
    | false => exact .of_some (.inr ⟨rfl, rfl, rfl, same'⟩)
    | true =>
      simp only [if_true, fine, fine', agree rfl]
      refine .bind_same fun current => ?_
      refine .bind_same fun tuple => ?_
      exact .of_some (.inl ⟨rfl, rfl, same'⟩)

open BlockNestedLoopJoinExecutor

theorem loadLeftBlock_follows (fuel : Nat)
    {e other : BlockNestedLoopJoinExecutor σ τ} (same : e.Alike c' d' alike alike' other) :
    Follows (fun first second => first.1 = none ∧ second.1 = none ∧ first.2.Alike c' d' alike alike' second.2 ∧
      first.2.rightHasCur = e.rightHasCur) (loadLeftBlock fuel c e) (loadLeftBlock fuel d other) := by
  obtain ⟨left, right, leftDesc, joinedDesc, joinedBuf, current, err, leftblock, blockidx, rightHasCur⟩ := e
  obtain ⟨left', right', _, _, _, current', _, _, _, _⟩ := other
  obtain ⟨sameLeft, sameRight, fields, clean, row⟩ := same
  cases fields
  refine .bind_same fun desc => ?_
  have start : LoadAlike alike (0, [], left) (0, [], left') := ⟨rfl, rfl, sameLeft⟩
  refine (follows_repeatUntil (loadStep_follows restarts desc) fuel start).bind ?_
  rintro ⟨_, block, below⟩ ⟨_, _, below'⟩ ⟨rfl, rfl, rfl, same'⟩
  exact .of_some ⟨rfl, rfl, ⟨same', sameRight, rfl, clean, row⟩, rfl⟩

abbrev Returned (c' d' : Executor τ) (alike : σ → σ → Prop) (alike' : τ → τ → Prop)
    (first second : Bool × BlockNestedLoopJoinExecutor σ τ) : Prop :=
  first.1 = second.1 ∧ first.2.Alike c' d' alike alike' second.2 ∧ (first.1 = true → first.2.current = second.2.current)

section
variable (restarts' : c'.Restarts d' clean' alike')

include restarts'

variable (fuel : Nat)

theorem nextBlock_follows {e other : BlockNestedLoopJoinExecutor σ τ} (same : e.Alike c' d' alike alike' other)
    (idle : e.rightHasCur = false) :
    Follows (SumRel (Alike c' d' alike alike') (Returned c' d' alike alike')) (nextBlock fuel c c' e)
      (nextBlock fuel d d' other) := by
  obtain ⟨fine, fine'⟩ := restarts'.errors _ _ same.right
  simp only [nextBlock, fine, fine']
  refine (loadLeftBlock_follows restarts fuel same).bind ?_
  rintro ⟨_, left, right, leftDesc, joinedDesc, joinedBuf, current, err, leftblock, blockidx, rightHasCur⟩
    ⟨_, left', right', _, _, _, current', _, _, _, _⟩ ⟨rfl, rfl, ⟨sameLeft, sameRight, fields, clean, row⟩, kept⟩
  cases fields
  cases kept.trans idle
  cases leftblock with
  | nil => exact .of_some (.inr ⟨rfl, ⟨sameLeft, sameRight, rfl, clean, row⟩, nofun⟩)
  | cons first block =>
    obtain ⟨ready, ready'⟩ := restarts'.clean _ _ sameRight
    refine (restarts'.init _ _ ready ready').bind ?_
    rintro ⟨_, below⟩ ⟨_, below'⟩ ⟨rfl, rfl, same'⟩
    exact .of_some (.inl ⟨sameLeft, same', rfl, clean, nofun⟩)

theorem joinStep_follows (predicate : PhysicalExpr) (e other : BlockNestedLoopJoinExecutor σ τ)
    (same : e.Alike c' d' alike alike' other) :
    Follows (SumRel (Alike c' d' alike alike') (Returned c' d' alike alike')) (joinStep fuel c c' predicate e)
      (joinStep fuel d d' predicate other) := by
  obtain ⟨left, right, leftDesc, joinedDesc, joinedBuf, current, err, leftblock, blockidx, rightHasCur⟩ := e
  obtain ⟨left', right', _, _, _, current', _, _, _, _⟩ := other
  obtain ⟨sameLeft, sameRight, fields, clean, row⟩ := same
  cases fields
  simp only [joinStep]
  split
  next => exact .of_some (.inr ⟨rfl, ⟨sameLeft, sameRight, rfl, clean, row⟩, nofun⟩)
  next =>
    cases rightHasCur with
    | false =>
      refine (restarts'.next _ _ sameRight).bind ?_
      rintro ⟨found, below⟩ ⟨_, below'⟩ ⟨rfl, same', agree⟩
      cases found with
      | false => exact nextBlock_follows restarts restarts' fuel ⟨sameLeft, same', rfl, clean, nofun⟩ rfl
      | true => exact .of_some (.inl ⟨sameLeft, same', rfl, clean, fun _ => agree rfl⟩)
    | true =>
      cases leftblock[blockidx]? with
      | none => exact .of_some (.inl ⟨sameLeft, sameRight, rfl, clean, nofun⟩)
      | some lefttuple =>
        have rows : c'.current right = d'.current right' := row rfl
        simp only [if_true, rows]
        refine .bind_same fun desc => ?_
        refine .bind_same fun righttuple => ?_
        refine .bind_same fun merged => ?_
        refine .bind_same fun passed => ?_
        cases passed with
        | false => exact .of_some (.inl ⟨sameLeft, sameRight, rfl, clean, row⟩)
        | true => exact .of_some (.inr ⟨rfl, ⟨sameLeft, sameRight, rfl, clean, row⟩, fun _ => rfl⟩)

theorem blockNestedLoopJoinExecutor_restarts (leftSchema rightSchema : List FieldType) (predicate : PhysicalExpr) :
    (blockNestedLoopJoinExecutor fuel c c' leftSchema rightSchema predicate).Restarts
      (blockNestedLoopJoinExecutor fuel d d' leftSchema rightSchema predicate)
      (fun e => clean e.left ∧ clean' e.right ∧ e.err = none) (Alike c' d' alike alike') where
  init e other first second := by
    obtain ⟨left, right, _, _, _, current, err, _, _, _⟩ := e
    obtain ⟨left', right', _, _, _, current', err', _, _, _⟩ := other
    obtain ⟨readyLeft, readyRight, clean⟩ := first
    obtain ⟨readyLeft', readyRight', clean'⟩ := second
    cases clean
    cases clean'
    refine (restarts.init _ _ readyLeft readyLeft').bind ?_
    rintro ⟨_, left⟩ ⟨_, left'⟩ ⟨rfl, rfl, sameLeft⟩
    refine (restarts'.init _ _ readyRight readyRight').bind ?_
    rintro ⟨_, right⟩ ⟨_, right'⟩ ⟨rfl, rfl, sameRight⟩
    refine .bind_same fun leftDesc => ?_
    refine .bind_same fun joinedDesc => ?_
    refine (loadLeftBlock_follows restarts fuel ?_).mono fun first second same => ⟨same.1, same.2.1, same.2.2.1⟩
    exact ⟨sameLeft, sameRight, rfl, rfl, nofun⟩
  next e other same := follows_repeatUntil (joinStep_follows restarts restarts' fuel predicate) fuel same
  clean e other same := by
    obtain ⟨readyLeft, readyLeft'⟩ := restarts.clean _ _ same.left
    obtain ⟨readyRight, readyRight'⟩ := restarts'.clean _ _ same.right
    exact ⟨⟨readyLeft, readyRight, same.err⟩, readyLeft', readyRight', by rw [same.fields]; exact same.err⟩
  errors e other same := ⟨same.err, by rw [same.fields]; exact same.err⟩

end

end Joining
end GoDB.Execution
