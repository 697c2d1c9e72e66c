import GoDB.Proofs.EquiJoinKeys
import GoDB.Proofs.FilteredPlans

/-! Hash and sort-merge joins against the nested loop join. A condition that a key
is mined from is dropped whole, so its other conjuncts go unchecked. -/

namespace GoDB.Planner.LogicalJoinNode
variable [Identifiers] (n : LogicalJoinNode)

def schema : LogicalSchema := n.left.outputSchema ++ n.right.outputSchema

def minedKeys : List (LogicalExpr × LogicalExpr) :=
  n.joinOn.flatMap (Planner.minedKeys n.left.outputSchema n.right.outputSchema)

def minedEqualities : List LogicalExpr :=
  n.minedKeys.map fun key => .comparison 0 key.1 key.2 .equal

def kept : List LogicalExpr :=
  n.joinOn.filter fun cond => Planner.minedKeys n.left.outputSchema n.right.outputSchema cond = []

def droppedConjuncts : List LogicalExpr :=
  (n.joinOn.filter fun cond => Planner.minedKeys n.left.outputSchema n.right.outputSchema cond ≠ []).flatMap
    (unmined n.left.outputSchema n.right.outputSchema)

end GoDB.Planner.LogicalJoinNode

namespace GoDB.Execution
open Common Lib Storage Planner List Option BlockNestedLoopJoinRule ComparisonType LogicalJoinNode Expr Prod

variable {db : Database} {leftPlan rightPlan plan : PlanNode} {leftRows rightRows rows : List Row} {pair : Row × Row}

theorem keysMatch_cons {left right : PhysicalExpr} {val1 val2 result : Value}
    (evalLeft : left.eval pair.1 = some val1) (evalRight : right.eval pair.2 = some val2)
    (compared : equal.eval val1 val2 = some result) (lefts rights : List PhysicalExpr) :
    keysMatch (left :: lefts) (right :: rights) pair = (keysMatch lefts rights pair).map (exprIsTrue result && ·) := by
  simp only [keysMatch, mapM_cons, evalLeft, evalRight, bind_eq_bind, bind_some]
  cases lefts.mapM (·.eval pair.1) with
  | none => rfl
  | some vals1 =>
    cases rights.mapM (·.eval pair.2) with
    | none => rfl
    | some vals2 =>
      simp only [Option.bind_some, Option.pure_def, zip_cons_cons, mapM_cons, compared, Option.bind_eq_bind]
      cases (vals1.zip vals2).mapM fun vals => equal.eval vals.1 vals.2 <;> rfl

theorem planRows_materialized (plan : PlanNode) : planRows db (materialized plan) = planRows db plan := by
  cases plan <;> rfl

theorem outputSchema_materialized (plan : PlanNode) : (materialized plan).outputSchema = plan.outputSchema := by
  cases plan <;> rfl

theorem mem_pairs : pair ∈ pairs leftRows rightRows ↔ pair.1 ∈ leftRows ∧ pair.2 ∈ rightRows := by
  simp only [pairs, List.mem_flatMap, List.mem_map]
  constructor
  · rintro ⟨l, inLeft, r, inRight, rfl⟩
    exact ⟨inLeft, inRight⟩
  · intro ⟨inLeft, inRight⟩
    exact ⟨pair.1, inLeft, pair.2, inRight, rfl⟩

section
variable [Identifiers] {join : LogicalJoinNode}

theorem getEquiJoinKeys_eq (join : LogicalJoinNode) :
    (getEquiJoinKeys join).map (fun pair => (pair.left, pair.right)) = join.minedKeys := by
  simp only [getEquiJoinKeys, List.map_flatMap, List.map_map, Function.comp_def, List.map_id']
  rfl

theorem getNonEquiConditions_eq (join : LogicalJoinNode) :
    getNonEquiConditions join (getEquiJoinKeys join) = join.kept := by
  apply filter_congr
  intro cond member
  rw [decide_eq_decide, eq_nil_iff_forall_not_mem]
  simp only [getEquiJoinKeys, List.mem_map, List.mem_flatMap]
  constructor
  · intro absent key mined
    exact absent ⟨_, ⟨cond, member, key, mined, rfl⟩, rfl⟩
  · rintro none ⟨_, ⟨other, -, key, mined, rfl⟩, rfl⟩
    exact none key mined

def keyTest (leftSchema rightSchema : LogicalSchema) (pair : Row × Row) (key : LogicalExpr × LogicalExpr) :
    Option Bool := do
  let val1 ← key.1.evalWith (leftSchema.reader pair.1)
  let val2 ← key.2.evalWith (rightSchema.reader pair.2)
  (equal.eval val1 val2).map exprIsTrue

variable {lefts rights : List PhysicalExpr}

theorem keysMatch_eq {leftSchema rightSchema : LogicalSchema} {leftTypes rightTypes : List FieldType}
    {keys : List (LogicalExpr × LogicalExpr)}
    (boundLeft : bindExprs (keys.map fst) leftSchema leftTypes = some lefts)
    (boundRight : bindExprs (keys.map snd) rightSchema rightTypes = some rights)
    (defined : ∀ key ∈ keys, (keyTest leftSchema rightSchema pair key).isSome = true) :
    keysMatch lefts rights pair = some (decide (∀ key ∈ keys, keyTest leftSchema rightSchema pair key = some true)) := by
  induction keys generalizing lefts rights with
  | nil =>
    cases boundLeft
    cases boundRight
    simp [keysMatch]
  | cons key keys ih =>
    simp only [bindExprs, map_cons, mapM_cons, bind_eq_some, Option.pure_def, Option.some.injEq] at boundLeft boundRight
    obtain ⟨left, bindLeft, lefts, bindLefts, rfl⟩ := boundLeft
    obtain ⟨right, bindRight, rights, bindRights, rfl⟩ := boundRight
    obtain ⟨first, others⟩ := forall_mem_cons.mp defined
    have test : keyTest leftSchema rightSchema pair key = (left.eval pair.1).bind fun val1 =>
        (right.eval pair.2).bind fun val2 => (equal.eval val1 val2).map exprIsTrue := by
      rw [eval_bindExpr bindLeft, eval_bindExpr bindRight]
      rfl
    cases evalLeft : left.eval pair.1 with
    | none => simp [test, evalLeft] at first
    | some val1 =>
      cases evalRight : right.eval pair.2 with
      | none => simp [test, evalLeft, evalRight] at first
      | some val2 =>
        cases compared : equal.eval val1 val2 with
        | none => simp [test, evalLeft, evalRight, compared] at first
        | some result =>
          have here : keyTest leftSchema rightSchema pair key = some (exprIsTrue result) := by
            simp [test, evalLeft, evalRight, compared]
          rw [keysMatch_cons evalLeft evalRight compared, ih bindLefts bindRights others]
          simp only [forall_mem_cons, here, map_some, some.injEq, Bool.decide_and, Bool.decide_eq_true]

theorem keyTest_eq {key : LogicalExpr × LogicalExpr} (mined : key ∈ join.minedKeys)
    (width : pair.1.length = join.left.outputSchema.length) :
    keyTest join.left.outputSchema join.right.outputSchema pair key = equalTest (join.schema.reader (joined pair)) key := by
  obtain ⟨cond, member, mined⟩ := mem_flatMap.mp mined
  have sided := sided_of_minedKeys (join.predicate cond member) mined
  have left : key.1.evalWith (join.left.outputSchema.reader pair.1) =
      key.1.evalWith (join.schema.reader (joined pair)) := by
    apply evalWith_congr sided.builtLeft
    intro col inside
    exact LogicalSchema.reader_append_left _ _ width (all_eq_true.mp sided.left col inside)
  have right : key.2.evalWith (join.right.outputSchema.reader pair.2) =
      key.2.evalWith (join.schema.reader (joined pair)) := by
    apply evalWith_congr sided.builtRight
    intro col inside
    refine LogicalSchema.reader_append_right _ width fun covered => ?_
    apply join.separate cond member col (sided.columns col (mem_append_right _ inside))
    exact ⟨covered, all_eq_true.mp sided.right col inside⟩
  simp only [keyTest, equalTest, testWith, evalWith, left, right]
  cases key.1.evalWith (join.schema.reader (joined pair)) with
  | none => rfl
  | some => cases key.2.evalWith (join.schema.reader (joined pair)) <;> rfl

theorem planRows_nestedLoopJoin (left : planRows db leftPlan = some leftRows)
    (right : planRows db rightPlan = some rightRows) (built : apply join leftPlan rightPlan = some plan) :
    planRows db plan = some rows ↔ (∀ row ∈ (pairs leftRows rightRows).map joined, Defined join.schema join.joinOn row) ∧
        rows = ((pairs leftRows rightRows).map joined).filter (Passing join.schema join.joinOn) := by
  simp only [apply, bind_eq_some, Option.pure_def, Option.some.injEq] at built
  obtain ⟨bound, binds, rfl⟩ := built
  have truth : ∀ row, Conjunction (join.schema.reader row) join.joinOn (bound.test row) := by
    intro row
    rw [test_bindExpr binds]
    cases merged : mergePredicates join.joinOn with
    | some => exact conjunction_mergePredicates merged
    | none =>
      cases conds : join.joinOn with
      | nil => exact ⟨by simp [testWith, evalWith], by simp [testWith, evalWith, exprIsTrue]⟩
      | cons => simp [conds, mergePredicates] at merged
  simp only [planRows, planRows_materialized, left, right, bind_eq_bind, bind_some, select_eq_some_iff,
    (truth _).1, (truth _).2]
  rfl

theorem exists_bindExprs {es : List LogicalExpr} {s : LogicalSchema} {types : List FieldType}
    (binds : ∀ e ∈ es, (bindExpr e s types).isSome = true) : ∃ bound, bindExprs es s types = some bound :=
  ⟨_, mapM_eq_some_iff.mpr ⟨binds, rfl⟩⟩

theorem covers_joinOn (left : leftPlan.outputSchema.length = join.left.outputSchema.length)
    (right : rightPlan.outputSchema.length = join.right.outputSchema.length)
    (built : apply join leftPlan rightPlan = some plan) :
    ∀ cond ∈ join.joinOn, join.schema.coversExpr cond = true := by
  simp only [apply, bind_eq_some, outputSchema_materialized] at built
  obtain ⟨bound, binds, -⟩ := built
  cases merged : mergePredicates join.joinOn with
  | none =>
    cases conds : join.joinOn with
    | nil => simp
    | cons => simp [conds, mergePredicates] at merged
  | some finalPred =>
    rw [merged, getD_some] at binds
    have built := isBuilt_mergePredicates merged fun cond member => isBuilt_of_isPredicate (join.predicate cond member)
    apply (coversExpr_mergePredicates merged).mp
    apply (isSome_bindExpr_iff built _).mp
    · exact isSome_of_eq_some binds
    · simp [schema, left, right]

structure PairsByKeys (db : Database) (node : PlanNode → PlanNode → List PhysicalExpr → List PhysicalExpr → PlanNode) :
    Prop where
  rows : ∀ left right leftKeys rightKeys,
    planRows db (node left right leftKeys rightKeys) = planRows db (.hashJoin left right leftKeys rightKeys)
  outputSchema : ∀ left right leftKeys rightKeys,
    (node left right leftKeys rightKeys).outputSchema = left.outputSchema ++ right.outputSchema

variable {node : PlanNode → PlanNode → List PhysicalExpr → List PhysicalExpr → PlanNode}

theorem passing_minedEqualities (row : Row) : Passing join.schema join.minedEqualities row ↔
    ∀ key ∈ join.minedKeys, equalTest (join.schema.reader row) key = some true := by
  simp only [Passing, minedEqualities, List.forall_mem_map]
  rfl

theorem planRows_byKeys (pairing : PairsByKeys db node)
    (left : Supplies db leftPlan join.left.outputSchema leftRows)
    (right : Supplies db rightPlan join.right.outputSchema rightRows)
    (boundLeft : bindExprs (join.minedKeys.map fst) join.left.outputSchema leftPlan.outputSchema = some lefts)
    (boundRight : bindExprs (join.minedKeys.map snd) join.right.outputSchema rightPlan.outputSchema = some rights)
    (defined : ∀ row ∈ (pairs leftRows rightRows).map joined, Defined join.schema join.joinOn row) :
    planRows db (node leftPlan rightPlan lefts rights) =
      some (((pairs leftRows rightRows).map joined).filter (Passing join.schema join.minedEqualities)) := by
  have tested : ∀ pair ∈ pairs leftRows rightRows,
      keysMatch lefts rights pair = some (decide (Passing join.schema join.minedEqualities (joined pair))) := by
    intro pair member
    have width := left.width pair.1 (mem_pairs.mp member).1
    have same : ∀ key ∈ join.minedKeys, keyTest join.left.outputSchema join.right.outputSchema pair key =
        equalTest (join.schema.reader (joined pair)) key := fun key mined => keyTest_eq mined width
    rw [keysMatch_eq boundLeft boundRight]
    · simp only [passing_minedEqualities, some.injEq, decide_eq_decide]
      exact forall₂_congr fun key mined => by rw [same key mined]
    · intro key mined
      rw [same key mined]
      obtain ⟨cond, inside, mined⟩ := mem_flatMap.mp mined
      exact (testWith_mined (defined _ (mem_map_of_mem member) cond inside)).1 key mined
  have selected : select (keysMatch lefts rights) (pairs leftRows rightRows) = some ((pairs leftRows rightRows).filter
      fun pair => Passing join.schema join.minedEqualities (joined pair)) := by
    rw [select_eq_some_iff]
    refine ⟨fun pair member => by rw [tested pair member]; rfl, filter_congr fun pair member => ?_⟩
    simp [tested pair member]
  simp only [pairing.rows, planRows, left.produced, right.produced, bind_eq_bind, bind_some, selected,
    Option.pure_def, Option.some.injEq, List.filter_map]
  rfl

theorem passing_joinOn_iff {row : Row} (defined : Defined join.schema join.joinOn row) :
    Passing join.schema join.joinOn row ↔ Passing join.schema (join.minedEqualities ++ join.kept) row ∧
      Passing join.schema join.droppedConjuncts row := by
  have split : ∀ cond ∈ join.joinOn, cond.testWith (join.schema.reader row) = some true ↔
      (∀ key ∈ minedKeys join.left.outputSchema join.right.outputSchema cond,
        equalTest (join.schema.reader row) key = some true) ∧
      ∀ conjunct ∈ unmined join.left.outputSchema join.right.outputSchema cond,
        conjunct.testWith (join.schema.reader row) = some true :=
    fun cond member => (testWith_mined (defined cond member)).2
  constructor
  · intro passing
    refine ⟨forall_mem_append.mpr ⟨?_, ?_⟩, ?_⟩
    · apply (passing_minedEqualities row).mpr
      intro key mined
      obtain ⟨cond, member, mined⟩ := mem_flatMap.mp mined
      exact ((split cond member).mp (passing cond member)).1 key mined
    · intro cond member
      exact passing cond (mem_filter.mp member).1
    · intro conjunct member
      obtain ⟨cond, contributes, inside⟩ := mem_flatMap.mp member
      have member := (mem_filter.mp contributes).1
      exact ((split cond member).mp (passing cond member)).2 conjunct inside
  · intro ⟨passing, dropped⟩ cond member
    obtain ⟨mined, kept⟩ := forall_mem_append.mp passing
    by_cases none : minedKeys join.left.outputSchema join.right.outputSchema cond = []
    · exact kept cond (mem_filter.mpr ⟨member, decide_eq_true none⟩)
    · refine (split cond member).mpr ⟨?_, ?_⟩
      · intro key inside
        exact (passing_minedEqualities row).mp mined key (mem_flatMap.mpr ⟨cond, member, inside⟩)
      · intro conjunct inside
        apply dropped conjunct
        exact mem_flatMap.mpr ⟨cond, mem_filter.mpr ⟨member, decide_eq_true none⟩, inside⟩

theorem planRows_equiJoin (pairing : PairsByKeys db node)
    (left : Supplies db leftPlan join.left.outputSchema leftRows)
    (right : Supplies db rightPlan join.right.outputSchema rightRows)
    (covers : ∀ cond ∈ join.joinOn, join.schema.coversExpr cond = true)
    (defined : ∀ row ∈ (pairs leftRows rightRows).map joined, Defined join.schema join.joinOn row) :
    ∃ plan, applyEquiJoin node join leftPlan rightPlan = some plan ∧ planRows db plan =
      some (((pairs leftRows rightRows).map joined).filter (Passing join.schema (join.minedEqualities ++ join.kept))) := by
  have sided : ∀ key ∈ join.minedKeys, ∃ cond, Sided join.left.outputSchema join.right.outputSchema cond key := by
    intro key mined
    obtain ⟨cond, member, mined⟩ := mem_flatMap.mp mined
    exact ⟨cond, sided_of_minedKeys (join.predicate cond member) mined⟩
  obtain ⟨lefts, boundLeft⟩ : ∃ bound,
      bindExprs (join.minedKeys.map fst) join.left.outputSchema leftPlan.outputSchema = some bound := by
    apply exists_bindExprs
    rw [List.forall_mem_map]
    intro key mined
    obtain ⟨_, sided⟩ := sided key mined
    exact (isSome_bindExpr_iff sided.builtLeft left.typed).mpr sided.left
  obtain ⟨rights, boundRight⟩ : ∃ bound,
      bindExprs (join.minedKeys.map snd) join.right.outputSchema rightPlan.outputSchema = some bound := by
    apply exists_bindExprs
    rw [List.forall_mem_map]
    intro key mined
    obtain ⟨_, sided⟩ := sided key mined
    exact (isSome_bindExpr_iff sided.builtRight right.typed).mpr sided.right
  have typed : (node leftPlan rightPlan lefts rights).outputSchema.length = join.schema.length := by
    simp [pairing.outputSchema, schema, left.typed, right.typed]
  have keptOn : ∀ cond ∈ join.kept, cond ∈ join.joinOn := fun cond member => (mem_filter.mp member).1
  obtain ⟨plan, wrapped⟩ := isSome_iff_exists.mp ((isSome_wrapInFilter_iff
    (fun cond member => isBuilt_of_isPredicate (join.predicate cond (keptOn cond member))) typed).mpr
    fun cond member => covers cond (keptOn cond member))
  refine ⟨plan, ?_, ?_⟩
  · have keys := getEquiJoinKeys_eq join
    simp only [applyEquiJoin, getNonEquiConditions_eq]
    rw [← wrapped, schema]
    rw [← keys, List.map_map] at boundLeft boundRight
    simp only [Function.comp_def] at boundLeft boundRight
    simp [boundLeft, boundRight]
  · apply (planRows_wrapInFilter (planRows_byKeys pairing left right boundLeft boundRight defined) wrapped).mpr
    refine ⟨?_, ?_⟩
    · intro row member cond inside
      exact defined row (mem_filter.mp member).1 cond (keptOn cond inside)
    · exact (filter_passing_append ..).symm

theorem returns_equiJoin_iff (pairing : PairsByKeys db node) (left : Supplies db leftPlan join.left.outputSchema leftRows)
    (right : Supplies db rightPlan join.right.outputSchema rightRows)
    (built : apply join leftPlan rightPlan = some plan) (produced : planRows db plan = some rows) :
    Returns db (applyEquiJoin node join leftPlan rightPlan) rows ↔ ∀ l ∈ leftRows, ∀ r ∈ rightRows,
      Passing join.schema (join.minedEqualities ++ join.kept) (l ++ r) →
        Passing join.schema join.droppedConjuncts (l ++ r) := by
  obtain ⟨defined, rfl⟩ := (planRows_nestedLoopJoin left.produced right.produced built).mp produced
  obtain ⟨other, applied, result⟩ := planRows_equiJoin pairing left right (covers_joinOn left.typed right.typed built) defined
  have perm : Returns db (applyEquiJoin node join leftPlan rightPlan)
      (((pairs leftRows rightRows).map joined).filter (Passing join.schema join.joinOn)) ↔
      (((pairs leftRows rightRows).map joined).filter (Passing join.schema (join.minedEqualities ++ join.kept))).Perm
        (((pairs leftRows rightRows).map joined).filter (Passing join.schema join.joinOn)) := by
    simp [Returns, applied, result]
  rw [perm, filter_perm_iff]
  simp only [decide_eq_decide]
  constructor
  · intro same l inLeft r inRight passing
    have member : l ++ r ∈ (pairs leftRows rightRows).map joined :=
      mem_map.mpr ⟨(l, r), mem_pairs.mpr ⟨inLeft, inRight⟩, rfl⟩
    exact ((passing_joinOn_iff (defined _ member)).mp ((same _ member).mp passing)).2
  · intro dropped row member
    rw [passing_joinOn_iff (defined row member)]
    obtain ⟨pair, inPairs, rfl⟩ := mem_map.mp member
    obtain ⟨inLeft, inRight⟩ := mem_pairs.mp inPairs
    exact ⟨fun passing => ⟨passing, dropped _ inLeft _ inRight passing⟩, And.left⟩

/-- Hash and sort-merge joins return the rows of the nested loop join exactly when
every pair of rows that satisfies the mined equalities and the conditions kept
also satisfies the conjuncts dropped with the conditions that were mined. -/
theorem equi_joins_return_iff (left : Supplies db leftPlan join.left.outputSchema leftRows)
    (right : Supplies db rightPlan join.right.outputSchema rightRows)
    (built : apply join leftPlan rightPlan = some plan) (produced : planRows db plan = some rows) :
    (Returns db (HashJoinRule.apply join leftPlan rightPlan) rows ↔ ∀ l ∈ leftRows, ∀ r ∈ rightRows,
      Passing join.schema (join.minedEqualities ++ join.kept) (l ++ r) →
        Passing join.schema join.droppedConjuncts (l ++ r)) ∧
    (Returns db (SortMergeJoinRule.apply join leftPlan rightPlan) rows ↔ ∀ l ∈ leftRows, ∀ r ∈ rightRows,
      Passing join.schema (join.minedEqualities ++ join.kept) (l ++ r) →
        Passing join.schema join.droppedConjuncts (l ++ r)) := by
  have hash : PairsByKeys db .hashJoin := ⟨fun _ _ _ _ => rfl, fun _ _ _ _ => rfl⟩
  have sortMerge : PairsByKeys db .sortMergeJoin := ⟨fun _ _ _ _ => rfl, fun _ _ _ _ => rfl⟩
  exact ⟨returns_equiJoin_iff hash left right built produced, returns_equiJoin_iff sortMerge left right built produced⟩

end

section
open Ascii

/-- Two tables `a` and `b` of columns `x` and `y`, each with one row. -/
def sampleDb (a b : Row) : Database :=
  .of [(1, .ofRows 1 .twoInts [a]), (2, .ofRows 2 .twoInts [b])] []

def sampleColumn (table : String) (refID : Nat) (name : String) : LogicalColumn := ⟨name, .int, some ⟨table, refID⟩⟩

def sampleSchema (table : String) (refID : Nat) : LogicalSchema :=
  [sampleColumn table refID "x", sampleColumn table refID "y"]

/-- `ON a.x = b.x AND a.y > b.y`, one condition. -/
def sampleJoin : LogicalJoinNode where
  left := .other (sampleSchema "a" 1)
  right := .other (sampleSchema "b" 2)
  joinOn := [.logic 1 (.comparison 2 (.column (sampleColumn "a" 1 "x")) (.column (sampleColumn "b" 2 "x")) .equal)
    (.comparison 3 (.column (sampleColumn "a" 1 "y")) (.column (sampleColumn "b" 2 "y")) .greaterThan) .and]
  predicate := by decide
  separate := by decide

theorem matching_pair_equi_joined :
    Returns (sampleDb [.int 1, .int 5] [.int 1, .int 0])
      (HashJoinRule.apply sampleJoin (.seqScan 1 [.int, .int]) (.seqScan 2 [.int, .int])) [[.int 1, .int 5, .int 1, .int 0]] :=
  (equi_joins_return_iff ⟨rfl, rfl, by decide⟩ ⟨rfl, rfl, by decide⟩ rfl (by decide)).1.mpr (by decide)

/-- The hash join returns a pair that fails `a.y > b.y`: the condition is dropped
with the equality mined from it. -/
theorem hash_join_drops_comparison : HashJoinRule.isMatch sampleJoin = true ∧
    (apply sampleJoin (.seqScan 1 [.int, .int]) (.seqScan 2 [.int, .int])).bind
      (planRows (sampleDb [.int 1, .int 0] [.int 1, .int 5])) = some [] ∧
    (HashJoinRule.apply sampleJoin (.seqScan 1 [.int, .int]) (.seqScan 2 [.int, .int])).bind
      (planRows (sampleDb [.int 1, .int 0] [.int 1, .int 5])) = some [[.int 1, .int 0, .int 1, .int 5]] := by
  decide

end

end GoDB.Execution
