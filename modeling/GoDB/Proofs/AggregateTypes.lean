import GoDB.Proofs.AggregateResults

/-! The types of the rows of the aggregate executor against the schema of its plan.
The schema has the type of the argument for every aggregate; COUNT is an integer
whatever it counts, and so is the NULL of an aggregate that has not seen a value. -/

namespace GoDB.Execution
open Common Lib Storage Planner List BoundValueExpr Grouping Value Tuple Expr

section Folds
variable {v : Value}

theorem stepAggregate_null {type : AggregatorType} {state : Option Value} (null : v.isNull = true) :
    stepAggregate type state v = some state := if_pos null

variable (type : AggregatorType)

theorem foldlM_known (args : List Value) (state : Option Value) :
    args.foldlM (stepAggregate type) state = (known args).foldlM (stepAggregate type) state := by
  induction args generalizing state with
  | nil => rfl
  | cons v args ih =>
    rw [foldlM_cons]
    by_cases null : v.isNull = true
    · have skipped : known (v :: args) = known args := by simp [known, null]
      rw [stepAggregate_null null, Option.bind_eq_bind, Option.bind_some, ih, skipped]
    · have counted : known (v :: args) = v :: known args := by simp [known, null]
      rw [counted, foldlM_cons]
      exact congrArg _ (funext ih)

variable {args : List Value}

theorem type_of_mem_known {t : FieldType} (typed : ∀ v ∈ args, v.isNull ∨ v.type = t)
    (member : v ∈ known args) : v.type = t ∧ v.isNull = false := by
  obtain ⟨inside, some⟩ := mem_filter.mp member
  have some : v.isNull = false := by simpa using some
  refine ⟨(typed v inside).resolve_left ?_, some⟩
  rw [some]
  exact Bool.false_ne_true

/-- The arguments of a type over which an aggregate has that type. -/
def KeepsType (args : List Value) : FieldType → Prop
  | .int => True
  | .string =>
    match type with
    | .count => False
    | .sum => (known args).length = 1
    | .min | .max => known args ≠ []

theorem exists_string (some : v.isNull = false) (string : v.type = .string) : ∃ s, v = .string s := by
  cases v with
  | string s => exact ⟨s, rfl⟩
  | int => cases string
  | null => cases some

theorem foldAggregate_sum_string (typed : ∀ v ∈ args, v.isNull ∨ v.type = .string) :
    (∃ state, foldAggregate .sum args = some state ∧ (aggregateResult .sum state).type = .string) ↔
      (known args).length = 1 := by
  rw [foldAggregate, foldlM_known]
  have strings : ∀ v ∈ known args, v.type = .string ∧ v.isNull = false := fun v => type_of_mem_known typed
  generalize known args = vals at strings ⊢
  cases vals with
  | nil => simp [aggregateResult, type]
  | cons v rest =>
    obtain ⟨⟨text, known⟩, others⟩ := forall_mem_cons.mp strings
    obtain ⟨s, rfl⟩ := exists_string known text
    cases rest with
    | nil => exact iff_of_true ⟨some (.string s), rfl, rfl⟩ rfl
    | cons w rest =>
      obtain ⟨s', rfl⟩ := exists_string (others w mem_cons_self).2 (others w mem_cons_self).1
      refine iff_of_false ?_ ?_
      · rintro ⟨state, folded, -⟩
        cases folded
      · intro one
        cases one

theorem keepsType_iff {t : FieldType} (typed : ∀ v ∈ args, v.isNull ∨ v.type = t) :
    (∃ state, foldAggregate type args = some state ∧ (aggregateResult type state).type = t) ↔ KeepsType type args t := by
  by_cases texts : type = .sum ∧ t = .string
  · obtain ⟨rfl, rfl⟩ := texts
    exact foldAggregate_sum_string typed
  obtain ⟨state, folded, reached⟩ := foldAggregate_spec args fun sum => by
    cases t with
    | int => exact typed
    | string => exact absurd ⟨sum, rfl⟩ texts
  have result := aggregateResult_spec reached
  have only : (∃ state, foldAggregate type args = some state ∧ (aggregateResult type state).type = t) ↔
      (aggregateResult type state).type = t := by
    simp [folded]
  rw [only]
  have extreme (chosen : aggregateResult type state ∈ known args) : (aggregateResult type state).type = t :=
    (type_of_mem_known typed chosen).1
  generalize aggregateResult type state = value at result extreme ⊢
  cases type with
  | count =>
    cases result
    cases t <;> simp [KeepsType, type]
  | sum =>
    cases t with
    | int =>
      refine iff_of_true ?_ trivial
      rw [show value = _ from result]
      split <;> rfl
    | string => exact absurd ⟨rfl, rfl⟩ texts
  | min | max =>
    by_cases empty : known args = []
    · rw [IsAggregate, if_pos empty] at result
      cases result
      cases t <;> simp [KeepsType, empty, type]
    · rw [IsAggregate, if_neg empty] at result
      refine iff_of_true (extreme result.1) ?_
      cases t
      · trivial
      · exact empty

end Folds

section Rows
variable {groupBy : List PhysicalExpr} {aggs : List (AggregateClause BoundValueExpr)} {rows : List Row}

structure Applicable (groupBy : List PhysicalExpr) (aggs : List (AggregateClause BoundValueExpr))
    (row : Row) : Prop extends Evaluated groupBy aggs row where
  typed : ∀ clause ∈ aggs, (argumentOf clause row).isNull ∨
    (argumentOf clause row).type = outputType outputType clause.expr

def argumentsOf (groupBy : List PhysicalExpr) (rows : List Row) (bytes : RawTuple)
    (clause : AggregateClause BoundValueExpr) : List Value :=
  (rowsOf groupBy rows bytes).map (argumentOf clause)

theorem types_eq_iff {args : AggregateClause BoundValueExpr → List Value}
    {typeOf : AggregateClause BoundValueExpr → FieldType} {clauses : List (AggregateClause BoundValueExpr)}
    {states : List (Option Value)}
    (folded : List.Forall₂ (fun clause state => foldAggregate clause.type (args clause) = some state) clauses states) :
    ((clauses.zip states).map fun entry => (aggregateResult entry.1.type entry.2).type) = clauses.map typeOf ↔
      ∀ clause ∈ clauses, ∃ state, foldAggregate clause.type (args clause) = some state ∧
        (aggregateResult clause.type state).type = typeOf clause := by
  induction folded with
  | nil => simp
  | cons here _ ih => simp [here, ih]

theorem first_key {bytes : RawTuple} (met : bytes ∈ keys (keyBytes groupBy) rows) :
    ∃ first ∈ rows, ((rowsOf groupBy rows bytes).head?.map (keyOf groupBy)).getD [] =
      keyOf groupBy first := by
  obtain ⟨row, inside, same⟩ := (mem_keys _).mp met
  have found : row ∈ rowsOf groupBy rows bytes := (mem_members _).mpr ⟨inside, same⟩
  have some := ne_nil_of_mem found
  refine ⟨(rowsOf groupBy rows bytes).head some, ((mem_members _).mp (head_mem some)).1, ?_⟩
  rw [head?_eq_some_head some]
  rfl

theorem groupOf_typed_iff (applicable : ∀ row ∈ rows, Applicable groupBy aggs row)
    (typed : ∀ row ∈ rows, KeyTyped groupBy row) {bytes : RawTuple}
    (met : bytes ∈ keys (keyBytes groupBy) rows) :
    (∃ group, groupOf groupBy aggs rows bytes = some group ∧ (group.output aggs).map type =
          (groupBy ++ aggs.map (·.expr)).map (outputType outputType)) ↔
      ∀ clause ∈ aggs, KeepsType clause.type (argumentsOf groupBy rows bytes clause)
        (outputType outputType clause.expr) := by
  have folds : (∀ clause ∈ aggs, KeepsType clause.type (argumentsOf groupBy rows bytes clause)
        (outputType outputType clause.expr)) ↔
      ∀ clause ∈ aggs, ∃ state, foldAggregate clause.type (argumentsOf groupBy rows bytes clause) = some state ∧
        (aggregateResult clause.type state).type = outputType outputType clause.expr := by
    refine forall₂_congr fun clause member => (keepsType_iff clause.type ?_).symm
    exact forall_mem_map.mpr fun row found =>
      (applicable row ((mem_members _).mp found).1).typed clause member
  rw [folds]
  obtain ⟨first, inside, key⟩ := first_key met
  constructor
  · rintro ⟨group, made, types⟩
    obtain ⟨states, folded, same⟩ := bind_eq_some.mp made
    cases same
    refine (types_eq_iff (forall₂_of_mapM folded)).mp ?_
    rw [AggregateGroup.output, key, map_append, map_append, map_map, map_map] at types
    exact append_cancel_left ((congrArg (· ++ _) (typed first inside).symm).trans types)
  · intro all
    obtain ⟨states, folded, -⟩ := exists_mapM all
    refine ⟨⟨bytes, keyOf groupBy first, states⟩, ?_, ?_⟩
    · rw [groupOf, key]
      exact congrArg (Option.bind · _) folded
    · rw [AggregateGroup.output, map_append, map_append, map_map, map_map]
      exact congrArg₂ (· ++ ·) (typed first inside) ((types_eq_iff (forall₂_of_mapM folded)).mpr all)

end Rows

section Executor
variable {σ : Type} {below last : σ} {fuel : Nat}

/-- The rows of the executor have the types that the plan node gives for them exactly when the key has room in a row,
every key has the types of its columns, and every clause over texts is a MIN or a MAX with a value in every group, or
a SUM with just one. -/
theorem aggregate_typed_iff (childPlan : PlanNode) (child : Executor σ) (e : AggregateExecutor σ)
    (groupBy : List PhysicalExpr) (aggs : List (AggregateClause BoundValueExpr)) (tuples : List Tuple)
    (began : child.init e.child = some (none, below)) (yields : child.Yields below tuples)
    (ends : child.Ends below last) (clean : child.error last = none)
    (applicable : ∀ tuple ∈ tuples, Applicable groupBy aggs tuple.values) (enough : tuples.length < fuel) :
    (∃ later, ∃ results : List Row, (aggregateExecutor fuel child groupBy aggs).init e = some (none, later) ∧
        (aggregateExecutor fuel child groupBy aggs).Runs later (results.map fromValues) ∧
        ∀ row ∈ results, row.map type = (PlanNode.aggregate childPlan groupBy aggs).outputSchema) ↔
      bytesOf (groupTypes groupBy) ≤ pageSize - 32 ∧ (∀ tuple ∈ tuples, KeyTyped groupBy tuple.values) ∧
        ∀ clause ∈ aggs, ∀ tuple ∈ tuples, KeepsType clause.type
          (argumentsOf groupBy (tuples.map values) (keyBytes groupBy tuple.values) clause)
          (outputType outputType clause.expr) := by
  have rows : ∀ row ∈ tuples.map values, Applicable groupBy aggs row := forall_mem_map.mpr applicable
  rw [returns_groups_iff began yields ends clean (fun row member => (rows row member).toEvaluated) enough]
  refine and_congr_right fun _ => and_congr_right fun typed => ?_
  simp only [forall_mem_map]
  rw [exists_mapM_iff]
  have groups := fun bytes => @groupOf_typed_iff _ _ _ rows (forall_mem_map.mpr typed) bytes
  constructor
  · intro all clause member tuple inside
    have met : keyBytes groupBy tuple.values ∈ keys (keyBytes groupBy) (tuples.map values) :=
      (mem_keys _).mpr ⟨tuple.values, mem_map_of_mem inside, rfl⟩
    exact (groups _ met).mp (all _ met) clause member
  · intro keeps bytes met
    obtain ⟨row, inside, same⟩ := (mem_keys _).mp met
    obtain ⟨tuple, listed, rfl⟩ := mem_map.mp inside
    refine (groups bytes met).mpr fun clause member => ?_
    rw [← same]
    exact keeps clause member tuple listed

end Executor

section Samples

theorem sales_applicable : ∀ tuple ∈ salesRows,
    Applicable [salesColumn 0 .int] [⟨.min, salesColumn 2 .string⟩] tuple.values := by
  simp only [salesRows, forall_mem_cons, not_mem_nil, false_imp_iff, implies_true, and_true]
  refine ⟨⟨⟨rfl, ?_⟩, ?_⟩, ⟨⟨rfl, ?_⟩, ?_⟩, ⟨⟨rfl, ?_⟩, ?_⟩⟩ <;> decide

theorem least_letters_typed : ∃ later, ∃ results : List Row,
    (aggregateExecutor 4 sales [salesColumn 0 .int] [⟨.min, salesColumn 2 .string⟩]).init ⟨salesStart, [], -1, none⟩ =
        some (none, later) ∧
      (aggregateExecutor 4 sales [salesColumn 0 .int] [⟨.min, salesColumn 2 .string⟩]).Runs later (results.map fromValues) ∧
      ∀ row ∈ results, row.map type = [.int, .string] := by
  refine (aggregate_typed_iff (.values [] []) sales ⟨salesStart, [], -1, none⟩ [salesColumn 0 .int]
    [⟨.min, salesColumn 2 .string⟩] salesRows rfl sales_yields sales_end rfl sales_applicable (by decide)).mpr
    ⟨by decide, sales_typed, ?_⟩
  simp only [mem_singleton, forall_eq]
  change ∀ tuple ∈ salesRows, known (argumentsOf _ _ _ _) ≠ []
  decide

theorem count_of_letters_is_int : ∃ later,
    (aggregateExecutor 4 sales [salesColumn 0 .int] [⟨.count, salesColumn 2 .string⟩]).init ⟨salesStart, [], -1, none⟩ =
        some (none, later) ∧
      (aggregateExecutor 4 sales [salesColumn 0 .int] [⟨.count, salesColumn 2 .string⟩]).Runs later
        [.fromValues [.int 1, .int 2], .fromValues [.int 2, .int 1]] ∧
      (PlanNode.aggregate (.values [] []) [salesColumn 0 .int] [⟨.count, salesColumn 2 .string⟩]).outputSchema =
        [.int, .string] :=
  ⟨⟨_, [.fromValues [.int 1, .int 2], .fromValues [.int 2, .int 1]], -1, none⟩, rfl, runs_results _ 0 (Nat.zero_le _), rfl⟩

end Samples
end GoDB.Execution
