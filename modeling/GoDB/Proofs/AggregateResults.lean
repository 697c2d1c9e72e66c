import GoDB.Proofs.AggregateGroups

/-! The rows of the aggregate executor. -/

namespace GoDB.Execution
open Common Lib Storage Planner List Option Grouping Tuple AggregateGroup Value

section Results
variable (groupBy : List PhysicalExpr) (aggs : List (AggregateClause BoundValueExpr))

/-- A row that the expressions can be evaluated in. The values of the key can be stored, an
argument has the type of its expression, and what is summed up is an integer. -/
structure Aggregable (row : Row) : Prop extends Evaluated groupBy aggs row where
  stored : ∀ v ∈ keyOf groupBy row, v.representable
  typed : ∀ clause ∈ aggs, (argumentOf clause row).isNull ∨
    (argumentOf clause row).type = Expr.outputType BoundValueExpr.outputType clause.expr
  summed : ∀ clause ∈ aggs, clause.type = .sum → Expr.outputType BoundValueExpr.outputType clause.expr = .int

def AggregatesOf (rows : List Row) (key : List Value) (result : Row) : Prop :=
  ∃ aggregates, result = key ++ aggregates ∧ List.Forall₂ (fun clause aggregate =>
    IsAggregate clause.type ((members (keyOf groupBy) rows key).map (argumentOf clause)) aggregate)
    aggs aggregates

def Aggregated (rows : List Row) (results : List Row) : Prop :=
  List.Forall₂ (AggregatesOf groupBy aggs rows) (keys (keyOf groupBy) rows) results

end Results

section Reference
variable {groupBy : List PhysicalExpr} {aggs : List (AggregateClause BoundValueExpr)} {rows : List Row}

section
variable (aggregable : ∀ row ∈ rows, Aggregable groupBy aggs row)

include aggregable

theorem keys_apart (typed : ∀ row ∈ rows, KeyTyped groupBy row) {first second : Row} (inside : first ∈ rows)
    (inside' : second ∈ rows)
    (same : (keyOf groupBy first).flatMap writeTo = (keyOf groupBy second).flatMap writeTo) :
    keyOf groupBy first = keyOf groupBy second :=
  writeAll_injective ((typed first inside).trans (typed second inside').symm) (aggregable first inside).stored
    (aggregable second inside').stored same

omit aggregable in
theorem results_of_states {args : AggregateClause BoundValueExpr → List Value}
    {clauses : List (AggregateClause BoundValueExpr)} {states : List (Option Value)}
    (reached : List.Forall₂ (fun clause state => IsState clause.type (args clause) state) clauses states) :
    List.Forall₂ (fun clause aggregate => IsAggregate clause.type (args clause) aggregate) clauses
      ((clauses.zip states).map fun entry => aggregateResult entry.1.type entry.2) := by
  induction reached with
  | nil => exact .nil
  | cons reached _ ih => exact .cons (aggregateResult_spec reached) ih

theorem groupOf_spec (typed : ∀ row ∈ rows, KeyTyped groupBy row) {key : List Value}
    (met : key ∈ keys (keyOf groupBy) rows) :
    ∃ group, groupOf groupBy aggs rows (key.flatMap writeTo) = some group ∧
      AggregatesOf groupBy aggs rows key (group.output aggs) := by
  obtain ⟨row, inside, rfl⟩ := (mem_keys _).mp met
  have members : rowsOf groupBy rows ((keyOf groupBy row).flatMap writeTo) =
      members (keyOf groupBy) rows (keyOf groupBy row) :=
    members_encode fun other member same => keys_apart aggregable typed member inside same
  have summed (clause : AggregateClause BoundValueExpr) (member : clause ∈ aggs) (sum : clause.type = .sum) :
      ∀ v ∈ (Grouping.members (keyOf groupBy) rows (keyOf groupBy row)).map (argumentOf clause),
        v.isNull ∨ v.type = .int := by
    refine forall_mem_map.mpr fun other found => ?_
    have fine := aggregable other ((mem_members _).mp found).1
    rw [← fine.summed clause member sum]
    exact fine.typed clause member
  obtain ⟨states, folded, reached⟩ := exists_mapM fun clause member =>
    @foldAggregate_spec clause.type _ (summed clause member)
  refine ⟨⟨(keyOf groupBy row).flatMap writeTo, keyOf groupBy row, states⟩, ?_, _, rfl,
    results_of_states reached⟩
  have first : (Grouping.members (keyOf groupBy) rows (keyOf groupBy row)).head?.map (keyOf groupBy) =
      some (keyOf groupBy row) := by
    have found : row ∈ Grouping.members (keyOf groupBy) rows (keyOf groupBy row) :=
      (mem_members _).mpr ⟨inside, rfl⟩
    rw [head?_eq_some_head (ne_nil_of_mem found), map_some]
    exact congrArg some ((mem_members _).mp (head_mem _)).2
  rw [groupOf, members, folded, first]
  rfl

theorem exists_aggregated (typed : ∀ row ∈ rows, KeyTyped groupBy row) :
    ∃ groups, (keys (keyBytes groupBy) rows).mapM (groupOf groupBy aggs rows) = some groups ∧
      Aggregated groupBy aggs rows (groups.map (output aggs)) := by
  obtain ⟨groups, made, all⟩ := exists_mapM fun key => @groupOf_spec _ _ _ aggregable typed key
  refine ⟨groups, ?_, forall₂_map_right_iff.mpr all⟩
  rw [keyBytes, keys_encode fun first inside second inside' => keys_apart aggregable typed inside inside', mapM_map]
  exact made

end

end Reference

section Executor
variable {σ β : Type} {child : Executor σ} {below last : σ} {tuples : List Tuple}

theorem drain_eq (yields : child.Yields below tuples) (ends : child.Ends below last) (body : β → Tuple → Option β)
    (start : β) {fuel : Nat} (enough : tuples.length < fuel) :
    drain fuel child body start below = (tuples.foldlM body start).map (·, last) := by
  induction yields generalizing start fuel with
  | done finished =>
    obtain ⟨fuel, rfl⟩ := Nat.exists_eq_add_of_lt enough
    cases ends with
    | done finished' =>
      cases finished.symm.trans finished'
      exact repeatUntil_return (by rw [drainStep, finished]; rfl)
    | more advanced => cases finished.symm.trans advanced
  | @more s later tuple rest advanced at_ _ ih =>
    obtain ⟨fuel, rfl⟩ : ∃ more, fuel = more + 1 := ⟨fuel - 1, by omega⟩
    cases ends with
    | done finished => cases advanced.symm.trans finished
    | more advanced' ends =>
      cases advanced.symm.trans advanced'
      have step : drainStep child body (start, s) = (body start tuple).map fun next => .inl (next, later) := by
        simp only [drainStep, advanced, at_, bind_eq_bind, bind_some, if_true]
        cases body start tuple <;> rfl
      rw [foldlM_cons, bind_eq_bind]
      cases taken : body start tuple with
      | none =>
        rw [taken] at step
        rw [drain, repeatUntil, step]
        rfl
      | some next =>
        rw [taken] at step
        rw [drain, repeatUntil_continue step]
        exact ih ends next (Nat.lt_of_succ_lt_succ enough)

variable {groupBy : List PhysicalExpr} {aggs : List (AggregateClause BoundValueExpr)} {fuel : Nat}

theorem runs_results (results : List Tuple) (passed : Nat) (inside : passed ≤ results.length) :
    (aggregateExecutor fuel child groupBy aggs).Runs ⟨below, results, (passed : Int) - 1, none⟩
      (results.drop passed) := by
  let place (i : Nat) : AggregateExecutor σ := ⟨below, results, (i : Int) - 1, none⟩
  refine Cursor.runs_of_places place (fun i item here => ?_) ?_ (fun _ => rfl) passed inside
  · have bound := (List.getElem?_eq_some_iff.mp here).1
    constructor
    · simp [aggregateExecutor, place, bound]
    · simpa [aggregateExecutor, place] using here
  · exact if_pos (.inr (show (results.length : Int) ≤ (results.length : Int) - 1 + 1 by omega))

variable {e : AggregateExecutor σ}

theorem init_aggregateExecutor (began : child.init e.child = some (none, below))
    (yields : child.Yields below tuples) (ends : child.Ends below last) (clean : child.error last = none)
    (enough : tuples.length < fuel) :
    (aggregateExecutor fuel child groupBy aggs).init e =
      (newRawTupleDesc (groupTypes groupBy)).bind fun groupDesc =>
        ((tuples.map values).foldlM (aggregateRow groupBy aggs groupDesc) []).map fun groups =>
          (none, ⟨last, (groups.map (output aggs)).map fromValues, -1, none⟩) := by
  simp only [aggregateExecutor, began, bind_eq_bind, bind_some, groupTypes]
  congr 1
  funext groupDesc
  rw [drain_eq yields ends _ [] enough, foldlM_map]
  cases tuples.foldlM (fun groups tuple => aggregateRow groupBy aggs groupDesc groups tuple.values) [] with
  | none => rfl
  | some groups =>
    simp only [Option.map_some, Option.bind_some, clean, List.map_map]
    rfl

theorem fromValues_injective : Function.Injective fromValues := by
  intro first second same
  cases same
  rfl

/-- The executor returns the rows of the groups, just where the bytes of a key have room in a row and every key has
the types of its columns. Otherwise it panics. -/
theorem returns_groups_iff (began : child.init e.child = some (none, below))
    (yields : child.Yields below tuples) (ends : child.Ends below last) (clean : child.error last = none)
    (evaluated : ∀ row ∈ tuples.map values, Evaluated groupBy aggs row) (enough : tuples.length < fuel)
    (property : List Row → Prop) :
    (∃ later results, (aggregateExecutor fuel child groupBy aggs).init e = some (none, later) ∧
        (aggregateExecutor fuel child groupBy aggs).Runs later (results.map fromValues) ∧
        property results) ↔
      bytesOf (groupTypes groupBy) ≤ pageSize - 32 ∧ (∀ tuple ∈ tuples, KeyTyped groupBy tuple.values) ∧
        ∃ groups, (keys (keyBytes groupBy) (tuples.map values)).mapM
            (groupOf groupBy aggs (tuples.map values)) = some groups ∧
          property (groups.map (output aggs)) := by
  have typed : (∀ tuple ∈ tuples, KeyTyped groupBy tuple.values) ↔
      ∀ row ∈ tuples.map values, KeyTyped groupBy row := forall_mem_map.symm
  rw [typed, init_aggregateExecutor began yields ends clean enough]
  constructor
  · rintro ⟨later, results, returned, runs, holds⟩
    obtain ⟨groupDesc, described, returned⟩ := bind_eq_some.mp returned
    obtain ⟨groups, made, same⟩ := Option.map_eq_some_iff.mp returned
    cases same
    unfold newRawTupleDesc at described
    split at described
    · next fits =>
      cases described
      have typed := keyTyped_of_groups rfl evaluated made
      rw [foldlM_aggregateRow rfl evaluated typed] at made
      have same := (runs_results _ 0 (Nat.zero_le _)).yields.unique runs.yields
      cases fromValues_injective.list_map same
      exact ⟨fits, typed, groups, made, holds⟩
    · cases described
  · rintro ⟨fits, typed, groups, made, holds⟩
    have described : newRawTupleDesc (groupTypes groupBy) = some ⟨groupTypes groupBy, fits⟩ := dif_pos fits
    refine ⟨⟨last, (groups.map (output aggs)).map fromValues, -1, none⟩,
      groups.map (output aggs), ?_, runs_results _ 0 (Nat.zero_le _), holds⟩
    rw [described, bind_some, foldlM_aggregateRow rfl evaluated typed, made]
    rfl

/-- One row for each key, with its aggregates. -/
theorem aggregate_executor_iff (child : Executor σ) (e : AggregateExecutor σ) (groupBy : List PhysicalExpr)
    (aggs : List (AggregateClause BoundValueExpr)) (tuples : List Tuple)
    (began : child.init e.child = some (none, below)) (yields : child.Yields below tuples)
    (ends : child.Ends below last) (clean : child.error last = none)
    (aggregable : ∀ tuple ∈ tuples, Aggregable groupBy aggs tuple.values) (enough : tuples.length < fuel) :
    (∃ later results, (aggregateExecutor fuel child groupBy aggs).init e = some (none, later) ∧
        (aggregateExecutor fuel child groupBy aggs).Runs later (results.map fromValues) ∧
        Aggregated groupBy aggs (tuples.map values) results) ↔
      bytesOf (groupTypes groupBy) ≤ pageSize - 32 ∧ ∀ tuple ∈ tuples, KeyTyped groupBy tuple.values := by
  have rows : ∀ row ∈ tuples.map values, Aggregable groupBy aggs row := forall_mem_map.mpr aggregable
  rw [returns_groups_iff began yields ends clean (fun row member => (rows row member).toEvaluated) enough]
  refine and_congr_right fun _ => and_iff_left_of_imp fun typed => ?_
  exact exists_aggregated rows (forall_mem_map.mpr typed)

end Executor

section Samples

def salesColumn (fieldOffset : Nat) (fieldType : FieldType) : PhysicalExpr := .column ⟨fieldOffset, fieldType, "column"⟩

def letter (code : Byte) : Value := .string ⟨[code], Nat.le_of_ble_eq_true rfl⟩

/-- The number of a shop, an amount and a letter. -/
def sales : Executor ValuesExecutor :=
  valuesExecutor [[.constant (.int 1), .constant (.int 5), .constant (letter 98)],
    [.constant (.int 2), .constant (.int 7), .constant (letter 97)],
    [.constant (.int 1), .constant (.int 9), .constant (letter 97)]] [.int, .int, .string]

def salesRows : List Tuple := [.fromValues [.int 1, .int 5, letter 98], .fromValues [.int 2, .int 7, letter 97],
  .fromValues [.int 1, .int 9, letter 97]]

def salesStart : ValuesExecutor := ⟨0, [none, none, none]⟩

theorem sales_yields : sales.Yields salesStart salesRows := .more rfl rfl (.more rfl rfl (.more rfl rfl (.done rfl)))

theorem sales_end : sales.Ends salesStart ⟨3, [some (.int 1), some (.int 9), some (letter 97)]⟩ :=
  .more rfl (.more rfl (.more rfl (.done rfl)))

theorem sales_aggregable : ∀ tuple ∈ salesRows,
    Aggregable [salesColumn 0 .int] [⟨.sum, salesColumn 1 .int⟩] tuple.values := by
  simp only [salesRows, forall_mem_cons, not_mem_nil, false_imp_iff, implies_true, and_true]
  refine ⟨⟨⟨rfl, ?_⟩, ?_, ?_, ?_⟩, ⟨⟨rfl, ?_⟩, ?_, ?_, ?_⟩, ⟨⟨rfl, ?_⟩, ?_, ?_, ?_⟩⟩ <;> decide

theorem sales_typed : ∀ tuple ∈ salesRows, KeyTyped [salesColumn 0 .int] tuple.values := by
  unfold KeyTyped
  decide

theorem sales_summed : ∃ later results,
    (aggregateExecutor 4 sales [salesColumn 0 .int] [⟨.sum, salesColumn 1 .int⟩]).init ⟨salesStart, [], -1, none⟩ =
        some (none, later) ∧
      (aggregateExecutor 4 sales [salesColumn 0 .int] [⟨.sum, salesColumn 1 .int⟩]).Runs later (results.map fromValues) ∧
      Aggregated [salesColumn 0 .int] [⟨.sum, salesColumn 1 .int⟩] (salesRows.map values) results :=
  (aggregate_executor_iff sales ⟨salesStart, [], -1, none⟩ [salesColumn 0 .int] [⟨.sum, salesColumn 1 .int⟩] salesRows rfl
    sales_yields sales_end rfl sales_aggregable (by decide)).mpr ⟨by decide, sales_typed⟩

theorem no_text_fits : ([] : List Byte).length ≤ stringLength := Nat.zero_le _

theorem wide_key : newRawTupleDesc
    (groupTypes (replicate 128 (.constant (.string ⟨[], no_text_fits⟩)))) = none := by
  apply dif_neg
  rw [groupTypes, map_replicate, bytesOf, map_replicate, sum_replicate]
  decide

/-- A key of 128 texts is wider than a row may be, with or without a row in the input. -/
theorem wide_key_panics :
    (aggregateExecutor 1 (valuesExecutor [] []) (replicate 128 (.constant (.string ⟨[], no_text_fits⟩))) []).init
      ⟨⟨0, []⟩, [], -1, none⟩ = none := by
  rw [init_aggregateExecutor rfl (.done rfl) (.done rfl) rfl Nat.one_pos, wide_key]
  rfl

end Samples
end GoDB.Execution
