import GoDB.Execution.Executors
import GoDB.Lib.Grouping
import GoDB.Proofs.AggregateStates
import GoDB.Proofs.TupleBytes

/-! The loop of the aggregate executor against the groups of its input: a row for
each key, in the order in which the keys are met, with every clause folded over the
rows of the key. Keys are told apart by their bytes, which is right for values that
can be stored. -/

namespace GoDB.Execution
open Common Lib Storage Planner List Grouping PhysicalExpr Value

section Rows
variable (groupBy : List PhysicalExpr) (aggs : List (AggregateClause BoundValueExpr))

def groupTypes : List FieldType := groupBy.map (Expr.outputType BoundValueExpr.outputType)

def keyOf (row : Row) : List Value := (groupBy.mapM fun e => eval e row).getD []

def keyBytes : Row → RawTuple := flatMap writeTo ∘ keyOf groupBy

def argumentOf (clause : AggregateClause BoundValueExpr) (row : Row) : Value :=
  (eval clause.expr row).getD (.null .int)

structure Evaluated (row : Row) : Prop where
  key : groupBy.mapM (·.eval row) = some (keyOf groupBy row)
  arguments : ∀ clause ∈ aggs, eval clause.expr row = some (argumentOf clause row)

def KeyTyped (row : Row) : Prop := (keyOf groupBy row).map type = groupTypes groupBy

def rowsOf (rows : List Row) (bytes : RawTuple) : List Row := members (keyBytes groupBy) rows bytes

def groupOf (rows : List Row) (bytes : RawTuple) : Option AggregateGroup := do
  let states ← aggs.mapM fun clause =>
    foldAggregate clause.type ((rowsOf groupBy rows bytes).map (argumentOf clause))
  return ⟨bytes, ((rowsOf groupBy rows bytes).head?.map (keyOf groupBy)).getD [], states⟩

end Rows

section Keys
variable {groupDesc : RawTupleDesc}

theorem groupKey_eq (vals : List Value) : groupKey groupDesc vals =
    if vals.map type = groupDesc.fields then some (vals.flatMap writeTo) else none :=
  Tuple.fromValues_writeToBuffer vals length_replicate

theorem writeAll_injective {first second : List Value} (types : first.map type = second.map type)
    (stored : ∀ v ∈ first, v.representable) (stored' : ∀ v ∈ second, v.representable)
    (same : first.flatMap writeTo = second.flatMap writeTo) : first = second := by
  have read := readFields_writeAll first
  rw [same, types, readFields_writeAll] at read
  have kept {vals : List Value} (stored : ∀ v ∈ vals, v.representable) : vals.map Value.stored = vals := by
    rw [map_congr_left fun v member => v.stored_eq_self_iff.mpr (stored v member), map_id']
  rw [kept stored, kept stored'] at read
  exact read.symm

end Keys

section Groups
variable {groupBy : List PhysicalExpr} {aggs : List (AggregateClause BoundValueExpr)} {rows : List Row}
  {row : Row} {bytes : RawTuple}

theorem key_of_groupOf {group : AggregateGroup} (made : groupOf groupBy aggs rows bytes = some group) :
    group.key = bytes := by
  obtain ⟨states, -, same⟩ := bind_eq_some.mp made
  cases same
  rfl

theorem groupOf_concat_of_ne (other : keyBytes groupBy row ≠ bytes) :
    groupOf groupBy aggs (rows ++ [row]) bytes = groupOf groupBy aggs rows bytes := by
  rw [groupOf, rowsOf, members_concat_of_ne _ other]
  rfl

section
variable (evaluated : Evaluated groupBy aggs row)

include evaluated

theorem mapM_foldAggregate_concat (args : AggregateClause BoundValueExpr → List Value) :
    (aggs.mapM fun clause => foldAggregate clause.type (args clause ++ [argumentOf clause row])) =
      (aggs.mapM fun clause => foldAggregate clause.type (args clause)).bind fun states =>
        (aggs.zip states).mapM fun entry =>
          (eval entry.1.expr row).bind (stepAggregate entry.1.type entry.2) := by
  have step (clause) (member : clause ∈ aggs) : foldAggregate clause.type (args clause ++ [argumentOf clause row]) =
        (foldAggregate clause.type (args clause)).bind fun state =>
          (eval clause.expr row).bind (stepAggregate clause.type state) := by
    rw [foldAggregate_concat, evaluated.arguments clause member]
    rfl
  rw [mapM_congr step]
  exact mapM_bind_zip (fun clause => foldAggregate clause.type (args clause))
    (fun clause state => (eval clause.expr row).bind (stepAggregate clause.type state)) aggs

theorem groupOf_concat_self (present : keyBytes groupBy row ∈ keys (keyBytes groupBy) rows) :
    groupOf groupBy aggs (rows ++ [row]) (keyBytes groupBy row) =
      (groupOf groupBy aggs rows (keyBytes groupBy row)).bind (AggregateGroup.update aggs row) := by
  have together : rowsOf groupBy (rows ++ [row]) (keyBytes groupBy row) =
      rowsOf groupBy rows (keyBytes groupBy row) ++ [row] := members_concat_self _ rows row
  obtain ⟨other, inside, same⟩ := (mem_keys _).mp present
  have member : other ∈ rowsOf groupBy rows (keyBytes groupBy row) :=
    (mem_members _).mpr ⟨inside, same⟩
  have first : (rowsOf groupBy rows (keyBytes groupBy row) ++ [row]).head? =
      (rowsOf groupBy rows (keyBytes groupBy row)).head? :=
    head?_append_of_ne_nil _ (ne_nil_of_mem member)
  simp only [groupOf, together, first, map_append, map_singleton, mapM_foldAggregate_concat evaluated,
    Option.bind_eq_bind, Option.bind_assoc]
  rfl

theorem groupOf_concat_new (absent : keyBytes groupBy row ∉ keys (keyBytes groupBy) rows) :
    groupOf groupBy aggs (rows ++ [row]) (keyBytes groupBy row) = AggregateGroup.update aggs row
        ⟨keyBytes groupBy row, keyOf groupBy row, aggs.map fun _ => none⟩ := by
  have alone : rowsOf groupBy (rows ++ [row]) (keyBytes groupBy row) = [] ++ [row] := by
    rw [rowsOf, members_concat_self, members_eq_nil _ absent]
  have unseen : (aggs.mapM fun clause => foldAggregate clause.type []) = some (aggs.map fun _ => none) :=
    mapM_pure
  simp only [groupOf, alone, map_append, map_singleton, map_nil,
    mapM_foldAggregate_concat evaluated (fun _ => []), unseen, Option.bind_some]
  rfl

theorem putRow_groupOf {keys : List RawTuple}
    (distinct : keys.Nodup) (met : keys ⊆ Grouping.keys (keyBytes groupBy) rows)
    (absent : keyBytes groupBy row ∉ keys →
      keyBytes groupBy row ∉ Grouping.keys (keyBytes groupBy) rows) :
    ((keys.mapM (groupOf groupBy aggs rows)).bind
        (putRow aggs row (keyBytes groupBy row) (keyOf groupBy row))) =
      (if keyBytes groupBy row ∈ keys then keys else keys ++ [keyBytes groupBy row]).mapM
        (groupOf groupBy aggs (rows ++ [row])) := by
  induction keys with
  | nil =>
    rw [if_neg not_mem_nil, nil_append, mapM_cons, groupOf_concat_new evaluated (absent not_mem_nil)]
    rfl
  | cons bytes keys ih =>
    obtain ⟨here, others⟩ := cons_subset.mp met
    obtain ⟨new, distinct⟩ := nodup_cons.mp distinct
    by_cases same : keyBytes groupBy row = bytes
    · subst same
      have unchanged : keys.mapM (groupOf groupBy aggs (rows ++ [row])) =
          keys.mapM (groupOf groupBy aggs rows) :=
        mapM_congr fun other member => groupOf_concat_of_ne fun same => new (same ▸ member)
      rw [if_pos mem_cons_self, mapM_cons, mapM_cons, groupOf_concat_self evaluated here, unchanged]
      cases made : groupOf groupBy aggs rows (keyBytes groupBy row) with
      | none => rfl
      | some group =>
        have key := key_of_groupOf made
        cases keys.mapM (groupOf groupBy aggs rows) with
        | none => cases updated : group.update aggs row <;> simp [updated]
        | some groups => simp [putRow, key]
    · have apart : keyBytes groupBy row ∈ bytes :: keys ↔ keyBytes groupBy row ∈ keys := by
        rw [mem_cons, or_iff_right same]
      have rest := ih distinct others fun missing => absent (apart.not.mpr missing)
      have split : (if keyBytes groupBy row ∈ bytes :: keys then bytes :: keys
          else bytes :: keys ++ [keyBytes groupBy row]) =
            bytes :: if keyBytes groupBy row ∈ keys then keys else keys ++ [keyBytes groupBy row] := by
        by_cases member : keyBytes groupBy row ∈ keys
        · rw [if_pos (apart.mpr member), if_pos member]
        · rw [if_neg (apart.not.mpr member), if_neg member]
          rfl
      rw [split, mapM_cons, mapM_cons, groupOf_concat_of_ne same, ← rest]
      cases made : groupOf groupBy aggs rows bytes with
      | none => rfl
      | some group =>
        have key : group.key ≠ keyBytes groupBy row := key_of_groupOf made ▸ Ne.symm same
        cases keys.mapM (groupOf groupBy aggs rows) with
        | none => rfl
        | some groups => simp [putRow, key]

end

end Groups

section Loop
variable {groupBy : List PhysicalExpr} {aggs : List (AggregateClause BoundValueExpr)} {rows : List Row}
  {row : Row} {groupDesc : RawTupleDesc}

theorem aggregateRow_eq (evaluated : Evaluated groupBy aggs row) (groups : List AggregateGroup) :
    aggregateRow groupBy aggs groupDesc groups row =
      (groupKey groupDesc (keyOf groupBy row)).bind fun key =>
        putRow aggs row key (keyOf groupBy row) groups := by
  rw [aggregateRow, evaluated.key]
  rfl

theorem foldlM_aggregateRow (described : groupDesc.fields = groupTypes groupBy)
    (evaluated : ∀ row ∈ rows, Evaluated groupBy aggs row)
    (typed : ∀ row ∈ rows, KeyTyped groupBy row) :
    rows.foldlM (aggregateRow groupBy aggs groupDesc) [] =
      (keys (keyBytes groupBy) rows).mapM (groupOf groupBy aggs rows) := by
  induction rows using reverseRecOn with
  | nil => rfl
  | append_singleton rows row ih =>
    have last : row ∈ rows ++ [row] := mem_append_right _ (mem_singleton_self row)
    have bytes : groupKey groupDesc (keyOf groupBy row) = some (keyBytes groupBy row) := by
      rw [groupKey_eq, if_pos ((typed row last).trans described.symm)]
      rfl
    have step (groups : List AggregateGroup) : foldlM (aggregateRow groupBy aggs groupDesc) groups [row] =
        putRow aggs row (keyBytes groupBy row) (keyOf groupBy row) groups := by
      rw [foldlM_cons, aggregateRow_eq (evaluated row last), bytes, Option.bind_some]
      cases putRow aggs row (keyBytes groupBy row) (keyOf groupBy row) groups <;> rfl
    rw [List.foldlM_append, ih (fun other member => evaluated other (List.mem_append_left _ member))
      (fun other member => typed other (mem_append_left _ member)), Option.bind_eq_bind, funext step,
      putRow_groupOf (evaluated row last) (Grouping.nodup_keys _ rows) (List.Subset.refl _) id]
    by_cases present : keyBytes groupBy row ∈ keys (keyBytes groupBy) rows
    · rw [keys_concat_of_mem _ present, if_pos present]
    · rw [keys_concat_of_not_mem _ present, if_neg present]

theorem keyTyped_of_groups (described : groupDesc.fields = groupTypes groupBy)
    (evaluated : ∀ row ∈ rows, Evaluated groupBy aggs row) {start groups : List AggregateGroup}
    (made : rows.foldlM (aggregateRow groupBy aggs groupDesc) start = some groups) :
    ∀ row ∈ rows, KeyTyped groupBy row := by
  induction rows generalizing start with
  | nil => exact fun row member => absurd member not_mem_nil
  | cons row rows ih =>
    obtain ⟨here, others⟩ := forall_mem_cons.mp evaluated
    rw [foldlM_cons, Option.bind_eq_bind, aggregateRow_eq here] at made
    obtain ⟨middle, put, made⟩ := bind_eq_some.mp made
    obtain ⟨key, bytes, -⟩ := bind_eq_some.mp put
    rw [groupKey_eq] at bytes
    refine forall_mem_cons.mpr ⟨?_, ih others made⟩
    by_contra untyped
    rw [if_neg fun same => untyped (same.trans described)] at bytes
    cases bytes

end Loop
end GoDB.Execution
