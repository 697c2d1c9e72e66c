import GoDB.Execution.LogicalRows
import GoDB.Planner.Optimizer

/-! Logical plans that mean the same. The rows of a plan have the width of its schema, and a node
means the same over children that do. -/

namespace GoDB.Execution
open Common Lib Storage Planner List

section Widths
variable {groupByClause : List PhysicalExpr} {aggClauses : List (AggregateClause BoundValueExpr)}

structure AggregateGroup.Sized (groupByClause : List PhysicalExpr)
    (aggClauses : List (AggregateClause BoundValueExpr)) (group : AggregateGroup) : Prop where
  values : group.groupValues.length = groupByClause.length
  states : group.states.length = aggClauses.length

theorem AggregateGroup.Sized.update {group later : AggregateGroup} {row : Row}
    (sized : group.Sized groupByClause aggClauses) (updated : group.update aggClauses row = some later) :
    later.Sized groupByClause aggClauses := by
  obtain ⟨states, made, same⟩ := bind_eq_some.mp updated
  cases same
  refine ⟨sized.values, ?_⟩
  rw [length_mapM made, length_zip, sized.states, Nat.min_self]

theorem sized_putRow {row : Row} {key : RawTuple} {keyValues : List Value} {groups later : List AggregateGroup}
    (sized : ∀ group ∈ groups, group.Sized groupByClause aggClauses) (length : keyValues.length = groupByClause.length)
    (put : putRow aggClauses row key keyValues groups = some later) :
    ∀ group ∈ later, group.Sized groupByClause aggClauses := by
  induction groups generalizing later with
  | nil =>
    obtain ⟨group, updated, same⟩ := bind_eq_some.mp put
    cases same
    have fresh : AggregateGroup.Sized groupByClause aggClauses ⟨key, keyValues, aggClauses.map fun _ => none⟩ :=
      ⟨length, length_map ..⟩
    exact forall_mem_singleton.mpr (fresh.update updated)
  | cons group rest ih =>
    obtain ⟨here, others⟩ := forall_mem_cons.mp sized
    rw [putRow] at put
    split at put
    next =>
      obtain ⟨changed, updated, same⟩ := bind_eq_some.mp put
      cases same
      exact forall_mem_cons.mpr ⟨here.update updated, others⟩
    next =>
      obtain ⟨changed, updated, same⟩ := bind_eq_some.mp put
      cases same
      exact forall_mem_cons.mpr ⟨here, ih others updated⟩

variable {rows results : List Row}

theorem length_of_mem_aggregateRows (made : aggregateRows groupByClause aggClauses rows = some results) :
    ∀ row ∈ results, row.length = groupByClause.length + aggClauses.length := by
  obtain ⟨groupDesc, -, made⟩ := bind_eq_some.mp made
  obtain ⟨groups, folded, same⟩ := bind_eq_some.mp made
  cases same
  have sized := foldlM_rule (fun groups => ∀ group ∈ groups, AggregateGroup.Sized groupByClause aggClauses group)
    (fun groups row later sized taken => by
      obtain ⟨keyValues, evaluated, taken⟩ := bind_eq_some.mp taken
      obtain ⟨key, -, put⟩ := bind_eq_some.mp taken
      exact sized_putRow sized (length_mapM evaluated) put)
    (forall_mem_nil _) folded
  refine forall_mem_map.mpr fun group member => ?_
  obtain ⟨values, states⟩ := sized group member
  rw [AggregateGroup.output, length_append, length_map, length_zip, values, states, Nat.min_self]

theorem length_of_mem_valuesRows {currentValues : List (Option Value)} {values : List (List PhysicalExpr)}
    {rows : List Row} (made : valuesRows currentValues values = some rows) :
    ∀ row ∈ rows, row.length = currentValues.length := by
  induction values generalizing currentValues rows with
  | nil =>
    cases made
    exact forall_mem_nil _
  | cons exprs rest ih =>
    obtain ⟨later, put, made⟩ := bind_eq_some.mp made
    obtain ⟨row, current, made⟩ := bind_eq_some.mp made
    obtain ⟨others, more, same⟩ := bind_eq_some.mp made
    cases same
    obtain ⟨vals, -, written⟩ := bind_eq_some.mp put
    have kept : later.length = currentValues.length := by
      split at written
      next short =>
        cases written
        simp only [length_append, length_map, length_drop]
        omega
      next => cases written
    refine forall_mem_cons.mpr ⟨(length_mapM current).trans kept, fun other member => ?_⟩
    rw [ih more other member, kept]

variable {schema : LogicalSchema}

theorem length_getD_nullRow {rows : List Row} (width : ∀ row ∈ rows, row.length = schema.length)
    {padded : Option Row} (member : ∀ row ∈ padded, row ∈ rows) : (padded.getD (nullRow schema)).length = schema.length := by
  cases padded with
  | none => exact length_map ..
  | some row => exact width row (member row rfl)

variable [Identifiers]

theorem length_of_mem_aggregateLogicalRows {groupBy : List LogicalExpr}
    {aggregates : List (AggregateClause LogicalColumn)}
    (made : aggregateLogicalRows schema groupBy aggregates rows = some results) :
    ∀ row ∈ results, row.length = (aggregationSchema groupBy aggregates).length := by
  obtain ⟨bound, bindsGroups, made⟩ := bind_eq_some.mp made
  obtain ⟨clauses, bindsClauses, made⟩ := bind_eq_some.mp made
  intro row member
  rw [length_of_mem_aggregateRows made row member, length_mapM bindsGroups, length_mapM bindsClauses, aggregationSchema,
    length_append, length_map, length_map]

theorem mem_of_mem_sortLogicalRows {orderBy : List (OrderByClause LogicalColumn)}
    {rows sorted : List Row} (made : sortLogicalRows schema orderBy rows = some sorted) : ∀ row ∈ sorted, row ∈ rows := by
  obtain ⟨bound, -, made⟩ := bind_eq_some.mp made
  rw [sortRows] at made
  split at made
  next =>
    cases made
    exact fun _ member => member
  next =>
    obtain ⟨keyed, keys, same⟩ := bind_eq_some.mp made
    cases same
    intro row member
    obtain ⟨entry, sorted, rfl⟩ := mem_map.mp member
    obtain ⟨source, inside, made⟩ := (mem_of_mapM keys).2 entry (mem_mergeSort.mp sorted)
    obtain ⟨key, -, same⟩ := bind_eq_some.mp made
    cases same
    exact inside

theorem length_of_mem_projectRows {expressions : List LogicalExpr}
    (made : projectRows schema expressions rows = some results) : ∀ row ∈ results, row.length = expressions.length := by
  intro row member
  obtain ⟨source, -, evaluated⟩ := (mem_of_mapM made).2 row member
  exact length_mapM evaluated

theorem length_of_mem_joinRows {joinType : JoinType} {leftSchema rightSchema : LogicalSchema}
    {joinOn : List LogicalExpr} {left right : List Row} (leftWidth : ∀ row ∈ left, row.length = leftSchema.length)
    (rightWidth : ∀ row ∈ right, row.length = rightSchema.length) :
    ∀ row ∈ joinRows joinType leftSchema rightSchema joinOn left right,
      row.length = (leftSchema ++ rightSchema).length := by
  intro row member
  cases joinType with
  | inner | cross =>
    obtain ⟨pair, inside, rfl⟩ := mem_map.mp member
    obtain ⟨inLeft, inRight⟩ := mem_of_mem_innerJoin inside
    rw [joined, length_append, length_append, leftWidth _ inLeft, rightWidth _ inRight]
  | left =>
    obtain ⟨pair, inside, rfl⟩ := mem_map.mp member
    obtain ⟨inLeft, inRight⟩ := mem_of_mem_leftJoin inside
    rw [length_append, length_append, leftWidth _ inLeft, length_getD_nullRow rightWidth inRight]
  | right =>
    obtain ⟨pair, inside, rfl⟩ := mem_map.mp member
    obtain ⟨inLeft, inRight⟩ := mem_of_mem_rightJoin inside
    rw [length_append, length_append, rightWidth _ inRight, length_getD_nullRow leftWidth inLeft]
  | fullOuter =>
    obtain ⟨pair, inside, rfl⟩ := mem_map.mp member
    obtain ⟨inLeft, inRight⟩ := mem_of_mem_fullJoin inside
    rw [length_append, length_append, length_getD_nullRow leftWidth inLeft, length_getD_nullRow rightWidth inRight]

end Widths

variable [Identifiers]

/-- The tables have the columns that the scans list, and what renames columns lists all of them. -/
def Fits (db : Database) : LogicalPlanNode → Prop
  | .scan _ tableOid rawOutputSchema projection _ _ =>
    (∀ table, db.tables tableOid = some table → table.desc.fields.length = rawOutputSchema.length) ∧
      ∀ attached ∈ projection, attached.expressions.length = attached.outputSchema.length
  | .projection child node _ => node.expressions.length = node.outputSchema.length ∧ Fits db child
  | .subquery _ child outputSchema _ => outputSchema.length = child.outputSchema.length ∧ Fits db child
  | .join left right _ _ _ => Fits db left ∧ Fits db right
  | .filter child _ _ | .aggregation child _ _ _ | .sort child _ _ | .limit child _ _ _ | .insert _ child _
  | .delete _ child _ | .update _ child _ _ => Fits db child
  | .values _ _ _ => True

theorem length_of_mem_logicalRows {db : Database} {node : LogicalPlanNode} (fits : Fits db node) {rows : List Row}
    (returned : logicalRows db node = some rows) : ∀ row ∈ rows, row.length = node.outputSchema.length := by
  induction node generalizing rows with
  | scan tableRef tableOid schema projection predicates required =>
    obtain ⟨table, found, returned⟩ := bind_eq_some.mp returned
    have stored : ∀ row ∈ (table.rows.map table.rowOf).filter (Passing schema predicates), row.length = schema.length := by
      intro row member
      obtain ⟨entry, -, rfl⟩ := mem_map.mp (mem_filter.mp member).1
      exact (length_readFields ..).trans (fits.1 table found)
    cases projection with
    | none =>
      cases returned
      exact stored
    | some attached =>
      intro row member
      rw [length_of_mem_projectRows returned row member]
      exact fits.2 attached rfl
  | filter child predicate required ih =>
    obtain ⟨whole, below, same⟩ := bind_eq_some.mp returned
    cases same
    exact fun row member => ih fits below row (mem_filter.mp member).1
  | projection child node required ih =>
    obtain ⟨whole, below, made⟩ := bind_eq_some.mp returned
    intro row member
    rw [length_of_mem_projectRows made row member]
    exact fits.1
  | join left right joinOn joinType required ihLeft ihRight =>
    obtain ⟨leftRows, fromLeft, returned⟩ := bind_eq_some.mp returned
    obtain ⟨rightRows, fromRight, same⟩ := bind_eq_some.mp returned
    cases same
    exact length_of_mem_joinRows (ihLeft fits.1 fromLeft) (ihRight fits.2 fromRight)
  | aggregation child groupBy aggregates required ih =>
    obtain ⟨whole, below, made⟩ := bind_eq_some.mp returned
    exact length_of_mem_aggregateLogicalRows made
  | sort child orderBy required ih =>
    obtain ⟨whole, below, made⟩ := bind_eq_some.mp returned
    exact fun row member => ih fits below row (mem_of_mem_sortLogicalRows made row member)
  | limit child limit offset required ih =>
    obtain ⟨whole, below, same⟩ := bind_eq_some.mp returned
    cases same
    exact fun row member => ih fits below row (mem_of_mem_drop (mem_of_mem_take member))
  | subquery tableRef child schema required ih =>
    intro row member
    rw [ih fits.2 returned row member]
    exact fits.1.symm
  | values values schema required =>
    obtain ⟨bound, -, made⟩ := bind_eq_some.mp returned
    intro row member
    rw [length_of_mem_valuesRows made row member]
    exact length_map ..
  | insert | delete | update =>
    obtain ⟨whole, below, same⟩ := bind_eq_some.mp returned
    cases same
    exact forall_mem_singleton.mpr rfl

section Equations
variable {db : Database} {child left right : LogicalPlanNode} {required : LogicalSchema}

theorem logicalRows_scan (tableRef : TableRef) (tableOid : ObjectID) (schema : LogicalSchema)
    (predicates : List LogicalExpr) : logicalRows db (.scan tableRef tableOid schema none predicates required) =
      (db.tables tableOid).bind fun table =>
        some ((table.rows.map table.rowOf).filter (Passing schema predicates)) := rfl

theorem logicalRows_filter (predicate : LogicalExpr) : logicalRows db (.filter child predicate required) =
    (logicalRows db child).bind fun rows => some (rows.filter (Passing child.outputSchema [predicate])) := rfl

theorem logicalRows_join (joinOn : List LogicalExpr) (joinType : JoinType) :
    logicalRows db (.join left right joinOn joinType required) = (logicalRows db left).bind fun leftRows =>
      (logicalRows db right).bind fun rightRows =>
        some (joinRows joinType left.outputSchema right.outputSchema joinOn leftRows rightRows) := rfl

end Equations

def queried (rows : Option (List Row)) : Option Effect := do return ⟨← rows, none⟩

structure Preserves (node later : LogicalPlanNode) : Prop where
  schema : later.outputSchema = node.outputSchema
  fits : ∀ db, Fits db node → Fits db later
  rows : ∀ db, Fits db node → logicalRows db later = logicalRows db node
  effect : ∀ db, Fits db node → effect db later = effect db node

namespace Preserves

theorem refl (node : LogicalPlanNode) : Preserves node node := ⟨rfl, fun _ => id, fun _ _ => rfl, fun _ _ => rfl⟩

theorem trans {node later last : LogicalPlanNode} (first : Preserves node later) (second : Preserves later last) :
    Preserves node last where
  schema := second.schema.trans first.schema
  fits db fits := second.fits db (first.fits db fits)
  rows db fits := (second.rows db (first.fits db fits)).trans (first.rows db fits)
  effect db fits := (second.effect db (first.fits db fits)).trans (first.effect db fits)

theorem of_queries {node later : LogicalPlanNode} (query : ∀ db, Execution.effect db node = queried (logicalRows db node))
    (laterQuery : ∀ db, Execution.effect db later = queried (logicalRows db later))
    (schema : later.outputSchema = node.outputSchema) (fits : ∀ db, Fits db node → Fits db later)
    (rows : ∀ db, Fits db node → logicalRows db later = logicalRows db node) : Preserves node later := by
  refine ⟨schema, fits, rows, fun db fitting => ?_⟩
  rw [query, laterQuery, rows db fitting]

variable {child later : LogicalPlanNode} {laterChildren : List LogicalPlanNode}

theorem exists_of_singleton (alike : List.Forall₂ Preserves [child] laterChildren) :
    ∃ later, laterChildren = [later] ∧ Preserves child later := by
  obtain ⟨later, rest, same, others, rfl⟩ := forall₂_cons_left_iff.mp alike
  cases others
  exact ⟨later, rfl, same⟩

open LogicalPlanNode in
theorem put_children {node : LogicalPlanNode} (alike : List.Forall₂ Preserves node.children laterChildren) :
    Preserves node (node.keepChildren laterChildren) ∧
      (laterChildren ≠ [] → ∃ rebuilt, node.setChildren laterChildren = some rebuilt ∧ Preserves node rebuilt) := by
  cases node with
  | scan | values =>
    cases alike
    exact ⟨refl _, fun nonempty => absurd rfl nonempty⟩
  | join left right joinOn joinType required =>
    obtain ⟨laterLeft, rest, sameLeft, others, rfl⟩ := forall₂_cons_left_iff.mp alike
    obtain ⟨laterRight, rfl, sameRight⟩ := exists_of_singleton others
    have same (later : LogicalSchema) : Preserves (.join left right joinOn joinType required)
        (.join laterLeft laterRight joinOn joinType later) := by
      refine of_queries (fun _ => rfl) (fun _ => rfl) (congrArg₂ (· ++ ·) sameLeft.schema sameRight.schema)
        (fun db => And.imp (sameLeft.fits db) (sameRight.fits db)) fun db fits => ?_
      rw [logicalRows_join, logicalRows_join, sameLeft.rows db fits.1, sameLeft.schema, sameRight.rows db fits.2,
        sameRight.schema]
    exact ⟨same _, fun _ => ⟨_, rfl, same _⟩⟩
  | _ =>
    -- What such a node means is said in terms of the schema and the rows of its child.
    obtain ⟨later, rfl, schema, fitting, rows, -⟩ := exists_of_singleton alike
    refine ⟨⟨?_, fun db fits => ?_, fun db fits => ?_, fun db fits => ?_⟩,
      fun _ => ⟨_, rfl, ?_, fun db fits => ?_, fun db fits => ?_, fun db fits => ?_⟩⟩
    all_goals simp_all [keepChildren, outputSchema, newLogicalFilterNode, newLogicalProjectionNode,
      newLogicalAggregationNode, newLogicalSortNode, newLogicalLimitNode, newLogicalSubqueryNode, newLogicalInsertNode,
      newLogicalDeleteNode, newLogicalUpdateNode, Fits, logicalRows, Execution.effect]

end Preserves
end GoDB.Execution
