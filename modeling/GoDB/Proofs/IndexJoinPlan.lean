import GoDB.Proofs.EquiJoinPlans
import GoDB.Proofs.IndexPlans

/-! The index nested loop join against the block nested loop join. The index is
probed in the whole table, whatever the scan on the right side lets through. -/

namespace GoDB.Planner
open PhysicalExpr

theorem eval_shiftExpr (e : PhysicalExpr) (l r : Row) : (shiftExpr l.length e).eval (l ++ r) = e.eval r := by
  induction e with
  | column col => simp [shiftExpr, eval, Expr.evalWith, List.getElem?_append_right]
  | constant val => rfl
  | comparison address left right op ihLeft ihRight | logic address left right op ihLeft ihRight
  | arithmetic left right op ihLeft ihRight | concat left right ihLeft ihRight | like address left right ihLeft ihRight =>
    simp only [eval] at ihLeft ihRight
    simp only [shiftExpr, eval, Expr.evalWith, ihLeft, ihRight]
  | negation address child ih | nullCheck address child op ih =>
    simp only [eval] at ih
    simp only [shiftExpr, eval, Expr.evalWith, ih]

end GoDB.Planner

namespace GoDB.Execution
open Common Lib Storage Indexing Planner List Option IndexNestedLoopJoinRule Value Prod

def candidates (leftRows : List Row) (table : StoredTable) : List (Row × RecordID × RawTuple) :=
  leftRows.flatMap fun l => table.rows.map (mk l)

theorem mem_candidates {leftRows : List Row} {table : StoredTable} {pair : Row × RecordID × RawTuple} :
    pair ∈ candidates leftRows table ↔ pair.1 ∈ leftRows ∧ pair.2 ∈ table.rows := by
  simp only [candidates, List.mem_flatMap, List.mem_map]
  constructor
  · rintro ⟨l, inLeft, stored, inRight, rfl⟩
    exact ⟨inLeft, inRight⟩
  · intro ⟨inLeft, inRight⟩
    exact ⟨pair.1, inLeft, pair.2, inRight, rfl⟩

section
variable [Identifiers] {db : Database} {c : Catalog} {join : LogicalJoinNode} {scan : LogicalScanNode}
  {catalogTable : Catalog.Table}
  {table : StoredTable} {idx : Catalog.Index} {index : Index} {leftPlan rightPlan plan : PlanNode} {leftRows rows : List Row}

/-- A left row looks up the record: no probe is NULL, and the record is listed under
the key of the probes. -/
def Probed (schema : LogicalSchema) (probes : List LogicalExpr) (metadata : IndexMetadata) (table : StoredTable)
    (pair : Row × RecordID × RawTuple) : Prop :=
  ∃ vals ∈ probes.mapM (·.evalWith (schema.reader pair.1)), (∀ val ∈ vals, val.isNull = false) ∧
    (rowEntry metadata table pair.2).1 = vals.flatMap writeTo

instance (schema : LogicalSchema) (probes : List LogicalExpr) (metadata : IndexMetadata) (table : StoredTable) :
    DecidablePred (Probed schema probes metadata table) :=
  fun _ => inferInstanceAs (Decidable (∃ vals ∈ _, _))

def ProbeTyped (schema : LogicalSchema) (probes : List LogicalExpr) (metadata : IndexMetadata) (l : Row) : Prop :=
  ∃ vals ∈ probes.mapM (·.evalWith (schema.reader l)), vals.map type = metadata.keySchema.fields

instance (schema : LogicalSchema) (probes : List LogicalExpr) (metadata : IndexMetadata) :
    DecidablePred (ProbeTyped schema probes metadata) :=
  fun _ => inferInstanceAs (Decidable (∃ vals ∈ _, _))

section
variable {schema : LogicalSchema} {types : List FieldType} {probes : List LogicalExpr} {physProbes : List PhysicalExpr}

theorem typed_of_probe (binds : bindExprs probes schema types = some physProbes) {l : Row} {found : List (Row × Row)}
    (probed : probe index table physProbes l = some found) : ProbeTyped schema probes index.metadata l := by
  obtain ⟨key, made, -⟩ := bind_eq_some.mp probed
  obtain ⟨vals, evaluated, made⟩ := bind_eq_some.mp made
  rw [mapM_bindExprs binds] at evaluated
  split at made
  next typed => exact ⟨vals, evaluated, typed⟩
  next => cases made

theorem exists_probe (agrees : Consistent catalogTable idx table index)
    (binds : bindExprs probes schema types = some physProbes) {l : Row}
    (typed : ProbeTyped schema probes index.metadata l) : ∃ found, probe index table physProbes l = some found ∧
      (found.map joined).Perm (((table.rows.map (mk l)).filter (Probed schema probes index.metadata table)).map
        fun pair => pair.1 ++ table.rowOf pair.2) := by
  obtain ⟨vals, evaluated, typed⟩ := typed
  have reached : ∀ stored, Probed schema probes index.metadata table (l, stored) ↔ (∀ val ∈ vals, val.isNull = false) ∧
      (rowEntry index.metadata table stored).1 = vals.flatMap writeTo := by
    intro stored
    simp [Probed, mem_def.mp evaluated, exists_eq_left']
  rw [List.filter_map, List.map_map]
  by_cases null : ∃ val ∈ vals, val.isNull = true
  · refine ⟨[], ?_, ?_⟩
    · simp [probe, probeKey, mapM_bindExprs binds, mem_def.mp evaluated, typed, null]
    · have none : table.rows.filter ((fun pair => decide (Probed schema probes index.metadata table pair)) ∘ mk l) = [] := by
        apply filter_eq_nil_iff.mpr
        intro stored _ probed
        obtain ⟨val, member, isNull⟩ := null
        have proper := ((reached stored).mp (of_decide_eq_true probed)).1 val member
        rw [isNull] at proper
        cases proper
      rw [none]
      exact List.Perm.refl _
  · have proper : ∀ val ∈ vals, val.isNull = false := by simpa using null
    obtain ⟨read, all, perm⟩ := agrees.read_rows (agrees.scanKey_perm (vals.flatMap writeTo))
    refine ⟨read.map (mk l), ?_, ?_⟩
    · simp [probe, probeKey, mapM_bindExprs binds, mem_def.mp evaluated, typed, null, all]
    · rw [List.map_map]
      have same : table.rows.filter ((fun pair => decide (Probed schema probes index.metadata table pair)) ∘ mk l) =
          table.rows.filter fun stored => (rowEntry index.metadata table stored).1 = vals.flatMap writeTo := by
        apply filter_congr
        intro stored _
        rw [Function.comp_apply, decide_eq_decide, reached, and_iff_right proper]
      rw [same]
      have joins := perm.map (joined ∘ mk l)
      rwa [List.map_map] at joins

theorem probe_all (agrees : Consistent catalogTable idx table index)
    (binds : bindExprs probes schema types = some physProbes)
    (typed : ∀ l ∈ leftRows, ProbeTyped schema probes index.metadata l) :
    ∃ found, leftRows.mapM (probe index table physProbes) = some found ∧ (found.flatten.map joined).Perm
      (((candidates leftRows table).filter (Probed schema probes index.metadata table)).map
        fun pair => pair.1 ++ table.rowOf pair.2) := by
  induction leftRows with
  | nil => exact ⟨[], rfl, .refl _⟩
  | cons l rest ih =>
    obtain ⟨here, later⟩ := forall_mem_cons.mp typed
    obtain ⟨first, probed, permFirst⟩ := exists_probe agrees binds here
    obtain ⟨others, all, permOthers⟩ := ih later
    refine ⟨first :: others, by simp [probed, all], ?_⟩
    simp only [candidates, flatten_cons, map_append, flatMap_cons, filter_append]
    exact permFirst.append permOthers

end

def residuals (join : LogicalJoinNode) (found : JoinIndexMatch) : List LogicalExpr :=
  join.joinOn.filter (· ∉ found.matchedJoinOns)

/-- The conditions that the index takes care of. -/
def dropped (join : LogicalJoinNode) (found : JoinIndexMatch) : List LogicalExpr :=
  join.joinOn.filter (· ∈ found.matchedJoinOns)

/-- The index join comes to the right pairs. Each left row can be probed with and, if
it is projected, keeps its values; what the right side projects and the filter asks
can be evaluated for the pairs that are found; and of the pairs that pass the filter
those are found under the key that the predicates of the scan and the dropped
conditions accept. -/
structure ProbesFit (join : LogicalJoinNode) (scan : LogicalScanNode) (table : StoredTable) (metadata : IndexMetadata)
    (found : JoinIndexMatch) (leftRows : List Row) : Prop where
  typed : ∀ l ∈ leftRows, ProbeTyped join.left.outputSchema found.probeKeys metadata l
  columns : scan.projection.isSome = true →
    ∀ l ∈ leftRows, join.left.outputSchema.mapM (join.left.outputSchema.reader l) = some l
  evaluated : ∀ pair ∈ candidates leftRows table, Probed join.left.outputSchema found.probeKeys metadata table pair →
    ∃ out ∈ projectRow scan (table.rowOf pair.2), Defined join.schema (residuals join found) (pair.1 ++ out)
  right : ∀ pair ∈ candidates leftRows table, ∀ out ∈ projectRow scan (table.rowOf pair.2),
    Passing join.schema (residuals join found) (pair.1 ++ out) →
      (Probed join.left.outputSchema found.probeKeys metadata table pair ↔
        Passing scan.rawOutputSchema scan.predicates (table.rowOf pair.2) ∧
          Passing join.schema (dropped join found) (pair.1 ++ out))

theorem passing_conditions (found : JoinIndexMatch) (row : Row) : Passing join.schema join.joinOn row ↔
    Passing join.schema (residuals join found) row ∧ Passing join.schema (dropped join found) row := by
  simp only [Passing, residuals, dropped, mem_filter, decide_eq_true_iff]
  constructor
  · intro all
    exact ⟨fun cond member => all cond member.1, fun cond member => all cond member.1⟩
  · rintro ⟨kept, gone⟩ cond member
    by_cases matched : cond ∈ found.matchedJoinOns
    · exact gone cond ⟨member, matched⟩
    · exact kept cond ⟨member, matched⟩

def outOf (scan : LogicalScanNode) (table : StoredTable) (stored : RecordID × RawTuple) : Row :=
  (projectRow scan (table.rowOf stored)).getD []

theorem nested_rows (left : planRows db leftPlan = some leftRows) (placed : Placed c db scan catalogTable table)
    (rightBuilt : SeqScanRule.apply scan c = some rightPlan)
    (nested : BlockNestedLoopJoinRule.apply join leftPlan rightPlan = some plan) (produced : planRows db plan = some rows) :
    (∀ stored ∈ table.rows, Passing scan.rawOutputSchema scan.predicates (table.rowOf stored) →
      (projectRow scan (table.rowOf stored)).isSome = true) ∧
    rows = ((candidates leftRows table).filter fun pair =>
      Passing scan.rawOutputSchema scan.predicates (table.rowOf pair.2) ∧
        Passing join.schema join.joinOn (pair.1 ++ outOf scan table pair.2)).map
      fun pair => pair.1 ++ outOf scan table pair.2 := by
  obtain ⟨rightRows, right⟩ : ∃ rightRows, planRows db rightPlan = some rightRows := by
    obtain ⟨bound, -, same⟩ := bind_eq_some.mp nested
    cases same
    obtain ⟨_, -, produced⟩ := bind_eq_some.mp produced
    obtain ⟨rightRows, right, -⟩ := bind_eq_some.mp produced
    exact ⟨rightRows, by rwa [planRows_materialized] at right⟩
  obtain ⟨-, rfl⟩ := (planRows_nestedLoopJoin left right nested).mp produced
  obtain ⟨-, projected⟩ := seqScan_rows placed rightBuilt right
  rw [project_eq_mapM] at projected
  obtain ⟨defined, rfl⟩ := mapM_eq_some_iff.mp projected
  have evaluates : ∀ stored ∈ table.rows, Passing scan.rawOutputSchema scan.predicates (table.rowOf stored) →
      (projectRow scan (table.rowOf stored)).isSome = true := fun stored member passing =>
    defined _ (mem_map_of_mem (mem_filter.mpr ⟨member, decide_eq_true passing⟩))
  refine ⟨evaluates, ?_⟩
  have rightRows : ((table.rows.filter fun stored => Passing scan.rawOutputSchema scan.predicates (table.rowOf stored)).map
      table.rowOf).filterMap (projectRow scan) = (table.rows.filter fun stored =>
        Passing scan.rawOutputSchema scan.predicates (table.rowOf stored)).map (outOf scan table) := by
    rw [filterMap_map, ← filterMap_eq_map]
    apply filterMap_congr
    intro stored member
    obtain ⟨inside, passing⟩ := mem_filter.mp member
    obtain ⟨out, projected⟩ := isSome_iff_exists.mp (evaluates stored inside (of_decide_eq_true passing))
    simp [outOf, projected]
  rw [rightRows]
  simp only [pairs, candidates, List.filter_flatMap, List.map_flatMap, List.filter_map, List.map_map, List.filter_filter]
  refine flatMap_congr fun l _ => ?_
  congr 1
  apply List.filter_congr
  intro stored _
  rw [Bool.eq_iff_iff, Bool.and_eq_true, and_comm]
  simp only [Function.comp_apply, joined, decide_eq_true_iff]
  exact and_congr_right fun _ => decide_eq_true_iff

theorem eval_fullProjections {leftSchema : LogicalSchema} {types others : List FieldType}
    {identities expressions : List PhysicalExpr} {projection : LogicalProjectionNode}
    (binds : getIdentityPhysicalExprs leftSchema types = some identities)
    (binds' : bindExprs projection.expressions scan.rawOutputSchema others = some expressions) {l : Row} (r : Row)
    (width : l.length = leftSchema.length) :
    (identities ++ expressions.map (shiftExpr identities.length)).mapM (·.eval (l ++ r)) = do
      return (← leftSchema.mapM (leftSchema.reader l)) ++
        (← projection.expressions.mapM (·.evalWith (scan.rawOutputSchema.reader r))) := by
  have size : identities.length = l.length := by
    obtain ⟨defined, rfl⟩ := mapM_eq_some_iff.mp binds
    rw [filterMap_length_eq_length.mpr defined, length_map, width]
  have own : identities.mapM (·.eval (l ++ r)) = leftSchema.mapM (leftSchema.reader l) := by
    rw [mapM_bindExprs binds, mapM_map]
    apply mapM_congr
    intro col _
    simp only [Function.comp_apply, Expr.evalWith, LogicalSchema.reader]
    cases found : leftSchema.position col with
    | none => rfl
    | some i =>
      have below := LogicalSchema.position_lt found
      rw [bind_some, bind_some, getElem?_append_left (width ▸ below)]
  have other : (expressions.map (shiftExpr identities.length)).mapM (·.eval (l ++ r)) =
      projection.expressions.mapM (·.evalWith (scan.rawOutputSchema.reader r)) := by
    rw [← mapM_bindExprs binds', mapM_map, size]
    exact mapM_congr fun e _ => eval_shiftExpr e l r
  rw [mapM_append, own, other]

variable {found : JoinIndexMatch} {physProbes : List PhysicalExpr} {node : PlanNode} {expected : List Row}

/-- What stands below the filter of an index join: the join, or a projection of it
when the scan on the right side projects. -/
inductive Below (join : LogicalJoinNode) (scan : LogicalScanNode) (leftPlan joinNode : PlanNode) : PlanNode → Prop where
  | plain : scan.projection = none → Below join scan leftPlan joinNode joinNode
  | projected {projection identities expressions others} : scan.projection = some projection →
      getIdentityPhysicalExprs join.left.outputSchema leftPlan.outputSchema = some identities →
      bindExprs projection.expressions scan.rawOutputSchema others = some expressions →
      Below join scan leftPlan joinNode (.projection joinNode (identities ++ expressions.map (shiftExpr identities.length)))

theorem parts_of_apply (right : join.right = .scan scan) (known : c.getTableByOid scan.tableOid = some catalogTable)
    (rightBuilt : SeqScanRule.apply scan c = some rightPlan) (applied : apply join leftPlan rightPlan c = some plan) :
    ∃ idx found physProbes node, chooseIndex (getEquiJoinKeys join) catalogTable = some (idx, found) ∧
      bindExprs found.probeKeys join.left.outputSchema leftPlan.outputSchema = some physProbes ∧
      Below join scan leftPlan (.indexNestedLoopJoin leftPlan scan.tableOid idx.oid physProbes
        (tableSchemaToTypes catalogTable)) node ∧
      wrapInFilter node (residuals join found) join.schema = some plan := by
  simp only [apply, right, known, bind_eq_bind, bind_some, bind_eq_some_iff] at applied
  obtain ⟨⟨idx, found⟩, chosen, physProbes, binds, applied⟩ := applied
  simp only [SeqScanRule.apply, finishScan, known, bind_eq_bind, bind_some, bind_eq_some_iff] at rightBuilt
  obtain ⟨filtered, -, rightBuilt⟩ := rightBuilt
  have schema : join.schema = join.left.outputSchema ++ (LogicalChild.scan scan).outputSchema := by
    rw [LogicalJoinNode.schema, right]
  cases shape : scan.projection with
  | none =>
    simp only [shape] at applied
    exact ⟨idx, found, physProbes, _, chosen, binds, .plain shape, by rw [schema]; exact applied⟩
  | some projection =>
    simp only [shape, bind_eq_some_iff] at rightBuilt
    obtain ⟨expressions, binds', same⟩ := rightBuilt
    cases same
    simp only [shape, bind_eq_some_iff] at applied
    obtain ⟨identities, binds'', wrapped⟩ := applied
    exact ⟨idx, found, physProbes, _, chosen, binds, .projected shape binds'' binds', by rw [schema]; exact wrapped⟩

theorem planRows_indexJoin (left : planRows db leftPlan = some leftRows) (stored : db.tables scan.tableOid = some table)
    (opened : db.indexes idx.oid = some index) (agrees : Consistent catalogTable idx table index)
    (binds : bindExprs found.probeKeys join.left.outputSchema leftPlan.outputSchema = some physProbes)
    (typed : ∀ l ∈ leftRows, ProbeTyped join.left.outputSchema found.probeKeys index.metadata l) (types : List FieldType) :
    ∃ access, planRows db (.indexNestedLoopJoin leftPlan scan.tableOid idx.oid physProbes types) = some access ∧
      access.Perm (((candidates leftRows table).filter
        (Probed join.left.outputSchema found.probeKeys index.metadata table)).map
          fun pair => pair.1 ++ table.rowOf pair.2) := by
  obtain ⟨found, all, perm⟩ := probe_all agrees binds typed
  refine ⟨found.flatten.map joined, ?_, perm⟩
  simp [planRows, opened, stored, left, all]

theorem typed_of_planRows (left : planRows db leftPlan = some leftRows)
    (stored : db.tables scan.tableOid = some table) (opened : db.indexes idx.oid = some index)
    (binds : bindExprs found.probeKeys join.left.outputSchema leftPlan.outputSchema = some physProbes) {types : List FieldType}
    {access : List Row}
    (produced : planRows db (.indexNestedLoopJoin leftPlan scan.tableOid idx.oid physProbes types) = some access) :
    ∀ l ∈ leftRows, ProbeTyped join.left.outputSchema found.probeKeys index.metadata l := by
  simp only [planRows, opened, stored, left, bind_eq_bind, bind_some, bind_eq_some_iff] at produced
  obtain ⟨probed, all, -⟩ := produced
  intro l member
  obtain ⟨found', here⟩ := isSome_iff_exists.mp ((mapM_eq_some_iff.mp all).1 l member)
  exact typed_of_probe binds here

theorem below_rows (supplies : Supplies db leftPlan join.left.outputSchema leftRows)
    (stored : db.tables scan.tableOid = some table) (opened : db.indexes idx.oid = some index)
    (agrees : Consistent catalogTable idx table index)
    (binds : bindExprs found.probeKeys join.left.outputSchema leftPlan.outputSchema = some physProbes)
    (below : Below join scan leftPlan (.indexNestedLoopJoin leftPlan scan.tableOid idx.oid physProbes
      (tableSchemaToTypes catalogTable)) node) (fits : ProbesFit join scan table index.metadata found leftRows) :
    ∃ mid, planRows db node = some mid ∧ mid.Perm (((candidates leftRows table).filter
      (Probed join.left.outputSchema found.probeKeys index.metadata table)).map
        fun pair => pair.1 ++ outOf scan table pair.2) := by
  obtain ⟨access, rowsOf, perm⟩ := planRows_indexJoin supplies.produced stored opened agrees binds fits.typed
    (tableSchemaToTypes catalogTable)
  cases below with
  | plain none =>
    refine ⟨access, rowsOf, ?_⟩
    simpa [outOf, projectRow, none] using perm
  | @projected projection identities expressions others shape binds'' binds' =>
    have evaluates : ∀ pair ∈ (candidates leftRows table).filter
        (Probed join.left.outputSchema found.probeKeys index.metadata table),
        (identities ++ expressions.map (shiftExpr identities.length)).mapM (·.eval (pair.1 ++ table.rowOf pair.2)) =
          some (pair.1 ++ outOf scan table pair.2) := by
      intro pair member
      obtain ⟨inside, probed⟩ := mem_filter.mp member
      have inLeft := (mem_candidates.mp inside).1
      obtain ⟨out, projected, -⟩ := fits.evaluated pair inside (of_decide_eq_true probed)
      have values : projection.expressions.mapM (·.evalWith (scan.rawOutputSchema.reader (table.rowOf pair.2))) = some out := by
        simpa [projectRow, shape] using projected
      rw [eval_fullProjections binds'' binds' _ (supplies.width pair.1 inLeft),
        fits.columns (by rw [shape]; rfl) pair.1 inLeft, values, outOf, mem_def.mp projected]
      rfl
    obtain ⟨mid, mapped, reordered⟩ := mapM_perm perm.symm
      (mapM_map_eq_some (h := fun pair => pair.1 ++ outOf scan table pair.2)
      (f := fun row => (identities ++ expressions.map (shiftExpr identities.length)).mapM (·.eval row)) evaluates)
    refine ⟨mid, ?_, reordered⟩
    change (planRows db _).bind _ = _
    rw [rowsOf]
    exact mapped

variable {mid : List Row} {metadata : IndexMetadata}

theorem returns_filtered (rowsOf : planRows db node = some mid)
    (wrapped : wrapInFilter node (residuals join found) join.schema = some plan)
    (perm : mid.Perm (((candidates leftRows table).filter
      (Probed join.left.outputSchema found.probeKeys metadata table)).map fun pair => pair.1 ++ outOf scan table pair.2))
    {result : List Row} : planRows db plan = some result ↔
      (∀ pair ∈ candidates leftRows table, Probed join.left.outputSchema found.probeKeys metadata table pair →
        Defined join.schema (residuals join found) (pair.1 ++ outOf scan table pair.2)) ∧
      result = mid.filter (Passing join.schema (residuals join found)) := by
  rw [planRows_wrapInFilter rowsOf wrapped]
  refine and_congr_left fun _ => ?_
  simp only [perm.mem_iff, List.forall_mem_map, List.mem_filter, decide_eq_true_iff, and_imp]

theorem kept_perm {conds : List LogicalExpr} (perm : mid.Perm (((candidates leftRows table).filter
      (Probed join.left.outputSchema found.probeKeys metadata table)).map fun pair => pair.1 ++ outOf scan table pair.2)) :
    (mid.filter (Passing join.schema conds)).Perm (((candidates leftRows table).filter fun pair =>
      Probed join.left.outputSchema found.probeKeys metadata table pair ∧
        Passing join.schema conds (pair.1 ++ outOf scan table pair.2)).map fun pair => pair.1 ++ outOf scan table pair.2) := by
  have filtered := perm.filter (Passing join.schema conds)
  rw [List.filter_map, List.filter_filter] at filtered
  convert filtered using 4
  rw [Bool.eq_iff_iff, decide_eq_true_iff, Bool.and_eq_true, decide_eq_true_iff, Function.comp_apply, decide_eq_true_iff,
    and_comm]

theorem outOf_eq (plain : scan.projection = none) (stored : RecordID × RawTuple) :
    outOf scan table stored = table.rowOf stored := by
  simp [outOf, projectRow, plain]

theorem pairs_of_perm (plain : scan.projection = none)
    (width : ∀ l ∈ leftRows, l.length = join.left.outputSchema.length) {found : Row × RecordID × RawTuple → Prop}
    [DecidablePred found]
    (perm : (((candidates leftRows table).filter (found ·)).map fun pair => pair.1 ++ outOf scan table pair.2).Perm
      (((candidates leftRows table).filter fun pair => Passing scan.rawOutputSchema scan.predicates (table.rowOf pair.2) ∧
        Passing join.schema join.joinOn (pair.1 ++ outOf scan table pair.2)).map
          fun pair => pair.1 ++ outOf scan table pair.2)) :
    ∀ pair ∈ candidates leftRows table, (found pair ↔ Passing scan.rawOutputSchema scan.predicates (table.rowOf pair.2) ∧
      Passing join.schema join.joinOn (pair.1 ++ table.rowOf pair.2)) := by
  have sides : ∀ pair ∈ candidates leftRows table,
      (pair.1 ++ outOf scan table pair.2).drop join.left.outputSchema.length = table.rowOf pair.2 := by
    intro pair member
    rw [drop_left' (width pair.1 (mem_candidates.mp member).1), outOf_eq plain]
  have seen : ((candidates leftRows table).filter fun pair => Passing scan.rawOutputSchema scan.predicates
        (table.rowOf pair.2) ∧ Passing join.schema join.joinOn (pair.1 ++ outOf scan table pair.2)) =
      (candidates leftRows table).filter fun pair => Passing scan.rawOutputSchema scan.predicates
        ((pair.1 ++ outOf scan table pair.2).drop join.left.outputSchema.length) ∧
          Passing join.schema join.joinOn (pair.1 ++ outOf scan table pair.2) := by
    apply filter_congr
    intro pair member
    rw [sides pair member]
  rw [seen] at perm
  have agree := (@filter_map_perm_iff _ _ _ _ (fun pair : Row × RecordID × RawTuple => pair.1 ++ outOf scan table pair.2)
    (fun row => Passing scan.rawOutputSchema scan.predicates (row.drop join.left.outputSchema.length) ∧
      Passing join.schema join.joinOn row) _).mp perm.symm
  intro pair member
  have here := agree pair member
  rw [decide_eq_decide, sides pair member, outOf_eq plain] at here
  exact here.symm

/-- The index join returns what the nested loop join returns if it comes to the
right pairs, and where the scan on the right side has no projection only then. -/
theorem index_join_returns_iff (supplies : Supplies db leftPlan join.left.outputSchema leftRows)
    (right : join.right = .scan scan) (placed : Placed c db scan catalogTable table)
    (indexed : ∀ idx ∈ catalogTable.indexes, ∃ index, db.indexes idx.oid = some index ∧
      Consistent catalogTable idx table index) (rightBuilt : SeqScanRule.apply scan c = some rightPlan)
    (nested : BlockNestedLoopJoinRule.apply join leftPlan rightPlan = some plan)
    (produced : planRows db plan = some expected) {indexPlan : PlanNode}
    (applied : apply join leftPlan rightPlan c = some indexPlan) :
    ∃ idx index found, chooseIndex (getEquiJoinKeys join) catalogTable = some (idx, found) ∧
      db.indexes idx.oid = some index ∧
      (ProbesFit join scan table index.metadata found leftRows → Returns db (some indexPlan) expected) ∧
      (scan.projection = none → Returns db (some indexPlan) expected →
        ProbesFit join scan table index.metadata found leftRows) := by
  obtain ⟨idx, found, physProbes, node, chosen, binds, below, wrapped⟩ := parts_of_apply right placed.known rightBuilt applied
  have inside : idx ∈ catalogTable.indexes := by
    obtain ⟨other, member, same⟩ := exists_of_findSome?_eq_some chosen
    dsimp only at same
    split at same
    · cases same
      exact member
    · cases same
  obtain ⟨index, opened, agrees⟩ := indexed idx inside
  obtain ⟨evaluates, rfl⟩ := nested_rows supplies.produced placed rightBuilt nested produced
  refine ⟨idx, index, found, chosen, opened, fun fits => ?_, fun plain returns => ?_⟩
  · obtain ⟨mid, rowsOf, perm⟩ := below_rows supplies placed.stored opened agrees binds below fits
    have defined : ∀ pair ∈ candidates leftRows table,
        Probed join.left.outputSchema found.probeKeys index.metadata table pair →
        Defined join.schema (residuals join found) (pair.1 ++ outOf scan table pair.2) := by
      intro pair member probed
      obtain ⟨out, projected, defined⟩ := fits.evaluated pair member probed
      rwa [outOf, mem_def.mp projected]
    refine ⟨_, (returns_filtered rowsOf wrapped perm).mpr ⟨defined, rfl⟩, (kept_perm perm).trans ?_⟩
    rw [filter_congr]
    intro pair member
    rw [decide_eq_decide]
    cases projected : projectRow scan (table.rowOf pair.2) with
    | some out =>
      rw [outOf, projected, getD_some, passing_conditions found, and_left_comm, and_comm]
      exact and_congr_right (fits.right pair member out projected)
    | none =>
      refine iff_of_false (fun both => ?_) fun both => ?_
      · obtain ⟨out, impossible, -⟩ := fits.evaluated pair member both.1
        rw [projected] at impossible
        cases impossible
      · have some' := evaluates pair.2 (mem_candidates.mp member).2 both.1
        rw [projected] at some'
        cases some'
  · cases below with
    | projected shape => rw [plain] at shape; cases shape
    | plain =>
      obtain ⟨result, rowsOf, perm⟩ := returns
      obtain ⟨access, accessOf⟩ := exists_unfiltered wrapped rowsOf
      have typed := typed_of_planRows supplies.produced placed.stored opened binds accessOf
      obtain ⟨access', accessOf', listed⟩ := planRows_indexJoin supplies.produced placed.stored opened agrees binds typed
        (tableSchemaToTypes catalogTable)
      cases accessOf.symm.trans accessOf'
      have listed : access.Perm (((candidates leftRows table).filter (Probed join.left.outputSchema found.probeKeys
          index.metadata table)).map fun pair => pair.1 ++ outOf scan table pair.2) := by
        simpa only [outOf_eq plain] using listed
      obtain ⟨defined, rfl⟩ := (returns_filtered accessOf wrapped listed).mp rowsOf
      have right := pairs_of_perm plain supplies.width ((kept_perm listed).symm.trans perm)
      refine ⟨typed, fun some' => ?_, fun pair member probed => ?_, fun pair member out projected => ?_⟩
      · rw [plain] at some'
        cases some'
      · exact ⟨table.rowOf pair.2, by simp [projectRow, plain], outOf_eq plain pair.2 ▸ defined pair member probed⟩
      · have same : out = table.rowOf pair.2 := by simpa [projectRow, plain] using projected.symm
        have agree := right pair member
        rw [passing_conditions found, outOf_eq plain] at agree
        rw [same]
        intro kept
        simpa [kept] using agree

end

section Sample
open Ascii

variable (b : Int64)

/-- A table `t(a, b)` with the row (1, b) and a table `u(x)` with the row 1. -/
def probedTable : StoredTable := .ofRows 1 .twoInts [[int 1, int b]]

def probedCatalogTable : Catalog.Table := ⟨1, [⟨"a", .int⟩, ⟨"b", .int⟩], [⟨7, .hash, ["a"]⟩]⟩

def probedIndex : MemHashIndex :=
  ⟨.oneInt, (∅ : GoMap Key (List RecordID)).insert (int 1).writeTo [⟨⟨1, 0⟩, 0⟩]⟩

def probedDb : Database :=
  .of [(1, probedTable b), (2, .ofRows 2 .oneInt [[int 1]])] [(7, .hash probedIndex)]

/-- `t` with the predicate `b = 0` pushed down. -/
def probedScan : LogicalScanNode where
  tableOid := 1
  tableAlias := "t"
  rawOutputSchema := [⟨"a", .int, some ⟨"t", 1⟩⟩, ⟨"b", .int, some ⟨"t", 1⟩⟩]
  projection := none
  predicates := [.comparison 1 (.column ⟨"b", .int, some ⟨"t", 1⟩⟩) (.constant (.int 0)) .equal]
  predicate := by decide
  typed := by decide
  resolved := by decide

/-- `u JOIN t ON u.x = t.a`. -/
def probedJoin : LogicalJoinNode where
  left := .other [⟨"x", .int, some ⟨"u", 2⟩⟩]
  right := .scan probedScan
  joinOn := [.comparison 2 (.column ⟨"x", .int, some ⟨"u", 2⟩⟩) (.column ⟨"a", .int, some ⟨"t", 1⟩⟩) .equal]
  predicate := by decide
  separate := by decide

theorem probedIndex_consistent {b : Int64} (listed : (Index.hash probedIndex).entries.Perm
      ((probedTable b).rows.filterMap fun stored =>
        (probedIndex.metadata.keyOf ((probedTable b).rowOf stored)).map fun key => (key, stored.1))) :
    Consistent probedCatalogTable ⟨7, .hash, ["a"]⟩ (probedTable b) (.hash probedIndex) := by
  refine consistent_of_perm rfl rfl ⟨?_, by decide⟩ listed
  intro hash same key
  cases same
  unfold MemHashIndex.bucket
  by_cases same : key = (int 1).writeTo
  · subst same
    rw [probedIndex, AList.lookup_insert]
    exact nodup_singleton _
  · rw [probedIndex, AList.lookup_insert_ne same]
    exact nodup_nil

theorem probed_row_joined : Returns (probedDb 0) (apply probedJoin (.seqScan 2 [.int])
    ((SeqScanRule.apply probedScan [probedCatalogTable]).getD (.seqScan 1 [])) [probedCatalogTable])
    [[.int 1, .int 1, .int 0]] := by
  have placed : Placed [probedCatalogTable] (probedDb 0) probedScan probedCatalogTable (probedTable 0) := ⟨rfl, rfl, 1, rfl⟩
  have supplies : Supplies (probedDb 0) (.seqScan 2 [.int]) probedJoin.left.outputSchema [[.int 1]] := ⟨rfl, rfl, by decide⟩
  obtain ⟨idx, index, found, chosen, opened, sufficient, -⟩ := index_join_returns_iff supplies rfl placed
    (forall_mem_singleton.mpr ⟨_, rfl, probedIndex_consistent (by decide)⟩) rfl rfl rfl rfl
  cases chosen
  cases opened
  exact sufficient ⟨by decide, by decide, by decide, by decide⟩

/-- The index join returns a right row that the scan does not let through. -/
theorem index_join_ignores_pushed_predicate :
    Consistent probedCatalogTable ⟨7, .hash, ["a"]⟩ (probedTable 5) (.hash probedIndex) ∧
    isMatch probedJoin [probedCatalogTable] = true ∧
    ∃ rightPlan, SeqScanRule.apply probedScan [probedCatalogTable] = some rightPlan ∧
      (BlockNestedLoopJoinRule.apply probedJoin (.seqScan 2 [.int]) rightPlan).bind (planRows (probedDb 5)) = some [] ∧
      (apply probedJoin (.seqScan 2 [.int]) rightPlan [probedCatalogTable]).bind
        (planRows (probedDb 5)) = some [[.int 1, .int 1, .int 5]] := by
  refine ⟨probedIndex_consistent (by decide), by decide, _, rfl, ?_⟩
  decide

end Sample
end GoDB.Execution
