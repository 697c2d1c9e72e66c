import GoDB.Proofs.ConsistentIndex
import GoDB.Proofs.PredicateTerms

/-! A scan through an index against the sequential scan, whatever part of the table
the index gives access to. -/

namespace GoDB.Execution
open Common Lib Storage Indexing Planner List Option SeqScanRule

variable {terms : List (List LogicalExpr)} {matched : List LogicalExpr}

theorem residuals_any_isEmpty : (terms.map fun term => term.filter (· ∉ matched)).any (·.isEmpty) = true ↔
    ∃ term ∈ terms, ∀ literal ∈ term, literal ∈ matched := by
  simp [List.any_map, List.any_eq_true]

theorem mem_residualPredicates {pred : LogicalExpr} (member : pred ∈ residualPredicates matched terms) :
    ∃ term ∈ terms, mergePredicates (term.filter (· ∉ matched)) = some pred := by
  dsimp only [residualPredicates] at member
  split at member
  · cases member
  · obtain ⟨residual, inside, merged⟩ := mem_filterMap.mp member
    obtain ⟨term, inTerms, rfl⟩ := mem_map.mp inside
    exact ⟨term, inTerms, merged⟩

theorem isBuilt_residualPredicates (built : ∀ term ∈ terms, ∀ literal ∈ term, literal.isBuilt = true) :
    ∀ pred ∈ residualPredicates matched terms, pred.isBuilt = true := by
  intro pred member
  obtain ⟨term, inTerms, merged⟩ := mem_residualPredicates member
  apply isBuilt_mergePredicates merged
  intro literal kept
  exact built term inTerms literal (mem_filter.mp kept).1

variable [Identifiers] {db : Database} {scan : LogicalScanNode}

def project (scan : LogicalScanNode) (rows : List Row) : Option (List Row) :=
  match scan.projection with
  | none => some rows
  | some projection => rows.mapM fun row => projection.expressions.mapM (·.evalWith (scan.rawOutputSchema.reader row))

def projectRow (scan : LogicalScanNode) (row : Row) : Option Row :=
  match scan.projection with
  | none => some row
  | some projection => projection.expressions.mapM (·.evalWith (scan.rawOutputSchema.reader row))

theorem project_eq_mapM (scan : LogicalScanNode) (rows : List Row) : project scan rows = rows.mapM (projectRow scan) := by
  unfold project projectRow
  cases scan.projection with
  | none => exact (mapM_eq_some_iff.mpr ⟨fun _ _ => rfl, by simp⟩).symm
  | some projection => rfl

variable {s : LogicalSchema}

theorem mapM_bindExprs {es : List LogicalExpr} {types : List FieldType}
    {bound : List PhysicalExpr} (binds : bindExprs es s types = some bound) (row : Row) :
    bound.mapM (·.eval row) = es.mapM (·.evalWith (s.reader row)) := by
  induction es generalizing bound with
  | nil =>
    cases binds
    rfl
  | cons e es ih =>
    simp only [bindExprs, mapM_cons, bind_eq_some, Option.pure_def, Option.some.injEq] at binds
    obtain ⟨first, bindFirst, rest, bindRest, rfl⟩ := binds
    rw [mapM_cons, mapM_cons, eval_bindExpr bindFirst, ih bindRest]

variable {preds : List LogicalExpr}

theorem outputSchema_wrapInFilter {child plan : PlanNode}
    (wrapped : wrapInFilter child preds s = some plan) : plan.outputSchema = child.outputSchema := by
  unfold wrapInFilter at wrapped
  split at wrapped
  · cases wrapped
    rfl
  · obtain ⟨_, -, same⟩ := bind_eq_some.mp wrapped
    cases same
    rfl

variable {node : PlanNode} {rows result : List Row}

theorem planRows_finishScan {plan : PlanNode}
    (produced : planRows db node = some rows) (finished : finishScan scan node preds = some plan) :
    planRows db plan = some result ↔ (∀ row ∈ rows, Defined scan.rawOutputSchema preds row) ∧
      project scan (rows.filter (Passing scan.rawOutputSchema preds)) = some result := by
  obtain ⟨filtered, wrapped, finished⟩ := bind_eq_some.mp finished
  have kept := fun kept => @planRows_wrapInFilter _ _ kept _ _ _ _ _ produced wrapped
  unfold project
  cases shape : scan.projection with
  | none =>
    simp only [shape] at finished
    cases finished
    rw [kept, some.injEq, eq_comm (a := result)]
  | some projection =>
    simp only [shape] at finished
    obtain ⟨bound, binds, same⟩ := bind_eq_some.mp finished
    cases same
    have projected := fun row => mapM_bindExprs binds row
    simp only [planRows, bind_eq_some, kept, projected]
    constructor
    · rintro ⟨_, ⟨defined, rfl⟩, mapped⟩
      exact ⟨defined, mapped⟩
    · rintro ⟨defined, mapped⟩
      exact ⟨_, ⟨defined, rfl⟩, mapped⟩

theorem exists_finishScan {other plan : PlanNode} {preds others : List LogicalExpr}
    (finished : finishScan scan node preds = some plan) (same : other.outputSchema = node.outputSchema)
    (typed : node.outputSchema.length = scan.rawOutputSchema.length) (built : ∀ pred ∈ others, pred.isBuilt = true)
    (covers : ∀ pred ∈ others, scan.rawOutputSchema.coversExpr pred = true) :
    ∃ plan, finishScan scan other others = some plan := by
  obtain ⟨filtered, wrapped, finished⟩ := bind_eq_some.mp finished
  obtain ⟨filtered', wrapped'⟩ := isSome_iff_exists.mp ((isSome_wrapInFilter_iff built (same ▸ typed)).mpr covers)
  rw [outputSchema_wrapInFilter wrapped] at finished
  simp only [finishScan, wrapped', bind_eq_bind, bind_some, outputSchema_wrapInFilter wrapped', same]
  split at finished
  · exact ⟨_, rfl⟩
  · obtain ⟨bound, binds, -⟩ := bind_eq_some.mp finished
    exact ⟨_, by rw [binds]; rfl⟩

def Literal (schema : LogicalSchema) (row : Row) (literal : LogicalExpr) : Prop :=
  literal.testWith (schema.reader row) = some true

instance (schema : LogicalSchema) (row : Row) : DecidablePred (Literal schema row) :=
  fun _ => inferInstanceAs (Decidable (_ = _))

/-- What the filter of an index plan asks of a row: nothing when the index has
used up a term, else every literal of every term that it has not used. -/
def ResidualHolds (schema : LogicalSchema) (terms : List (List LogicalExpr)) (matched : List LogicalExpr) (row : Row) :
    Prop :=
  (∃ term ∈ terms, ∀ literal ∈ term, literal ∈ matched) ∨
    ∀ term ∈ terms, ∀ literal ∈ term, literal ∉ matched → Literal schema row literal

section
variable {schema : LogicalSchema} {row : Row}

theorem passing_residualPredicates : Passing schema (residualPredicates matched terms) row ↔
    ResidualHolds schema terms matched row := by
  dsimp only [residualPredicates, ResidualHolds]
  rw [← residuals_any_isEmpty]
  split
  next used => exact iff_of_true (by simp [Passing]) (.inl used)
  next unused =>
    rw [or_iff_right unused]
    constructor
    · intro passing term inTerms literal inside free
      have kept : literal ∈ term.filter (· ∉ matched) := mem_filter.mpr ⟨inside, decide_eq_true free⟩
      obtain ⟨pred, merged⟩ := exists_mergePredicates kept
      have holds := passing pred (mem_filterMap.mpr ⟨_, mem_map_of_mem inTerms, merged⟩)
      exact (conjunction_mergePredicates merged).2.mp holds literal kept
    · intro all pred member
      obtain ⟨residual, inside, merged⟩ := mem_filterMap.mp member
      obtain ⟨term, inTerms, rfl⟩ := mem_map.mp inside
      apply (conjunction_mergePredicates merged).2.mpr
      intro literal kept
      obtain ⟨inside, free⟩ := mem_filter.mp kept
      exact all term inTerms literal inside (of_decide_eq_true free)

theorem defined_residualPredicates
    (defined : ∀ term ∈ terms, ∀ literal ∈ term, (literal.testWith (schema.reader row)).isSome = true) :
    Defined schema (residualPredicates matched terms) row := by
  intro pred member
  obtain ⟨term, inTerms, merged⟩ := mem_residualPredicates member
  apply (conjunction_mergePredicates merged).1.mpr
  intro literal kept
  exact defined term inTerms literal (mem_filter.mp kept).1

theorem covers_residualPredicates (covers : ∀ term ∈ terms, ∀ literal ∈ term, schema.coversExpr literal = true) :
    ∀ pred ∈ residualPredicates matched terms, schema.coversExpr pred = true := by
  intro pred member
  obtain ⟨term, inTerms, merged⟩ := mem_residualPredicates member
  apply (coversExpr_mergePredicates merged).mpr
  intro literal kept
  exact covers term inTerms literal (mem_filter.mp kept).1

end

section
variable (covered : TermsOver (scan.predicates.flatMap comparisons) terms)

include covered

theorem literal_spec {term : List LogicalExpr} (inTerms : term ∈ terms)
    {literal : LogicalExpr} (inside : literal ∈ term) : ∃ pred ∈ scan.predicates, ∃ atom, ComparisonOf pred atom ∧
      (literal = atom ∨ ∃ address, literal = .negation address atom) := by
  have origin : ∃ atom ∈ scan.predicates.flatMap comparisons, literal = atom ∨ ∃ address, literal = .negation address atom := by
    rcases covered.literals term inTerms literal inside with plain | ⟨address, atom, member, same⟩
    · exact ⟨literal, plain, .inl rfl⟩
    · exact ⟨atom, member, .inr ⟨address, same⟩⟩
  obtain ⟨atom, member, shape⟩ := origin
  obtain ⟨pred, inPreds, member⟩ := mem_flatMap.mp member
  exact ⟨pred, inPreds, atom, comparisonOf (scan.predicate pred inPreds) member, shape⟩

theorem built_literal : ∀ term ∈ terms, ∀ literal ∈ term, literal.isBuilt = true := by
  intro term inTerms literal inside
  obtain ⟨pred, -, atom, spec, rfl | ⟨address, rfl⟩⟩ := literal_spec covered inTerms inside
  · exact spec.built
  · exact spec.built

theorem covers_literal : ∀ term ∈ terms, ∀ literal ∈ term, scan.rawOutputSchema.coversExpr literal = true := by
  intro term inTerms literal inside
  obtain ⟨pred, inPreds, atom, spec, shape⟩ := literal_spec covered inTerms inside
  have columns : literal.getReferencedColumns = atom.getReferencedColumns := by
    rcases shape with rfl | ⟨address, rfl⟩
    · rfl
    · rfl
  apply all_eq_true.mpr
  intro col used
  have member : col ∈ scan.rawOutputSchema.filter (equalFold ·.cname col.cname) := by
    rw [scan.resolved pred inPreds col (spec.columns col (columns ▸ used))]
    exact mem_singleton_self col
  exact any_eq_true.mpr ⟨col, (mem_filter.mp member).1, col.equals_self⟩

end

/-- The scan reads a table of the catalog under the names that the catalog has for
its columns. -/
structure Placed (c : Catalog) (db : Database) (scan : LogicalScanNode) (catalogTable : Catalog.Table)
    (table : StoredTable) : Prop where
  known : c.getTableByOid scan.tableOid = some catalogTable
  stored : db.tables scan.tableOid = some table
  declared : ∃ refID, scan.rawOutputSchema =
    catalogTable.columns.map fun column => ⟨column.name, column.type, some ⟨scan.tableAlias, refID⟩⟩

theorem Placed.width {c : Catalog} {db : Database} {catalogTable : Catalog.Table}
    {table : StoredTable} (placed : Placed c db scan catalogTable table) :
    scan.rawOutputSchema.length = catalogTable.columns.length := by
  obtain ⟨refID, declared⟩ := placed.declared
  rw [declared, length_map]

/-- An index plan is right about a row: it comes past it and lets it through its
filter exactly when some term of the predicates is true in it. -/
def RightAbout (scan : LogicalScanNode) (terms : List (List LogicalExpr)) (matched : List LogicalExpr) (reached : Prop)
    (row : Row) : Prop :=
  Terms.Holds (Literal scan.rawOutputSchema row) terms ↔ reached ∧ ResidualHolds scan.rawOutputSchema terms matched row

variable {c : Catalog} {catalogTable : Catalog.Table} {table : StoredTable} {plan : PlanNode} {expected : List Row}

theorem seqScan_rows (placed : Placed c db scan catalogTable table) (built : apply scan c = some plan)
    (produced : planRows db plan = some expected) :
    (∀ stored ∈ table.rows, Defined scan.rawOutputSchema scan.predicates (table.rowOf stored)) ∧
      project scan ((table.rows.filter fun stored =>
        Passing scan.rawOutputSchema scan.predicates (table.rowOf stored)).map table.rowOf) = some expected := by
  simp only [apply, placed.known, bind_eq_bind, bind_some] at built
  have rows : planRows db (.seqScan scan.tableOid (tableSchemaToTypes catalogTable)) =
      some (table.rows.map table.rowOf) := by simp [planRows, placed.stored]
  obtain ⟨defined, projected⟩ := (planRows_finishScan rows built).mp produced
  rw [List.filter_map] at projected
  exact ⟨forall_mem_map.mp defined, projected⟩

theorem passing_iff_holds (placed : Placed c db scan catalogTable table) (built : apply scan c = some plan)
    (produced : planRows db plan = some expected) (nonempty : scan.predicates ≠ [])
    (made : predicatesToDNFTerms 1 scan.predicates = some terms) :
    ∀ stored ∈ table.rows, Passing scan.rawOutputSchema scan.predicates (table.rowOf stored) ↔
      Terms.Holds (Literal scan.rawOutputSchema (table.rowOf stored)) terms := by
  obtain ⟨defined, -⟩ := seqScan_rows placed built produced
  obtain ⟨_, made', -, mean⟩ := predicatesToDNFTerms_spec 1 nonempty scan.predicate
  cases made.symm.trans made'
  intro stored member
  have truth := (mean (scan.rawOutputSchema.reader (table.rowOf stored)) (defined stored member)).truth
  rwa [decide_eq_true_iff] at truth

theorem project_perm {others : List Row} (perm : rows.Perm others) (projected : project scan rows = some result) :
    ∃ reordered, project scan others = some reordered ∧ reordered.Perm result := by
  rw [project_eq_mapM] at projected ⊢
  exact mapM_perm perm projected

theorem length_project (projected : project scan rows = some result) : result.length = rows.length := by
  rw [project_eq_mapM] at projected
  exact length_mapM projected

/-- An index plan whose access path comes past some of the rows returns what the
sequential scan returns if it is right about every row. It does so only then, unless
a projection hides that some rows are there in place of others. -/
theorem returns_indexPlan (placed : Placed c db scan catalogTable table) (nonempty : scan.predicates ≠ [])
    (built : apply scan c = some plan) (produced : planRows db plan = some expected)
    {reached : RecordID × RawTuple → Prop} [DecidablePred reached]
    (schema : node.outputSchema = tableSchemaToTypes catalogTable) (access : planRows db node = some rows)
    (perm : rows.Perm ((table.rows.filter (reached ·)).map table.rowOf)) (found : IndexMatchResult)
    (made : predicatesToDNFTerms 1 scan.predicates = some terms) :
    ((∀ stored ∈ table.rows, RightAbout scan terms found.matchedPreds (reached stored) (table.rowOf stored)) →
      Returns db (applyIndexResidualsAndProjection node scan found) expected) ∧
    ((scan.projection = none ∨ ∀ stored ∈ table.rows, reached stored →
        ResidualHolds scan.rawOutputSchema terms found.matchedPreds (table.rowOf stored) →
        Terms.Holds (Literal scan.rawOutputSchema (table.rowOf stored)) terms) →
      Returns db (applyIndexResidualsAndProjection node scan found) expected →
      ∀ stored ∈ table.rows, RightAbout scan terms found.matchedPreds (reached stored) (table.rowOf stored)) := by
  obtain ⟨defined, projected⟩ := seqScan_rows placed built produced
  obtain ⟨_, made', covered, mean⟩ := predicatesToDNFTerms_spec 1 nonempty scan.predicate
  cases made.symm.trans made'
  have truth := passing_iff_holds placed built produced nonempty made
  obtain ⟨other, finished⟩ : ∃ other, finishScan scan node (residualPredicates found.matchedPreds terms) = some other := by
    simp only [apply, placed.known, bind_eq_bind, bind_some] at built
    apply exists_finishScan built schema
    · simp [PlanNode.outputSchema, tableSchemaToTypes, placed.width]
    · exact isBuilt_residualPredicates (built_literal covered)
    · exact covers_residualPredicates (covers_literal covered)
  have applied : applyIndexResidualsAndProjection node scan found = some other := by
    simp [applyIndexResidualsAndProjection, made, finished]
  have result : ∀ result, planRows db other = some result ↔ project scan
      (rows.filter (Passing scan.rawOutputSchema (residualPredicates found.matchedPreds terms))) = some result := by
    intro result
    rw [planRows_finishScan access finished, and_iff_right]
    intro row member
    obtain ⟨stored, kept, rfl⟩ := mem_map.mp (perm.mem_iff.mp member)
    exact defined_residualPredicates (mean _ (defined stored (mem_filter.mp kept).1)).defined
  have through : (rows.filter (Passing scan.rawOutputSchema (residualPredicates found.matchedPreds terms))).Perm
      ((table.rows.filter fun stored => reached stored ∧
        Passing scan.rawOutputSchema (residualPredicates found.matchedPreds terms) (table.rowOf stored)).map table.rowOf) := by
    have filtered := perm.filter (Passing scan.rawOutputSchema (residualPredicates found.matchedPreds terms))
    rw [List.filter_map, List.filter_filter] at filtered
    convert filtered using 4
    rw [Bool.eq_iff_iff, decide_eq_true_iff, Bool.and_eq_true, decide_eq_true_iff, Function.comp_apply,
      decide_eq_true_iff, and_comm]
  have agree : (∀ stored ∈ table.rows, RightAbout scan terms found.matchedPreds (reached stored) (table.rowOf stored)) ↔
      ∀ stored ∈ table.rows, decide (Passing scan.rawOutputSchema scan.predicates (table.rowOf stored)) =
        decide (reached stored ∧
          Passing scan.rawOutputSchema (residualPredicates found.matchedPreds terms) (table.rowOf stored)) := by
    refine forall₂_congr fun stored member => ?_
    rw [decide_eq_decide, truth stored member, passing_residualPredicates, RightAbout]
  rw [agree]
  refine ⟨fun right => ?_, fun visible returns => ?_⟩
  · rw [filter_congr right] at projected
    obtain ⟨reordered, projected, perm⟩ := project_perm through.symm projected
    exact ⟨reordered, by rw [applied, bind_some, result, projected], perm⟩
  · obtain ⟨returned, rowsOf, perm⟩ := returns
    rw [applied, bind_some, result] at rowsOf
    rcases visible with plain | sound
    · simp only [project, plain, some.injEq] at rowsOf projected
      subst rowsOf projected
      exact (@filter_map_perm_iff _ _ table.rows _ table.rowOf (Passing scan.rawOutputSchema scan.predicates ·) _).mp
        (perm.symm.trans through)
    · have size := perm.length_eq
      rw [length_project rowsOf, length_project projected, through.length_eq, length_map, length_map] at size
      intro stored member
      refine (filter_eq_of_length (fun stored member passed => ?_) size stored member).symm
      rw [decide_eq_true_iff] at passed ⊢
      exact (truth stored member).mpr (sound stored member passed.1 (passing_residualPredicates.mp passed.2))

theorem exists_access (finished : finishScan scan node preds = some plan) (produced : planRows db plan = some result) :
    ∃ rows, planRows db node = some rows := by
  obtain ⟨filtered, wrapped, finished⟩ := bind_eq_some.mp finished
  have below : ∃ rows, planRows db filtered = some rows := by
    split at finished
    · cases finished
      exact ⟨result, produced⟩
    · obtain ⟨_, -, same⟩ := bind_eq_some.mp finished
      cases same
      obtain ⟨rows, rowsOf, -⟩ := bind_eq_some.mp produced
      exact ⟨rows, rowsOf⟩
  obtain ⟨rows, rowsOf⟩ := below
  exact exists_unfiltered wrapped rowsOf

end GoDB.Execution
