import GoDB.Proofs.IndexMatch

/-! A point lookup in an index against the sequential scan. -/

namespace GoDB.Execution
open Common Lib Storage Indexing Planner List IndexLookupRule Value

section
variable [Identifiers]

/-- What a lookup by some equalities asks of a row: that they are true, and that
all the rest is, unless some term consists of them. -/
def LookedUp (schema : LogicalSchema) (terms : List (List LogicalExpr)) (matched : List LogicalExpr) (row : Row) : Prop :=
  (∀ literal ∈ matched, Literal schema row literal) ∧
    ((∃ term ∈ terms, ∀ literal ∈ term, literal ∈ matched) ∨ ∀ term ∈ terms, ∀ literal ∈ term, Literal schema row literal)

instance (schema : LogicalSchema) (terms : List (List LogicalExpr)) (matched : List LogicalExpr) :
    DecidablePred (LookedUp schema terms matched) :=
  fun _ => inferInstanceAs (Decidable (_ ∧ (_ ∨ _)))

section Terms
variable {schema : LogicalSchema} {terms : List (List LogicalExpr)} {matched : List LogicalExpr} {row : Row}

theorem lookedUp_iff : LookedUp schema terms matched row ↔
      (∀ literal ∈ matched, Literal schema row literal) ∧ ResidualHolds schema terms matched row := by
  refine and_congr_right fun truth => or_congr_right (forall₄_congr fun term _ literal _ => ?_)
  constructor
  · exact fun holds _ => holds
  · intro rest
    by_cases used : literal ∈ matched
    · exact truth literal used
    · exact rest used

theorem LookedUp.holds (nonempty : terms ≠ []) (lookedUp : LookedUp schema terms matched row) :
    Terms.Holds (Literal schema row) terms := by
  obtain ⟨truth, ⟨term, inTerms, used⟩ | all⟩ := lookedUp
  · exact ⟨term, inTerms, fun literal inside => truth literal (used literal inside)⟩
  · obtain ⟨term, inTerms⟩ := exists_mem_of_ne_nil terms nonempty
    exact ⟨term, inTerms, all term inTerms⟩

end Terms

variable {c : Catalog} {db : Database} {scan : LogicalScanNode} {catalogTable : Catalog.Table} {table : StoredTable}
  {idx : Catalog.Index} {index : Index} {found : IndexMatchResult} {plan : PlanNode} {expected : List Row}

theorem equalities_of_match {term : List LogicalExpr}
    (analyzed : analyzeIndexTerm idx term scan.tableAlias = some found)
    (useful : 0 < found.numMatchedColumns ∧ found.isRange = false) : ∃ eqs : List (LogicalExpr × Value),
      List.Forall₂ (fun colName eq => equalityOn term scan.tableAlias colName = some (some eq)) idx.keySchema eqs ∧
        found.values = eqs.map Prod.snd ∧ found.matchedPreds = eqs.map Prod.fst := by
  obtain ⟨_, columns, analyzed⟩ := bind_eq_some.mp analyzed
  obtain ⟨eqs, matched, result⟩ := matchColumns_spec columns
  replace analyzed := (Option.some.inj analyzed).symm
  split at analyzed
  next range =>
    rw [analyzed, range] at useful
    cases useful.2
  next equal =>
    split at analyzed
    next short =>
      rw [analyzed] at useful
      cases useful.1
    next full =>
      rcases result with same | ⟨_, _, _, _, -, -, same⟩
      · rw [same] at analyzed full
        have whole : idx.keySchema.length ≤ eqs.length := by simpa [IndexMatchResult.numMatchedColumns] using full
        rw [take_of_length_le whole] at matched
        exact ⟨eqs, matched, by simp [analyzed], by simp [analyzed]⟩
      · rw [same] at equal
        exact absurd rfl equal

variable (placed : Placed c db scan catalogTable table)

include placed

theorem equalities_of_chosen
    (chosen : chooseIndex (fun found => 0 < found.numMatchedColumns && !found.isRange) scan catalogTable =
      some (idx, found)) : idx ∈ catalogTable.indexes ∧ scan.predicates ≠ [] ∧
    ∃ eqs : List (LogicalExpr × Value), List.Forall₂ (EqualityAt scan catalogTable) idx.keySchema eqs ∧
      found.values = eqs.map Prod.snd ∧ found.matchedPreds = eqs.map Prod.fst := by
  obtain ⟨useful, inside, analyzed⟩ := spec_of_chooseIndex chosen
  rw [Bool.and_eq_true, decide_eq_true_iff, Bool.not_eq_true'] at useful
  have nonempty := predicates_ne_nil analyzed useful.1
  obtain ⟨terms, made, term, inTerms, same⟩ := analyzeIndex_spec analyzed useful.1
  obtain ⟨_, made', covered, -⟩ := predicatesToDNFTerms_spec 0 nonempty scan.predicate
  cases made.symm.trans made'
  obtain ⟨eqs, matched, values, preds⟩ := equalities_of_match same useful
  exact ⟨inside, nonempty, eqs, matched.imp fun _ _ => equalityAt placed covered inTerms, values, preds⟩

theorem planRows_indexLookup (opened : db.indexes idx.oid = some index)
    (agrees : Consistent catalogTable idx table index) {key bound : Key}
    (bindsTo : bindKey index key = some bound) :
    ∃ rows, planRows db (.indexLookup idx.oid scan.tableOid (tableSchemaToTypes catalogTable) key) = some rows ∧
      rows.Perm ((table.rows.filter fun stored => (rowEntry index.metadata table stored).1 = bound).map table.rowOf) := by
  obtain ⟨rows, read, perm⟩ := agrees.read_rows (agrees.scanKey_perm bound)
  refine ⟨rows, ?_, perm⟩
  simp [planRows, opened, placed.stored, bindsTo, read]

/-- The lookup plan returns what the sequential scan returns if and only if every
row that the predicates accept makes the equalities true that the index was matched
by, and all the terms too unless one consists of such equalities. A constant that no
column holds may share its key with a value that one does; then the plan has to be
right about the rows under that key. -/
theorem index_lookup_returns_iff (indexed : ∀ idx ∈ catalogTable.indexes, ∃ index, db.indexes idx.oid = some index ∧
      Consistent catalogTable idx table index)
    (applicable : isMatch c scan.tableOid scan.tableAlias scan.predicates = some true)
    (built : SeqScanRule.apply scan c = some plan)
    (produced : planRows db plan = some expected) :
    ∃ idx index found terms, chooseIndex (fun found => 0 < found.numMatchedColumns && !found.isRange) scan catalogTable =
        some (idx, found) ∧ db.indexes idx.oid = some index ∧ predicatesToDNFTerms 1 scan.predicates = some terms ∧
      ((∀ val ∈ found.values, val.stored = val ∧ val.isNull = false) →
        (Returns db (apply scan c) expected ↔ ∀ stored ∈ table.rows,
          Passing scan.rawOutputSchema scan.predicates (table.rowOf stored) →
            LookedUp scan.rawOutputSchema terms found.matchedPreds (table.rowOf stored))) ∧
      (scan.projection = none → (Returns db (apply scan c) expected ↔ ∀ stored ∈ table.rows,
        RightAbout scan terms found.matchedPreds
          ((rowEntry index.metadata table stored).1 = found.values.flatMap writeTo) (table.rowOf stored))) := by
  obtain ⟨idx, found, chosen⟩ := exists_chooseIndex placed applicable fun _ _ _ useful => useful
  obtain ⟨inside, nonempty, eqs, matched, values, preds⟩ := equalities_of_chosen placed chosen
  obtain ⟨index, opened, agrees⟩ := indexed idx inside
  obtain ⟨terms, made, covered, mean⟩ := predicatesToDNFTerms_spec 1 nonempty scan.predicate
  have typesAt : TypesAt catalogTable idx.keySchema (found.values.map type) := values ▸ typesAt_equalities matched
  obtain ⟨projection, fields⟩ := agrees.layout typesAt
  obtain ⟨key, keyMade, bindsTo⟩ := bind_eq_some.mp (agrees.bindKey_matchKey typesAt)
  obtain ⟨rows, access, perm⟩ := planRows_indexLookup placed opened agrees bindsTo
  have schema : (PlanNode.indexLookup idx.oid scan.tableOid (tableSchemaToTypes catalogTable) key).outputSchema =
      tableSchemaToTypes catalogTable := rfl
  obtain ⟨sufficient, necessary⟩ := returns_indexPlan placed nonempty built produced schema access perm found made
  have applied : apply scan c = applyIndexResidualsAndProjection
      (.indexLookup idx.oid scan.tableOid (tableSchemaToTypes catalogTable) key) scan found := by
    simp [apply, placed.known, chosen, keyMade]
  rw [applied]
  refine ⟨idx, index, found, terms, chosen, opened, made, fun storable => ?_,
    fun plain => ⟨necessary (.inl plain), sufficient⟩⟩
  -- The rows under the key are those in which the equalities are true.
  have reached : ∀ stored, (rowEntry index.metadata table stored).1 = found.values.flatMap writeTo ↔
      ∀ literal ∈ found.matchedPreds, Literal scan.rawOutputSchema (table.rowOf stored) literal := by
    intro stored
    have wide : (table.rowOf stored).length = catalogTable.columns.length := by
      rw [StoredTable.rowOf, RawTupleDesc.values, length_readFields, agrees.columns, tableSchemaToTypes, length_map]
    have proper : ∀ eq ∈ eqs, eq.2.isNull = false := by
      intro eq member
      exact (storable eq.2 (values ▸ mem_map_of_mem member)).2
    rw [agrees.key_eq_iff fields.symm (fun val member => (storable val member).1), keyValues, projection, values,
      values_eq_iff matched proper wide, preds, forall_mem_map]
  have lookedUp : ∀ stored, LookedUp scan.rawOutputSchema terms found.matchedPreds (table.rowOf stored) ↔
      (rowEntry index.metadata table stored).1 = found.values.flatMap writeTo ∧
        ResidualHolds scan.rawOutputSchema terms found.matchedPreds (table.rowOf stored) := by
    intro stored
    rw [reached, lookedUp_iff]
  have truth := passing_iff_holds placed built produced nonempty made
  constructor
  · intro returns stored member passing
    apply (lookedUp stored).mpr
    exact (necessary (.inr fun stored _ here rest => ((lookedUp stored).mpr ⟨here, rest⟩).holds covered.nonempty) returns
      stored member).mp ((truth stored member).mp passing)
  · intro all
    apply sufficient
    intro stored member
    constructor
    · intro holds
      exact (lookedUp stored).mp (all stored member ((truth stored member).mpr holds))
    · intro passed
      exact ((lookedUp stored).mpr passed).holds covered.nonempty

end

section Sample
open Ascii

/-- A table `t(a, b)` with the rows (1, 0) and (5, b). -/
def lookupTable (b : Int64) : StoredTable := .ofRows 1 .twoInts [[int 1, int 0], [int 5, int b]]

def lookupCatalog : Catalog := [⟨1, [⟨"a", .int⟩, ⟨"b", .int⟩], [⟨7, .btree, ["a"]⟩]⟩]

def lookupTree : MemBTreeIndex :=
  .ofItems .oneInt [⟨(int 1).writeTo, ⟨⟨1, 0⟩, 0⟩⟩, ⟨(int 5).writeTo, ⟨⟨1, 0⟩, 1⟩⟩]

def lookupDb (b : Int64) : Database := .of [(1, lookupTable b)] [(7, .btree lookupTree)]

/-- `WHERE a = 1 OR b = 2`. -/
def lookupScan : LogicalScanNode where
  tableOid := 1
  tableAlias := "t"
  rawOutputSchema := [⟨"a", .int, some ⟨"t", 1⟩⟩, ⟨"b", .int, some ⟨"t", 1⟩⟩]
  projection := none
  predicates := [.logic 1 (.comparison 2 (.column ⟨"a", .int, some ⟨"t", 1⟩⟩) (.constant (.int 1)) .equal)
    (.comparison 3 (.column ⟨"b", .int, some ⟨"t", 1⟩⟩) (.constant (.int 2)) .equal) .or]
  predicate := by decide
  typed := by decide
  resolved := by decide

theorem lookup_without_disjunct : Returns (lookupDb 0) (apply lookupScan lookupCatalog) [[.int 1, .int 0]] := by
  have placed : Placed lookupCatalog (lookupDb 0) lookupScan _ (lookupTable 0) := ⟨rfl, rfl, 1, rfl⟩
  obtain ⟨idx, index, found, terms, chosen, -, made, exact, -⟩ := index_lookup_returns_iff placed
    (List.forall_mem_singleton.mpr ⟨_, rfl, consistent_of_perm rfl rfl ⟨nofun, by decide⟩ (by decide)⟩) (by decide) rfl rfl
  cases chosen
  cases made
  exact (exact (by decide)).mpr (by decide)

/-- The lookup of `a = 1` loses the row with `b = 2`. -/
theorem lookup_loses_disjunct :
    Consistent ⟨1, [⟨"a", .int⟩, ⟨"b", .int⟩], [⟨7, .btree, ["a"]⟩]⟩ ⟨7, .btree, ["a"]⟩ (lookupTable 2) (.btree lookupTree) ∧
    isMatch lookupCatalog lookupScan.tableOid lookupScan.tableAlias lookupScan.predicates = some true ∧
    (SeqScanRule.apply lookupScan lookupCatalog).bind (planRows (lookupDb 2)) = some [[.int 1, .int 0], [.int 5, .int 2]] ∧
    (apply lookupScan lookupCatalog).bind (planRows (lookupDb 2)) = some [[.int 1, .int 0]] := by
  refine ⟨consistent_of_perm rfl rfl ⟨nofun, by decide⟩ (by decide), ?_⟩
  decide

end Sample
end GoDB.Execution
