import GoDB.Proofs.IndexMatch

/-! A scan of a B-tree from a start key on against the sequential scan. -/

namespace GoDB.Execution
open Common Lib Storage Indexing Planner List IndexScanRule Value

/-- The rows that a scan from some values on comes past. Going backward it stays on
the first of several rows that have just these values. -/
def ScannedFrom (metadata : IndexMetadata) (table : StoredTable) (start : List Value) :
    ScanDirection → RecordID × RawTuple → Prop
  | .forward, stored => compareValues (keyValues metadata (table.rowOf stored)) start ≠ .lt
  | .backward, stored => compareValues (keyValues metadata (table.rowOf stored)) start = .lt ∨
      compareValues (keyValues metadata (table.rowOf stored)) start = .eq ∧ ∀ other ∈ table.rows,
        compareValues (keyValues metadata (table.rowOf other)) start = .eq → ridRank stored.1 ≤ ridRank other.1

instance (metadata : IndexMetadata) (table : StoredTable) (start : List Value) (direction : ScanDirection) :
    DecidablePred (ScannedFrom metadata table start direction) :=
  fun _ => match direction with
    | .forward => inferInstanceAs (Decidable (_ ≠ _))
    | .backward => inferInstanceAs (Decidable (_ ∨ _ ∧ ∀ other ∈ _, _ → _))

variable {c : Catalog} {db : Database} {catalogTable : Catalog.Table} {table : StoredTable} {idx : Catalog.Index}
  {index : Index} {found : IndexMatchResult} {plan : PlanNode} {expected : List Row}

theorem reached_iff_scannedFrom (agrees : Consistent catalogTable idx table index) {start : List Value}
    (typed : start.map type = index.metadata.keySchema.fields) (direction : ScanDirection)
    (stored : RecordID × RawTuple) :
    Reached index.metadata.keySchema index.entries (start.flatMap writeTo) direction
        (rowEntry index.metadata table stored) ↔
      ScannedFrom index.metadata table (start.map Value.stored) direction stored := by
  have compared : ∀ stored, (rowEntry index.metadata table stored).1.compare index.metadata.keySchema
      (start.flatMap Value.writeTo) = compareValues (keyValues index.metadata (table.rowOf stored))
        (start.map Value.stored) := by
    intro stored
    rw [Key.compare, agrees.values_key, RawTupleDesc.values, ← typed, readFields_writeAll]
  cases direction with
  | forward => rw [Reached, ScannedFrom, compared]
  | backward =>
    rw [Reached, ScannedFrom, compared]
    refine or_congr_right (and_congr_right fun _ => ⟨fun first other member same => ?_, fun first entry member same => ?_⟩)
    · refine first (rowEntry index.metadata table other) ((agrees.mem_entries _).mpr ⟨other, member, rfl⟩) ?_
      rw [compared, same]
    · obtain ⟨other, inside, rfl⟩ := (agrees.mem_entries entry).mp member
      rw [compared] at same
      exact first other inside same

variable {val : Value}

theorem type_newStringValue {bytes : List Byte} (made : newStringValue bytes = some val) : val.type = .string := by
  unfold newStringValue at made
  split at made
  · cases made
    rfl
  · cases made

theorem type_neighbour {next : Value} (moved : val.increment = some next ∨ val.decrement = some next) :
    next.type = val.type := by
  cases val with
  | null => rcases moved with moved | moved <;> cases moved
  | int v =>
    simp only [increment, decrement] at moved
    rcases moved with moved | moved
    all_goals
      split at moved
      · cases moved
        rfl
      · cases moved
  | string s =>
    rcases moved with moved | moved
    all_goals
      obtain ⟨_, -, made⟩ := bind_eq_some.mp moved
      exact type_newStringValue made

theorem types_startValues {op : ComparisonType} {values start : List Value}
    (started : startValues op values = some start) : start.map type = values.map type := by
  unfold startValues at started
  split at started
  next last isLast =>
    obtain ⟨next, moved, same⟩ := bind_eq_some.mp started
    cases same
    obtain ⟨front, rfl⟩ := List.getLast?_eq_some_iff.mp isLast
    simp [type_neighbour (.inr moved)]
  next last isLast =>
    obtain ⟨next, moved, same⟩ := bind_eq_some.mp started
    cases same
    obtain ⟨front, rfl⟩ := List.getLast?_eq_some_iff.mp isLast
    simp [type_neighbour (.inl moved)]
  next =>
    cases started
    rfl

theorem shape_range {tableAlias : String} {address : Nat} {left right : LogicalExpr} {compType op : ComparisonType}
    {col : LogicalColumn}
    (scanned : isRangeScan tableAlias (.comparison address left right compType) = some (some (col, val, op))) :
    Operands left right col val := by
  unfold isRangeScan at scanned
  split at scanned
  next same =>
    cases same
    cases eq_of_ifOn scanned
    exact .inl ⟨rfl, rfl⟩
  next same =>
    cases same
    cases eq_of_ifOn scanned
    exact .inr ⟨rfl, rfl⟩
  next same => cases same
  next => cases scanned

variable {op : ComparisonType} {start : List Value}

theorem typesAt_start (typesAt : TypesAt catalogTable (idx.keySchema.take found.values.length) (found.values.map type))
    (started : startValues op found.values = some start) :
    start.length = found.values.length ∧ TypesAt catalogTable (idx.keySchema.take start.length) (start.map type) := by
  have types := types_startValues started
  have size : start.length = found.values.length := by simpa using congrArg List.length types
  refine ⟨size, ?_⟩
  rw [types, size]
  exact typesAt

section
variable [Identifiers] {scan : LogicalScanNode}

section Access
variable (placed : Placed c db scan catalogTable table)

include placed

theorem typeAt_range {terms : List (List LogicalExpr)}
    (covered : TermsOver (scan.predicates.flatMap comparisons) terms) {term : List LogicalExpr} (inTerms : term ∈ terms)
    {colName : String} {literal : LogicalExpr} {val : Value} {op : ComparisonType}
    (matched : rangeOn term scan.tableAlias colName = some (some (literal, val, op))) :
    ∃ i column, ColumnAt catalogTable colName i column ∧ column.type = val.type := by
  obtain ⟨inside, col, scanned, rfl⟩ := rangeOn_spec matched
  obtain ⟨pred, inPreds, atom, spec, shape⟩ := literal_spec covered inTerms inside
  obtain ⟨address, left, right, compType, rfl⟩ := spec.shape
  have inner : ∃ op, isRangeScan scan.tableAlias (.comparison address left right compType) = some (some (col, val, op)) := by
    rcases shape with rfl | ⟨_, rfl⟩
    · exact ⟨op, scanned⟩
    · obtain ⟨_, below, mapped⟩ := Option.map_eq_some_iff.mp scanned
      obtain ⟨⟨col', val', op'⟩, rfl, same⟩ := Option.map_eq_some_iff.mp mapped
      cases same
      exact ⟨op', below⟩
  obtain ⟨_, scanned⟩ := inner
  have facts := (shape_range scanned).typed (spec.typed (scan.typed pred inPreds))
  obtain ⟨i, column, at', type, -⟩ := exists_columnAt placed (scan.resolved pred inPreds col (spec.columns col facts.1))
  exact ⟨i, column, at', type.trans facts.2⟩

theorem range_of_chosen (chosen : chooseIndex (fun found => 0 < found.numMatchedColumns && found.isRange) scan
    catalogTable = some (idx, found)) :
    idx ∈ catalogTable.indexes ∧ scan.predicates ≠ [] ∧ (∃ op, found.rangeOp = some op) ∧
      TypesAt catalogTable (idx.keySchema.take found.values.length) (found.values.map type) := by
  obtain ⟨useful, inside, analyzed⟩ := spec_of_chooseIndex chosen
  rw [Bool.and_eq_true, decide_eq_true_iff] at useful
  have nonempty := predicates_ne_nil analyzed useful.1
  obtain ⟨terms, made, term, inTerms, same⟩ := analyzeIndex_spec analyzed useful.1
  obtain ⟨_, made', covered, -⟩ := predicatesToDNFTerms_spec 0 nonempty scan.predicate
  cases made.symm.trans made'
  refine ⟨inside, nonempty, Option.isSome_iff_exists.mp useful.2, ?_⟩
  obtain ⟨_, columns, same⟩ := bind_eq_some.mp same
  obtain ⟨eqs, matched, result⟩ := matchColumns_spec columns
  replace same := Option.some.inj same
  rcases result with none | ⟨colName, literal, val, op, here, range, shape⟩
  · rw [none] at same
    have plain : found.isRange = false := by
      rw [← same]
      split
      · rfl
      · split <;> rfl
    rw [plain] at useful
    cases useful.2
  · rw [shape] at same
    replace same := same.symm.trans (if_pos rfl)
    subst same
    have front : TypesAt catalogTable (idx.keySchema.take eqs.length) ((eqs.map Prod.snd).map type) :=
      typesAt_equalities (matched.imp fun _ _ => equalityAt placed covered inTerms)
    have last : TypesAt catalogTable [colName] [val.type] := .cons (typeAt_range placed covered inTerms range) .nil
    simp only [nil_append, length_append, length_map, length_singleton, map_append, map_singleton]
    rw [take_add_one, here]
    exact rel_append front last

omit placed in
theorem rightAbout_single {term matched : List LogicalExpr} {reached : Prop} {row : Row} :
    RightAbout scan [term] matched reached row ↔
      ((∀ literal ∈ term, literal ∉ matched → Literal scan.rawOutputSchema row literal) →
        ((∀ literal ∈ term, literal ∈ matched → Literal scan.rawOutputSchema row literal) ↔ reached)) := by
  have residual : ResidualHolds scan.rawOutputSchema [term] matched row ↔
      ∀ literal ∈ term, literal ∉ matched → Literal scan.rawOutputSchema row literal := by
    simp only [ResidualHolds, mem_singleton, exists_eq_left, forall_eq]
    refine or_iff_right_of_imp fun used literal inside free => absurd (used literal inside) free
  have whole : Terms.Holds (Literal scan.rawOutputSchema row) [term] ↔
      (∀ literal ∈ term, literal ∈ matched → Literal scan.rawOutputSchema row literal) ∧
        ∀ literal ∈ term, literal ∉ matched → Literal scan.rawOutputSchema row literal := by
    rw [Terms.holds_singleton]
    constructor
    · exact fun all => ⟨fun literal inside _ => all literal inside, fun literal inside _ => all literal inside⟩
    · rintro ⟨used, free⟩ literal inside
      by_cases matches' : literal ∈ matched
      · exact used literal inside matches'
      · exact free literal inside matches'
  rw [RightAbout, residual, whole]
  constructor
  · intro right rest
    exact ⟨fun used => (right.mp ⟨used, rest⟩).1, fun here => (right.mpr ⟨here, rest⟩).1⟩
  · intro right
    refine ⟨?_, ?_⟩
    · rintro ⟨used, rest⟩
      exact ⟨(right rest).mp used, rest⟩
    · rintro ⟨here, rest⟩
      exact ⟨(right rest).mpr here, rest⟩

theorem planRows_indexScan (opened : db.indexes idx.oid = some index) (agrees : Consistent catalogTable idx table index)
    (tree : index.isHash = false) {key bound : Key} (bindsTo : bindKey index key = some bound) (direction : ScanDirection) :
    ∃ rows, planRows db (.indexScan idx.oid scan.tableOid (tableSchemaToTypes catalogTable) direction key) = some rows ∧
      rows.Perm ((table.rows.filter fun stored => Reached index.metadata.keySchema index.entries bound direction
        (rowEntry index.metadata table stored)).map table.rowOf) := by
  obtain ⟨rids, scanned, listed⟩ := agrees.scan_perm tree bound direction
  obtain ⟨rows, read, perm⟩ := agrees.read_rows listed
  refine ⟨rows, ?_, perm⟩
  simp [planRows, opened, placed.stored, bindsTo, scanned, read]

end Access

def scanNode (scan : LogicalScanNode) (catalogTable : Catalog.Table) (idx : Catalog.Index) (op : ComparisonType)
    (start : List Value) : PlanNode :=
  .indexScan idx.oid scan.tableOid (tableSchemaToTypes catalogTable) (direction op) (start.flatMap writeTo)

theorem apply_eq (placed : Placed c db scan catalogTable table)
    (chosen : chooseIndex (fun found => 0 < found.numMatchedColumns && found.isRange) scan catalogTable = some (idx, found))
    (agrees : Consistent catalogTable idx table index) (range : found.rangeOp = some op)
    (started : startValues op found.values = some start)
    (typesAt : TypesAt catalogTable (idx.keySchema.take start.length) (start.map type)) :
    apply scan c = applyIndexResidualsAndProjection (scanNode scan catalogTable idx op start) scan found := by
  simp [apply, scanNode, placed.known, chosen, range, started, agrees.matchKey_eq typesAt]

theorem full_of_returns (opened : db.indexes idx.oid = some index)
    (agrees : Consistent catalogTable idx table index)
    (typesAt : TypesAt catalogTable (idx.keySchema.take start.length) (start.map type))
    (returns : Returns db (applyIndexResidualsAndProjection (scanNode scan catalogTable idx op start) scan found) expected) :
    start.length = idx.keySchema.length := by
  obtain ⟨result, rowsOf, -⟩ := returns
  obtain ⟨plan, applied, produced⟩ := bind_eq_some.mp rowsOf
  obtain ⟨_, -, finished⟩ := bind_eq_some.mp applied
  obtain ⟨rows, access⟩ := exists_access finished produced
  by_contra short
  simp only [planRows, scanNode, opened, Option.bind_eq_bind, Option.bind_some, agrees.bindKey_eq typesAt, if_neg short,
    Option.bind_none, Option.bind_eq_some_iff] at access
  obtain ⟨_, -, impossible⟩ := access
  cases impossible

theorem returns_scanFrom (placed : Placed c db scan catalogTable table) (opened : db.indexes idx.oid = some index)
    (tree : index.isHash = false) (agrees : Consistent catalogTable idx table index) (nonempty : scan.predicates ≠ [])
    (built : SeqScanRule.apply scan c = some plan) (produced : planRows db plan = some expected) {term : List LogicalExpr}
    (made : predicatesToDNFTerms 1 scan.predicates = some [term])
    (typesAt : TypesAt catalogTable (idx.keySchema.take start.length) (start.map type))
    (full : start.length = idx.keySchema.length) :
    ((∀ stored ∈ table.rows, RightAbout scan [term] found.matchedPreds (ScannedFrom index.metadata table
        (start.map Value.stored) (direction op) stored) (table.rowOf stored)) →
      Returns db (applyIndexResidualsAndProjection (scanNode scan catalogTable idx op start) scan found) expected) ∧
    (scan.projection = none →
      Returns db (applyIndexResidualsAndProjection (scanNode scan catalogTable idx op start) scan found) expected →
      ∀ stored ∈ table.rows, RightAbout scan [term] found.matchedPreds (ScannedFrom index.metadata table
        (start.map Value.stored) (direction op) stored) (table.rowOf stored)) := by
  have bindsTo : bindKey index (start.flatMap writeTo) = some (start.flatMap writeTo) := by
    rw [agrees.bindKey_eq typesAt, if_pos full]
  have fields : start.map type = index.metadata.keySchema.fields := by
    rw [full, take_length] at typesAt
    exact (agrees.layout typesAt).2.symm
  obtain ⟨rows, access, perm⟩ := planRows_indexScan placed opened agrees tree bindsTo (direction op)
  have schema : (scanNode scan catalogTable idx op start).outputSchema = tableSchemaToTypes catalogTable := rfl
  obtain ⟨sufficient, necessary⟩ := returns_indexPlan placed nonempty built produced schema access perm found made
  simp only [reached_iff_scannedFrom agrees fields] at sufficient necessary
  exact ⟨sufficient, fun plain => necessary (.inl plain)⟩

/-- The scan from the start of a match comes past the right rows: the match uses
every column of the index, the start exists, and of the rows in which the rest of the
term is true it comes past those in which the matched literals are. -/
def ScanFits (scan : LogicalScanNode) (table : StoredTable) (idx : Catalog.Index) (metadata : IndexMetadata)
    (found : IndexMatchResult) (op : ComparisonType) (term : List LogicalExpr) : Prop :=
  found.numMatchedColumns = idx.keySchema.length ∧
    ∃ start, startValues op found.values = some start ∧ ∀ stored ∈ table.rows,
      (∀ literal ∈ term, literal ∉ found.matchedPreds → Literal scan.rawOutputSchema (table.rowOf stored) literal) →
        ((∀ literal ∈ term, literal ∈ found.matchedPreds → Literal scan.rawOutputSchema (table.rowOf stored) literal) ↔
          ScannedFrom metadata table (start.map Value.stored) (direction op) stored)

/-- The scan plan returns what the sequential scan returns if its scan comes past
the right rows, and without a projection only then. -/
theorem index_scan_returns_iff (placed : Placed c db scan catalogTable table)
    (indexed : ∀ idx ∈ catalogTable.indexes, idx.keySchema ≠ [] ∧ ∃ index, db.indexes idx.oid = some index ∧
      index.isHash = false ∧ Consistent catalogTable idx table index)
    (conjunctions : ∀ pred ∈ scan.predicates, isConjunction pred = true)
    (applicable : isMatch c scan.tableOid scan.tableAlias scan.predicates = some true)
    (built : SeqScanRule.apply scan c = some plan)
    (produced : planRows db plan = some expected) :
    ∃ idx index found op term, chooseIndex (fun found => 0 < found.numMatchedColumns && found.isRange) scan catalogTable =
        some (idx, found) ∧ db.indexes idx.oid = some index ∧ found.rangeOp = some op ∧
      predicatesToDNFTerms 1 scan.predicates = some [term] ∧
      (ScanFits scan table idx index.metadata found op term → Returns db (apply scan c) expected) ∧
      (scan.projection = none → Returns db (apply scan c) expected →
        ScanFits scan table idx index.metadata found op term) := by
  obtain ⟨idx, found, chosen⟩ : ∃ idx found,
      chooseIndex (fun found => 0 < found.numMatchedColumns && found.isRange) scan catalogTable = some (idx, found) := by
    refine exists_chooseIndex placed applicable fun idx member found useful => ?_
    rw [Bool.and_eq_true, decide_eq_true_iff] at useful ⊢
    exact ⟨useful.1 ▸ length_pos_of_ne_nil (indexed idx member).1, useful.2⟩
  obtain ⟨inside, nonempty, ⟨op, range⟩, typesAt⟩ := range_of_chosen placed chosen
  obtain ⟨-, index, opened, tree, agrees⟩ := indexed idx inside
  obtain ⟨term, made⟩ := exists_term 1 nonempty conjunctions
  refine ⟨idx, index, found, op, term, chosen, opened, range, made, ?_, ?_⟩
  · intro ⟨full, start, started, right⟩
    obtain ⟨size, typed⟩ := typesAt_start typesAt started
    rw [apply_eq placed chosen agrees range started typed]
    apply (returns_scanFrom placed opened tree agrees nonempty built produced made typed (size.trans full)).1
    exact fun stored member => rightAbout_single.mpr (right stored member)
  · intro plain returns
    cases started : startValues op found.values with
    | none =>
      obtain ⟨_, impossible, -⟩ := returns
      simp [apply, placed.known, chosen, range, started] at impossible
    | some start =>
      obtain ⟨size, typed⟩ := typesAt_start typesAt started
      rw [apply_eq placed chosen agrees range started typed] at returns
      have full := full_of_returns opened agrees typed returns
      refine ⟨size.symm.trans full, start, started, fun stored member => rightAbout_single.mp ?_⟩
      exact (returns_scanFrom placed opened tree agrees nonempty built produced made typed full).2 plain returns
        stored member

end

section Sample
open Ascii

/-- A table `t(a)` with the rows NULL and 5. -/
def rangeTable : StoredTable := .ofRows 1 .oneInt [[null .int], [int 5]]

def rangeCatalogTable : Catalog.Table := ⟨1, [⟨"a", .int⟩], [⟨7, .btree, ["a"]⟩]⟩

def rangeTree : MemBTreeIndex :=
  .ofItems .oneInt [⟨(null .int).writeTo, ⟨⟨1, 0⟩, 0⟩⟩, ⟨(int 5).writeTo, ⟨⟨1, 0⟩, 1⟩⟩]

def rangeDb : Database := .of [(1, rangeTable)] [(7, .btree rangeTree)]

/-- `WHERE a op 5`. -/
def rangeScan (op : ComparisonType) : LogicalScanNode where
  tableOid := 1
  tableAlias := "t"
  rawOutputSchema := [⟨"a", .int, some ⟨"t", 1⟩⟩]
  projection := none
  predicates := [.comparison 1 (.column ⟨"a", .int, some ⟨"t", 1⟩⟩) (.constant (.int 5)) op]
  predicate := by simp [Expr.isPredicate, Expr.isBuilt]
  typed := by simp [Expr.isTyped, Expr.outputType, type]
  resolved := by simp [Expr.getReferencedColumns, equalFold_equivalence.refl]

theorem rangeTree_consistent : Consistent rangeCatalogTable ⟨7, .btree, ["a"]⟩ rangeTable (.btree rangeTree) :=
  consistent_of_perm rfl rfl ⟨nofun, by decide⟩ (by decide)

/-- `WHERE a >= 5`: the scan goes up from 5 and leaves NULL behind. -/
theorem scan_upward : Returns rangeDb (apply (rangeScan .greaterThanOrEqual) [rangeCatalogTable]) [[.int 5]] := by
  have placed : Placed [rangeCatalogTable] rangeDb (rangeScan .greaterThanOrEqual) rangeCatalogTable rangeTable :=
    ⟨rfl, rfl, 1, rfl⟩
  obtain ⟨idx, index, found, op, term, chosen, opened, range, made, sufficient, -⟩ := index_scan_returns_iff placed
    (List.forall_mem_singleton.mpr ⟨by decide, _, rfl, rfl, rangeTree_consistent⟩) (by decide) (by decide) rfl rfl
  cases chosen
  cases opened
  cases range
  cases made
  exact sufficient ⟨by decide, _, rfl, by decide⟩

/-- `WHERE a <= 5`: the scan goes down from 5 and returns NULL as well. -/
theorem scan_downward_returns_null : Consistent rangeCatalogTable ⟨7, .btree, ["a"]⟩ rangeTable (.btree rangeTree) ∧
    isMatch [rangeCatalogTable] 1 (rangeScan .lessThanOrEqual).tableAlias (rangeScan .lessThanOrEqual).predicates = some true ∧
    (SeqScanRule.apply (rangeScan .lessThanOrEqual) [rangeCatalogTable]).bind (planRows rangeDb) = some [[.int 5]] ∧
    (apply (rangeScan .lessThanOrEqual) [rangeCatalogTable]).bind (planRows rangeDb) = some [[.int 5], [.null .int]] := by
  refine ⟨rangeTree_consistent, ?_⟩
  decide

end Sample
end GoDB.Execution
