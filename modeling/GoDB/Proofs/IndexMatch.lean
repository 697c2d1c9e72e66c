import GoDB.Proofs.ColumnOrigins
import GoDB.Proofs.EquiJoinKeys
import GoDB.Proofs.IndexPlans

/-! What a rule matches an index by: which comparisons, and on which of its columns. -/

namespace GoDB.Planner
open Common Lib List

variable {term : List LogicalExpr} {tableAlias colName : String} {literal : LogicalExpr} {val : Value}

theorem equalityOn_spec (found : equalityOn term tableAlias colName = some (some (literal, val))) :
    literal ∈ term ∧ ∃ col, isEqualityScan tableAlias literal = some (some (col, val)) ∧ col.cname = colName := by
  obtain ⟨pred, member, found⟩ := mem_of_findSomeM? found
  obtain ⟨scanned, made, found⟩ := bind_eq_some.mp found
  cases scanned with
  | none => cases found
  | some scanned =>
    obtain ⟨named, same⟩ := Option.ite_none_right_eq_some.mp (Option.some.inj found)
    cases same
    exact ⟨member, _, made, named⟩

theorem rangeOn_spec {op : ComparisonType} (found : rangeOn term tableAlias colName = some (some (literal, val, op))) :
    literal ∈ term ∧ ∃ col, isRangeScan tableAlias literal = some (some (col, val, op)) ∧ col.cname = colName := by
  obtain ⟨pred, member, found⟩ := mem_of_findSomeM? found
  obtain ⟨scanned, made, found⟩ := bind_eq_some.mp found
  cases scanned with
  | none => cases found
  | some scanned =>
    obtain ⟨named, same⟩ := Option.ite_none_right_eq_some.mp (Option.some.inj found)
    cases same
    exact ⟨member, _, made, named⟩

theorem matchColumns_spec {cols : List String} {init result : IndexMatchResult}
    (made : matchColumns term tableAlias cols init = some result) : ∃ eqs : List (LogicalExpr × Value),
      List.Forall₂ (fun colName eq => equalityOn term tableAlias colName = some (some eq)) (cols.take eqs.length) eqs ∧
      (result = ⟨init.values ++ eqs.map Prod.snd, init.rangeOp, init.matchedPreds ++ eqs.map Prod.fst⟩ ∨
        ∃ colName literal val op, cols[eqs.length]? = some colName ∧
          rangeOn term tableAlias colName = some (some (literal, val, op)) ∧ result =
            ⟨init.values ++ eqs.map Prod.snd ++ [val], some op, init.matchedPreds ++ eqs.map Prod.fst ++ [literal]⟩) := by
  induction cols generalizing init with
  | nil =>
    cases made
    exact ⟨[], .nil, .inl (by simp)⟩
  | cons colName rest ih =>
    obtain ⟨equality, equal, made⟩ := bind_eq_some.mp made
    cases equality with
    | some eq =>
      obtain ⟨eqs, matched, result⟩ := ih made
      refine ⟨eq :: eqs, .cons equal matched, ?_⟩
      simpa using result
    | none =>
      refine ⟨[], .nil, ?_⟩
      obtain ⟨ranged, range, same⟩ := bind_eq_some.mp made
      cases ranged with
      | none =>
        cases same
        exact .inl (by simp)
      | some found =>
        cases same
        exact .inr ⟨colName, found.1, found.2.1, found.2.2, rfl, range, by simp⟩

theorem mem_of_foldl_better {α : Type} {numMatched : α → Nat} {items : List α} {init : Option α} {best : α}
    (chosen : items.foldl (better numMatched) init = some best) : best ∈ items ∨ init = some best := by
  induction items generalizing init with
  | nil => exact .inr chosen
  | cons next rest ih =>
    rcases ih chosen with later | now
    · exact .inl (mem_cons_of_mem _ later)
    · cases init with
      | none =>
        cases now
        exact .inl mem_cons_self
      | some best' =>
        simp only [better] at now
        split at now
        · cases now
          exact .inl mem_cons_self
        · exact .inr now

theorem analyzeIndex_spec {idx : Catalog.Index} {preds : List LogicalExpr} {found : IndexMatchResult}
    (analyzed : analyzeIndex idx preds tableAlias = some found) (nonempty : 0 < found.numMatchedColumns) :
    ∃ terms, predicatesToDNFTerms 0 preds = some terms ∧
      ∃ term ∈ terms, analyzeIndexTerm idx term tableAlias = some found := by
  obtain ⟨terms, made, analyzed⟩ := bind_eq_some.mp analyzed
  obtain ⟨results, each, same⟩ := bind_eq_some.mp analyzed
  refine ⟨terms, made, ?_⟩
  cases best : results.foldl (better (·.numMatchedColumns)) none with
  | none =>
    simp only [best] at same
    cases same
    cases nonempty
  | some found' =>
    simp only [best] at same
    cases same
    rcases mem_of_foldl_better best with member | impossible
    · exact (mem_of_mapM each).2 _ member
    · cases impossible

end GoDB.Planner

namespace GoDB.Execution
open Common Lib Storage Indexing Planner List Option Value Expr LogicalColumn ComparisonType

variable {c : Catalog} {db : Database} {catalogTable : Catalog.Table} {table : StoredTable} {idx : Catalog.Index}
  {index : Index} {found : IndexMatchResult}

variable {col : LogicalColumn}

theorem isSome_foldl_better {α : Type} {numMatched : α → Nat} {items : List α} {init : Option α}
    (something : items ≠ [] ∨ init.isSome = true) : (items.foldl (better numMatched) init).isSome = true := by
  induction items generalizing init with
  | nil => exact something.resolve_left fun empty => empty rfl
  | cons next rest ih =>
    apply ih
    right
    cases init with
    | none => rfl
    | some best =>
      simp only [better]
      split <;> rfl

theorem comparison_eval_iff (compType : ComparisonType) (val1 val2 : Value) :
    (compType.eval val1 val2).map exprIsTrue = some true ↔ val1.isNull = false ∧ val2.isNull = false ∧
      val1.type = val2.type ∧ compType.holds (val1.compare val2) = true := by
  unfold eval
  split
  next null =>
    refine iff_of_false (by simp [exprIsTrue]) ?_
    rintro ⟨first, second, -⟩
    simp [first, second] at null
  next proper =>
    rw [not_or, Bool.not_eq_true, Bool.not_eq_true] at proper
    split
    next types => cases compType.holds (val1.compare val2) <;> simp [types, proper, boolValue, exprIsTrue]
    next types => simp [types]

theorem equal_eval_iff (val1 val2 : Value) :
    (equal.eval val1 val2).map exprIsTrue = some true ↔ val2.isNull = false ∧ val1 = val2 := by
  rw [comparison_eval_iff]
  simp only [holds, decide_eq_true_iff]
  rw [compare_eq_cmp, cmp_eq_eq_iff]
  constructor
  · rintro ⟨_, proper, types, ranks⟩
    exact ⟨proper, eq_of_rank types ranks⟩
  · rintro ⟨proper, rfl⟩
    exact ⟨proper, proper, rfl, rfl⟩

def Operands (left right : LogicalExpr) (col : LogicalColumn) (val : Value) : Prop :=
  left = .column col ∧ right = .constant val ∨ left = .constant val ∧ right = .column col

theorem Operands.typed {left right : LogicalExpr} {val : Value} (operands : Operands left right col val)
    {address : Nat} {compType : ComparisonType}
    (typed : (comparison address left right compType).isTyped ctype = true) :
    col ∈ (comparison address left right compType).getReferencedColumns ∧ col.ctype = val.type := by
  rcases operands with ⟨rfl, rfl⟩ | ⟨rfl, rfl⟩
  · simp only [isTyped, outputType, Bool.and_true] at typed
    exact ⟨by simp [getReferencedColumns], of_decide_eq_true typed⟩
  · simp only [isTyped, outputType, Bool.and_true] at typed
    exact ⟨by simp [getReferencedColumns], (of_decide_eq_true typed).symm⟩

variable {tableAlias : String} {literal : LogicalExpr}

theorem shape_equality {val : Value} (scanned : isEqualityScan tableAlias literal = some (some (col, val))) :
    ∃ address left right, literal = .comparison address left right .equal ∧ Operands left right col val := by
  unfold isEqualityScan at scanned
  split at scanned
  next address col' val' =>
    cases eq_of_ifOn scanned
    exact ⟨address, _, _, rfl, .inl ⟨rfl, rfl⟩⟩
  next address val' col' =>
    cases eq_of_ifOn scanned
    exact ⟨address, _, _, rfl, .inr ⟨rfl, rfl⟩⟩
  next => cases scanned

variable {cols : List String}

section
variable [Identifiers] {scan : LogicalScanNode} {usable : IndexMatchResult → Bool}

theorem spec_of_chooseIndex {idx : Catalog.Index} {found : IndexMatchResult}
    (chosen : chooseIndex usable scan catalogTable = some (idx, found)) :
    usable found = true ∧ idx ∈ catalogTable.indexes ∧ analyzeIndex idx scan.predicates scan.tableAlias = some found := by
  obtain ⟨results, analyzed, chosen⟩ := bind_eq_some.mp chosen
  obtain ⟨-, rfl⟩ := mapM_eq_some_iff.mp analyzed
  rcases mem_of_foldl_better chosen with member | impossible
  · obtain ⟨member, usable⟩ := mem_filter.mp member
    obtain ⟨idx', inside, result⟩ := mem_filterMap.mp member
    obtain ⟨found', matched, same⟩ := bind_eq_some.mp result
    cases same
    exact ⟨usable, inside, matched⟩
  · cases impossible

theorem predicates_ne_nil (analyzed : analyzeIndex idx scan.predicates scan.tableAlias = some found)
    (nonempty : 0 < found.numMatchedColumns) : scan.predicates ≠ [] := by
  intro empty
  rw [empty] at analyzed
  cases analyzed
  cases nonempty

theorem originated_scan (placed : Placed c db scan catalogTable table) : ∀ pred ∈ scan.predicates, Originated pred := by
  intro pred inside col used
  obtain ⟨refID, declared⟩ := placed.declared
  have member : col ∈ scan.rawOutputSchema := mem_of_mem_filter (scan.resolved pred inside col used ▸ mem_singleton_self col)
  rw [declared] at member
  obtain ⟨column, -, rfl⟩ := mem_map.mp member
  rfl

theorem exists_chooseIndex (placed : Placed c db scan catalogTable table) {matches' : Catalog.Index → IndexMatchResult → Bool}
    (applicable : hasIndex matches' c scan.tableOid scan.tableAlias scan.predicates = some true)
    (useful : ∀ idx ∈ catalogTable.indexes, ∀ found, matches' idx found = true → usable found = true) :
    ∃ idx found, chooseIndex usable scan catalogTable = some (idx, found) := by
  rw [hasIndex, placed.known] at applicable
  split at applicable
  · cases applicable
  next nonempty =>
    obtain ⟨idx, inside, analyzed⟩ := mem_of_anyM applicable
    obtain ⟨found, analyzed, matched⟩ := bind_eq_some.mp analyzed
    have nonempty : scan.predicates ≠ [] := fun empty => nonempty (by simp [empty])
    obtain ⟨terms, made, -⟩ := predicatesToDNFTerms_spec 0 nonempty scan.predicate
    have all : ∀ idx ∈ catalogTable.indexes, (do
        return (idx, ← analyzeIndex idx scan.predicates scan.tableAlias) :
          Option (Catalog.Index × IndexMatchResult)).isSome := by
      intro other _
      have returns := @isSome_analyzeIndex scan.tableAlias _ (originated_scan placed) other
      rw [made] at returns
      obtain ⟨_, analyzed⟩ := isSome_iff_exists.mp returns
      rw [analyzed]
      rfl
    have member : (idx, found) ∈ (catalogTable.indexes.filterMap fun idx => do
        return (idx, ← analyzeIndex idx scan.predicates scan.tableAlias)).filter (usable ·.2) :=
      mem_filter.mpr ⟨mem_filterMap.mpr ⟨idx, inside, by simp [analyzed]⟩, useful idx inside found (some.inj matched)⟩
    have chosen := @isSome_foldl_better _ (fun result : Catalog.Index × IndexMatchResult => result.2.numMatchedColumns)
      _ none (.inl (ne_nil_of_mem member))
    obtain ⟨best, chosen⟩ := isSome_iff_exists.mp chosen
    exact ⟨best.1, best.2, by rw [chooseIndex, mapM_eq_some_iff.mpr ⟨all, rfl⟩, bind_eq_bind, bind_some, chosen]⟩

structure ColumnAt (catalogTable : Catalog.Table) (name : String) (i : Nat) (column : Catalog.Column) : Prop where
  here : catalogTable.columns[i]? = some column
  last : columnOf catalogTable name = some i
  first : catalogTable.columns.find? (·.name = name) = some column

theorem exists_columnAt (placed : Placed c db scan catalogTable table)
    (resolved : scan.rawOutputSchema.filter (equalFold ·.cname col.cname) = [col]) :
    ∃ i column, ColumnAt catalogTable col.cname i column ∧ column.type = col.ctype ∧
      scan.rawOutputSchema.position col = some i := by
  obtain ⟨refID, declared⟩ := placed.declared
  obtain ⟨before, after, parts, others, folded, rest⟩ := filter_eq_cons_iff.mp resolved
  have others' := filter_eq_nil_iff.mp rest
  obtain ⟨front, back, columns, mapFront, mapBack⟩ := map_eq_append_iff.mp (declared.symm.trans parts)
  obtain ⟨column, later, rfl, same, mapLater⟩ := map_eq_cons_iff.mp mapBack
  have absent : ∀ other ∈ front ++ later, other.name ≠ col.cname := by
    intro other member named
    have apart : equalFold other.name col.cname ≠ true := by
      rcases mem_append.mp member with inFront | inLater
      · exact others ⟨other.name, other.type, _⟩ (mapFront ▸ mem_map_of_mem inFront)
      · exact others' ⟨other.name, other.type, _⟩ (mapLater ▸ mem_map_of_mem inLater)
    exact apart (named ▸ equalFold_equivalence.refl _)
  have length : front.length = before.length := by rw [← mapFront, length_map]
  have name : column.name = col.cname := congrArg cname same
  refine ⟨before.length, column, ⟨?_, ?_, ?_⟩, congrArg ctype same, ?_⟩
  · rw [columns, ← length, getElem?_append_right le_rfl, Nat.sub_self]
    rfl
  · have none : ∀ (others : List Catalog.Column) (start : Nat), (∀ other ∈ others, other.name ≠ col.cname) →
        (others.zipIdx start).filter (fun entry => decide (entry.1.name = col.cname)) = [] := by
      intro others start apart
      apply filter_eq_nil_iff.mpr
      intro entry member
      simpa using apart entry.1 (fst_mem_of_mem_zipIdx member)
    rw [columnOf, columns, zipIdx_append, zipIdx_cons, filter_append,
      none front _ fun other member => absent other (mem_append_left _ member),
      filter_cons_of_pos (by simp [name]), none later _ fun other member => absent other (mem_append_right _ member)]
    simp [length]
  · rw [columns, find?_append, find?_eq_none.mpr, none_or, find?_cons_of_pos]
    · simp [name]
    · intro other member
      simpa using absent other (mem_append_left _ member)
  · rw [LogicalSchema.position, parts, findIdx?_append, findIdx?_eq_none_iff.mpr, none_or,
      findIdx?_cons, col.equals_self]
    · simp
    · intro other member
      have apart : equalFold other.cname col.cname = false := by simpa using others other member
      simp [equals, apart]

theorem literal_equality {schema : LogicalSchema}
    {val : Value} (scanned : isEqualityScan tableAlias literal = some (some (col, val))) (row : Row) :
    Literal schema row literal ↔ val.isNull = false ∧ schema.reader row col = some val := by
  obtain ⟨address, left, right, rfl, operands⟩ := shape_equality scanned
  cases read : schema.reader row col with
  | none => rcases operands with ⟨rfl, rfl⟩ | ⟨rfl, rfl⟩ <;> simp [Literal, testWith, evalWith, read]
  | some held =>
    rw [some.injEq, ← equal_eval_iff held val]
    rcases operands with ⟨rfl, rfl⟩ | ⟨rfl, rfl⟩
    · simp [Literal, testWith, evalWith, read]
    · simp [Literal, testWith, evalWith, read, equal_eval_comm val]

def EqualityAt (scan : LogicalScanNode) (catalogTable : Catalog.Table) (colName : String) (eq : LogicalExpr × Value) : Prop :=
  ∃ i column, ColumnAt catalogTable colName i column ∧ column.type = eq.2.type ∧
    ∀ row : Row, Literal scan.rawOutputSchema row eq.1 ↔ eq.2.isNull = false ∧ row[i]? = some eq.2

theorem equalityAt (placed : Placed c db scan catalogTable table) {terms : List (List LogicalExpr)}
    (covered : TermsOver (scan.predicates.flatMap comparisons) terms) {term : List LogicalExpr} (inTerms : term ∈ terms)
    {colName : String} {eq : LogicalExpr × Value} (matched : equalityOn term scan.tableAlias colName = some (some eq)) :
    EqualityAt scan catalogTable colName eq := by
  obtain ⟨literal, val⟩ := eq
  obtain ⟨inside, col, scanned, rfl⟩ := equalityOn_spec matched
  obtain ⟨pred, inPreds, atom, spec, shape⟩ := literal_spec covered inTerms inside
  have plain : literal = atom := by
    rcases shape with same | ⟨address, rfl⟩
    · exact same
    · cases scanned
  subst plain
  obtain ⟨address, left, right, rfl, operands⟩ := shape_equality scanned
  have facts := operands.typed (spec.typed (scan.typed pred inPreds))
  have resolved := scan.resolved pred inPreds col (spec.columns col facts.1)
  obtain ⟨i, column, at', type, position⟩ := exists_columnAt placed resolved
  refine ⟨i, column, at', type.trans facts.2, fun row => ?_⟩
  rw [literal_equality scanned, LogicalSchema.reader, position, bind_some]

variable {eqs : List (LogicalExpr × Value)}

theorem values_eq_iff
    (matched : List.Forall₂ (EqualityAt scan catalogTable) cols eqs) (proper : ∀ eq ∈ eqs, eq.2.isNull = false)
    {row : Row} (wide : row.length = catalogTable.columns.length) :
    (cols.filterMap (columnOf catalogTable)).filterMap (row[·]?) = eqs.map Prod.snd ↔
      ∀ eq ∈ eqs, Literal scan.rawOutputSchema row eq.1 := by
  induction matched with
  | nil => simp
  | @cons colName eq cols eqs here matched ih =>
    obtain ⟨properHere, properLater⟩ := forall_mem_cons.mp proper
    obtain ⟨i, column, at', -, truth⟩ := here
    have inside : i < row.length := by
      rw [wide]
      exact (List.getElem?_eq_some_iff.mp at'.here).1
    rw [filterMap_cons_some at'.last, filterMap_cons_some (getElem?_eq_getElem inside), map_cons,
      cons.injEq, ih properLater, forall_mem_cons, truth, getElem?_eq_getElem inside, some.injEq,
      and_iff_right properHere]

def TypesAt (catalogTable : Catalog.Table) : List String → List FieldType → Prop :=
  List.Forall₂ fun colName type => ∃ i column, ColumnAt catalogTable colName i column ∧ column.type = type

theorem typesAt_equalities (matched : List.Forall₂ (EqualityAt scan catalogTable) cols eqs) :
    TypesAt catalogTable cols ((eqs.map Prod.snd).map type) := by
  induction matched with
  | nil => exact .nil
  | cons here _ ih =>
    obtain ⟨i, column, at', type, -⟩ := here
    exact .cons ⟨i, column, at', type⟩ ih

end

variable {types : List FieldType}

theorem types_of_typesAt (typesAt : TypesAt catalogTable cols types) : keyTypes catalogTable cols = some types ∧
      (cols.filterMap (columnOf catalogTable)).filterMap (fun i => (catalogTable.columns[i]?).map (·.type)) = types := by
  induction typesAt with
  | nil => exact ⟨rfl, rfl⟩
  | @cons colName type cols types here _ ih =>
    obtain ⟨i, column, at', same⟩ := here
    have known : (catalogTable.columns[i]?).map (·.type) = some type := by rw [at'.here, map_some, same]
    refine ⟨?_, ?_⟩
    · have rest : cols.mapM (fun colName => (catalogTable.columns.find? (·.name = colName)).map (·.type)) = some types := ih.1
      simp [keyTypes, mapM_cons, at'.first, same, rest]
    · rw [filterMap_cons_some at'.last]
      simp [known, ih.2]

theorem Consistent.fields_eq (agrees : Consistent catalogTable idx table index) {n : Nat}
    (typesAt : TypesAt catalogTable (idx.keySchema.take n) types) :
    index.metadata.projectionList = idx.keySchema.filterMap (columnOf catalogTable) ∧
      ∃ rest, index.metadata.keySchema.fields = types ++ rest ∧ rest.length = idx.keySchema.length - n := by
  have made := agrees.metadata
  simp only [indexMetadata, bind_eq_some, Option.pure_def, Option.some.injEq] at made
  obtain ⟨indices, positions, keyFields, typed, desc, described, same⟩ := made
  obtain ⟨found, rfl⟩ := mapM_eq_some_iff.mp positions
  obtain ⟨known, rfl⟩ := mapM_eq_some_iff.mp typed
  have fields : desc.fields = (idx.keySchema.filterMap (columnOf catalogTable)).filterMap
      fun i => (catalogTable.columns[i]?).map (·.type) := by
    unfold newRawTupleDesc at described
    split at described
    · cases described
      rfl
    · cases described
  rw [← same]
  have parts := take_append_drop n idx.keySchema
  refine ⟨rfl, ((idx.keySchema.drop n).filterMap (columnOf catalogTable)).filterMap
    fun i => (catalogTable.columns[i]?).map (·.type), ?_, ?_⟩
  · rw [← (types_of_typesAt typesAt).2, ← filterMap_append, ← filterMap_append, parts]
    exact fields
  · rw [filterMap_length_eq_length.mpr, filterMap_length_eq_length.mpr, length_drop]
    · exact fun colName member => found colName (mem_of_mem_drop member)
    · intro i member
      obtain ⟨colName, inside, here⟩ := mem_filterMap.mp member
      exact known i (mem_filterMap.mpr ⟨colName, mem_of_mem_drop inside, here⟩)

theorem Consistent.layout (agrees : Consistent catalogTable idx table index)
    (typesAt : TypesAt catalogTable idx.keySchema types) :
    index.metadata.projectionList = idx.keySchema.filterMap (columnOf catalogTable) ∧
      index.metadata.keySchema.fields = types := by
  rw [← take_length (l := idx.keySchema)] at typesAt
  obtain ⟨projection, rest, fields, none⟩ := agrees.fields_eq typesAt
  rw [Nat.sub_self] at none
  rw [length_eq_zero_iff.mp none, append_nil] at fields
  exact ⟨projection, fields⟩

theorem bytesOf_append (first second : List FieldType) : bytesOf (first ++ second) = bytesOf first + bytesOf second := by
  simp [bytesOf]

variable {values : List Value}

section
variable (agrees : Consistent catalogTable idx table index)

include agrees

section
variable (typesAt : TypesAt catalogTable (idx.keySchema.take values.length) (values.map type))

include typesAt

theorem Consistent.matchKey_eq : matchKey catalogTable idx values = some (values.flatMap writeTo) := by
  obtain ⟨-, rest, fields, -⟩ := agrees.fields_eq typesAt
  have fits : bytesOf (values.map type) ≤ pageSize - 32 := by
    have whole := index.metadata.keySchema.fits
    rw [fields, bytesOf_append] at whole
    omega
  rw [matchKey, (types_of_typesAt typesAt).1]
  exact makeMultiColumnKey_eq_some_iff.mpr ⟨rfl, fits, rfl⟩

theorem Consistent.bindKey_eq : bindKey index (values.flatMap writeTo) =
      if values.length = idx.keySchema.length then some (values.flatMap writeTo) else none := by
  obtain ⟨-, rest, fields, others⟩ := agrees.fields_eq typesAt
  have within : values.length ≤ idx.keySchema.length := by
    have lengths := typesAt.length_eq
    rw [length_take, length_map] at lengths
    omega
  have size : index.metadata.keySize = (values.flatMap writeTo).length + bytesOf rest := by
    rw [length_writeAll, IndexMetadata.keySize, RawTupleDesc.bytesPerTuple, fields, bytesOf_append]
  by_cases full : values.length = idx.keySchema.length
  · have empty : rest = [] := length_eq_zero_iff.mp (by omega)
    have exact : (values.flatMap writeTo).length = index.metadata.keySize := by rw [size, empty]; rfl
    rw [if_pos full, bindKey, if_pos exact.ge, IndexMetadata.asKey, take_of_length_le exact.le]
  · obtain ⟨type, types, rfl⟩ := exists_cons_of_length_pos (show 0 < rest.length by omega)
    have positive : 0 < type.size := by cases type <;> decide
    have short : ¬ index.metadata.keySize ≤ (values.flatMap writeTo).length := by
      simp only [bytesOf, map_cons, sum_cons] at size
      omega
    rw [if_neg full, bindKey, if_neg short]

end

theorem Consistent.bindKey_matchKey (typesAt : TypesAt catalogTable idx.keySchema (values.map type)) :
    (matchKey catalogTable idx values).bind (bindKey index) = some (values.flatMap writeTo) := by
  have full : values.length = idx.keySchema.length := by rw [typesAt.length_eq, length_map]
  have typesAt : TypesAt catalogTable (idx.keySchema.take values.length) (values.map type) := by
    rwa [full, take_length]
  rw [agrees.matchKey_eq typesAt, bind_some, agrees.bindKey_eq typesAt, if_pos full]

theorem Consistent.key_eq_iff (typed : values.map type = index.metadata.keySchema.fields)
    (kept : ∀ val ∈ values, val.stored = val)
    (stored : RecordID × RawTuple) : (rowEntry index.metadata table stored).1 = values.flatMap writeTo ↔
      keyValues index.metadata (table.rowOf stored) = values := by
  constructor
  · intro same
    have read := congrArg (readFields (values.map type)) same
    have held := agrees.values_key stored
    rw [RawTupleDesc.values, ← typed] at held
    rw [held, readFields_writeAll, List.map_congr_left (g := id) kept, List.map_id] at read
    exact read
  · rintro rfl
    rfl

end

end GoDB.Execution
