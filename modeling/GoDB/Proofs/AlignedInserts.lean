import GoDB.Planner.OperatorRules
import GoDB.Proofs.PlannedInserts

/-! Where the values of a SELECT go that is inserted into listed columns. The
columns of the source are looked up by their names once more when the projection
that puts them in order is fused with that of the SELECT. -/

namespace GoDB.Planner.LogicalPlanBuilder
open Common Lib Catalog LogicalPlanNode PhysicalPlanBuilder List Option ProjectionRule Outcome

theorem mem_of_sourceColumn {logicalSchema schema : LogicalSchema} {name : String} {v : LogicalColumn}
    (found : sourceColumn logicalSchema schema name = some v) : ∃ i : Nat, schema[i]? = some v := by
  obtain ⟨⟨col, _⟩, taken, rfl⟩ := Option.map_eq_some_iff.mp found
  have inside := mem_reverse.mp (mem_of_find?_eq_some taken)
  exact mem_iff_getElem?.mp (of_mem_zip inside).2

section
variable [Identifiers]

section Names

def NoneTwice (listed : List String) : Prop := listed.Pairwise fun name later => equalString name later = false

theorem NoneTwice.unique {listed : List String} (once : NoneTwice listed) {i j : Nat} {name other : String}
    (first : listed[i]? = some name) (second : listed[j]? = some other) (same : equalString name other = true) : i = j := by
  obtain ⟨insideFirst, rfl⟩ := List.getElem?_eq_some_iff.mp first
  obtain ⟨insideSecond, rfl⟩ := List.getElem?_eq_some_iff.mp second
  have apart := pairwise_iff_getElem.mp once
  rcases Nat.lt_trichotomy i j with before | rfl | after
  · rw [apart i j insideFirst insideSecond before] at same
    cases same
  · rfl
  · have differ := apart j i insideSecond insideFirst after
    rw [equalString_equivalence.symm same] at differ
    cases differ

variable {tableRef : TableRef} {columns : List Column} {name : String} {col : LogicalColumn} {j : Nat} {tableCol : Column}

section
variable (names : Names tableRef columns name col)

include names

theorem Names.exists : equalString name col.cname = true ∧
      ∃ (j : Nat) (tableCol : Column), columns[j]? = some tableCol ∧ col = ⟨tableCol.name, tableCol.type, some tableRef⟩ := by
  have inside : col ∈ (columnsOf tableRef columns).filter (equalString name ·.cname) := names ▸ mem_singleton_self col
  obtain ⟨listed, folded⟩ := mem_filter.mp inside
  obtain ⟨tableCol, inTable, rfl⟩ := mem_map.mp listed
  obtain ⟨j, here⟩ := mem_iff_getElem?.mp inTable
  exact ⟨folded, j, tableCol, here, rfl⟩

theorem Names.eq (here : tableCol ∈ columns)
    (folded : equalString name tableCol.name = true) : col = ⟨tableCol.name, tableCol.type, some tableRef⟩ := by
  have inside : (⟨tableCol.name, tableCol.type, some tableRef⟩ : LogicalColumn) ∈
      (columnsOf tableRef columns).filter (equalString name ·.cname) :=
    mem_filter.mpr ⟨mem_map.mpr ⟨tableCol, here, rfl⟩, folded⟩
  rw [names] at inside
  exact (mem_singleton.mp inside).symm

theorem Names.place {k : Nat} {other : Column}
    (here : columns[j]? = some tableCol) (there : columns[k]? = some other) (folded : equalString name tableCol.name = true)
    (foldedToo : equalString name other.name = true) : j = k := by
  have column {l : Nat} {any : Column} (found : columns[l]? = some any) :
      (columnsOf tableRef columns)[l]? = some ⟨any.name, any.type, some tableRef⟩ := by
    rw [columnsOf, getElem?_map, found, map_some]
  exact place_of_filter_singleton names (column here) (column there) folded foldedToo

end

end Names

section Fusion
variable {schema : LogicalSchema} {selected : List PhysicalExpr}

/-- The select item that is taken for the one at `i`: the first whose column equals that of the item at `i`. -/
def takenFor (schema : LogicalSchema) (i : Nat) : Option Nat := schema[i]?.bind fun col => schema.findIdx? (col.equals ·)

theorem fuse_column (wide : selected.length = schema.length) {i : Nat} {v : LogicalColumn} (here : schema[i]? = some v) :
    ∃ first p, takenFor schema i = some first ∧ selected[first]? = some p ∧
      fuseProjectionIntoExpr schema selected (.column v) = .ok p := by
  have found : (schema.findIdx? (v.equals ·)).isSome = true := by
    rw [List.findIdx?_isSome, List.any_eq_true]
    exact ⟨v, mem_of_getElem? here, v.equals_self⟩
  obtain ⟨first, position⟩ := Option.isSome_iff_exists.mp found
  obtain ⟨below, -⟩ := findIdx?_eq_some_iff_getElem.mp position
  have inside : first < selected.length := wide ▸ below
  refine ⟨first, selected[first], by rw [takenFor, here, bind_some, position], getElem?_eq_getElem inside, ?_⟩
  simp [fuseProjectionIntoExpr, Expr.graft, fuseColumn, position, inside, ofOption]

variable {expressions : List LogicalExpr} {child : LogicalPlanNode}

theorem apply_fused {base : PlanNode} {fused : List PhysicalExpr}
    (made : expressions.mapM (fuseProjectionIntoExpr child.outputSchema selected) = .ok fused) :
    apply expressions child (.projection base selected) = some (.projection base fused) := by
  rw [apply, made]

variable {out : List PhysicalExpr}

theorem length_separate {childPlan base : PlanNode}
    (applied : separate expressions child childPlan = some (.projection base out)) :
    out.length = expressions.length := by
  obtain ⟨bound, made, same⟩ := bind_eq_some.mp applied
  cases same
  exact length_mapM made

theorem length_projection {childPlan base : PlanNode}
    (applied : apply expressions child childPlan = some (.projection base out)) :
    out.length = expressions.length := by
  unfold apply at applied
  split at applied
  next below childExpressions =>
    split at applied
    next fused made =>
      cases applied
      exact (mapM_eq_ok.mp made).length_eq.symm
    next => exact length_separate applied
    next => cases applied
  next => exact length_separate applied

end Fusion

section Alignment

def valueAt (exprs : List PhysicalExpr) (i : Nat) (row : Row) : Option Value := exprs[i]?.bind (·.eval row)

/-- Each listed column is inserted the value that is selected for it, and every other column NULL. -/
structure Aligned (columns : List Column) (listed : List String) (selected inserted : List PhysicalExpr) (row : Row) :
    Prop where
  given : ∀ (i j : Nat) (name : String) (tableCol : Column), listed[i]? = some name → columns[j]? = some tableCol →
    equalString name tableCol.name = true → valueAt inserted j row = valueAt selected i row
  others : ∀ (j : Nat) (tableCol : Column), columns[j]? = some tableCol →
    (∀ name ∈ listed, equalString name tableCol.name = false) → valueAt inserted j row = some (.null tableCol.type)

def InOrder (columns : List Column) (listed : List String) : Prop :=
  List.Forall₂ (fun name tableCol => equalString name tableCol.name = true) listed columns

variable {tableRef : TableRef} {columns : List Column} {listed : List String} {logicalSchema schema : LogicalSchema}
  {selected inserted : List PhysicalExpr}

theorem sameColumns_iff {part : List Column} (inside : ∀ tableCol ∈ part, tableCol ∈ columns)
    (names : List.Forall₂ (Names tableRef columns) listed logicalSchema) :
    List.Forall₂ (fun col tableCol => (col.cname, col.ctype) = (tableCol.name, tableCol.type)) logicalSchema part ↔
      List.Forall₂ (fun name tableCol => equalString name tableCol.name = true) listed part := by
  induction names generalizing part with
  | nil => simp
  | @cons name col _ _ named _ ih =>
    cases part with
    | nil => simp
    | cons tableCol part =>
      obtain ⟨here, later⟩ := forall_mem_cons.mp inside
      rw [forall₂_cons, forall₂_cons, ih later]
      refine and_congr_left' ⟨fun same => ?_, fun folded => ?_⟩
      · rw [← (Prod.mk.inj same).1]
        exact named.exists.1
      · rw [named.eq here folded]

section Listed
variable (names : List.Forall₂ (Names tableRef columns) listed logicalSchema)

include names

theorem exactMatch_iff : exactMatch logicalSchema columns = true ↔ InOrder columns listed := by
  rw [exactMatch, decide_eq_true_eq, ← forall₂_eq_eq_eq, forall₂_map_left_iff, forall₂_map_right_iff]
  exact sameColumns_iff (fun _ inside => inside) names

theorem sourceColumn_given (width : logicalSchema.length = schema.length) (once : NoneTwice listed) {i j : Nat}
    {name : String} {tableCol : Column} (listedAt : listed[i]? = some name) (here : columns[j]? = some tableCol)
    (folded : equalString name tableCol.name = true) :
    ∃ v, schema[i]? = some v ∧ sourceColumn logicalSchema schema tableCol.name = some v := by
  obtain ⟨col, atCol, named⟩ := getElem?_of_forall₂ names listedAt
  have sameName : col.cname = tableCol.name := by rw [named.eq (mem_of_getElem? here) folded]
  have below : i < schema.length := width ▸ (List.getElem?_eq_some_iff.mp atCol).1
  refine ⟨schema[i], getElem?_eq_getElem below, ?_⟩
  have inside : (col, schema[i]) ∈ (logicalSchema.zip schema).reverse := by
    rw [mem_reverse]
    exact mem_of_getElem? (getElem?_zip_eq_some.mpr ⟨atCol, getElem?_eq_getElem below⟩)
  have found : ((logicalSchema.zip schema).reverse.find? (·.1.cname = tableCol.name)).isSome = true := by
    rw [find?_isSome]
    exact ⟨_, inside, decide_eq_true sameName⟩
  obtain ⟨⟨other, v⟩, taken⟩ := Option.isSome_iff_exists.mp found
  -- Another item for the same column would be listed under the same name.
  obtain ⟨k, pair⟩ := mem_iff_getElem?.mp (mem_reverse.mp (mem_of_find?_eq_some taken))
  obtain ⟨atOther, atValue⟩ := getElem?_zip_eq_some.mp pair
  obtain ⟨otherName, otherListed, otherNamed⟩ := getElem?_of_forall₂ names.flip atOther
  have sameOther : other.cname = tableCol.name := by simpa using find?_some taken
  have foldedOther : equalString otherName tableCol.name = true := sameOther ▸ (Names.exists otherNamed).1
  have same := once.unique listedAt otherListed
    (equalString_equivalence.trans folded (equalString_equivalence.symm foldedOther))
  subst same
  rw [sourceColumn, taken, map_some]
  exact atValue.symm.trans (getElem?_eq_getElem below)

theorem sourceColumn_others {tableCol : Column} (unlisted : ∀ name ∈ listed, equalString name tableCol.name = false) :
    sourceColumn logicalSchema schema tableCol.name = none := by
  rw [sourceColumn, map_eq_none_iff, find?_eq_none]
  intro pair inside sameName
  obtain ⟨col, v⟩ := pair
  have listedCol := (of_mem_zip (mem_reverse.mp inside)).1
  obtain ⟨name, given, named⟩ := exists_left_of_forall₂ names col listedCol
  have folded := named.exists.1
  rw [of_decide_eq_true sameName, unlisted name given] at folded
  cases folded

theorem aligned_inOrder (order : InOrder columns listed) (selected : List PhysicalExpr) (row : Row) :
    Aligned columns listed selected selected row where
  given i j name tableCol listedAt here folded := by
    obtain ⟨col, -, named⟩ := getElem?_of_forall₂ names listedAt
    obtain ⟨own, ownHere, ownFolded⟩ := getElem?_of_forall₂ order listedAt
    rw [named.place here ownHere folded ownFolded]
  others j tableCol here unlisted := by
    obtain ⟨name, listedAt, folded⟩ := exists_left_of_forall₂ order tableCol (mem_of_getElem? here)
    rw [unlisted name listedAt] at folded
    cases folded

end Listed

theorem exists_fused (wide : selected.length = schema.length) (columns : List Column) :
    ∃ fused, (columns.map (alignedExpr logicalSchema schema)).mapM (fuseProjectionIntoExpr schema selected) =
      .ok fused := by
  induction columns with
  | nil => exact ⟨[], rfl⟩
  | cons tableCol rest ih =>
    obtain ⟨later, made⟩ := ih
    have first : ∃ p, fuseProjectionIntoExpr schema selected (alignedExpr logicalSchema schema tableCol) = .ok p := by
      unfold alignedExpr
      split
      next v found =>
        obtain ⟨i, here⟩ := mem_of_sourceColumn found
        obtain ⟨-, p, -, -, fused⟩ := fuse_column wide here
        exact ⟨p, fused⟩
      next => exact ⟨_, rfl⟩
    obtain ⟨p, fused⟩ := first
    exact ⟨p :: later, mapM_eq_ok.mpr (.cons fused (mapM_eq_ok.mp made))⟩

def Fuses (schema : LogicalSchema) (selected : List PhysicalExpr) (exprs : List LogicalExpr) (inserted : List PhysicalExpr) :
    Prop :=
  List.Forall₂ (fun e p => fuseProjectionIntoExpr schema selected e = .ok p) exprs inserted

variable {row : Row} {i j : Nat} {name : String} {tableCol : Column}

variable (fused : Fuses schema selected (columns.map (alignedExpr logicalSchema schema)) inserted)

include fused

theorem fused_at (here : columns[j]? = some tableCol) : ∃ p, inserted[j]? = some p ∧
      fuseProjectionIntoExpr schema selected (alignedExpr logicalSchema schema tableCol) = .ok p := by
  apply getElem?_of_forall₂ fused
  rw [getElem?_map, here, map_some]

variable (names : List.Forall₂ (Names tableRef columns) listed logicalSchema)

include names

theorem valueAt_given (width : logicalSchema.length = schema.length) (wide : selected.length = schema.length)
    (once : NoneTwice listed) (listedAt : listed[i]? = some name) (here : columns[j]? = some tableCol)
    (folded : equalString name tableCol.name = true) :
    ∃ first, takenFor schema i = some first ∧ valueAt inserted j row = valueAt selected first row := by
  obtain ⟨v, atValue, source⟩ := sourceColumn_given names width once listedAt here folded
  obtain ⟨p, atPlace, made⟩ := fused_at fused here
  obtain ⟨first, q, taken, atFirst, fusedColumn⟩ := fuse_column wide atValue
  rw [alignedExpr, source] at made
  cases fusedColumn.symm.trans made
  exact ⟨first, taken, by rw [valueAt, valueAt, atPlace, atFirst]⟩

theorem valueAt_others (here : columns[j]? = some tableCol)
    (unlisted : ∀ name ∈ listed, equalString name tableCol.name = false) :
    valueAt inserted j row = some (.null tableCol.type) := by
  obtain ⟨p, atPlace, made⟩ := fused_at fused here
  rw [alignedExpr, sourceColumn_others names unlisted] at made
  cases made
  rw [valueAt, atPlace]
  rfl

def SameValues (schema : LogicalSchema) (selected : List PhysicalExpr) (row : Row) : Prop :=
  ∀ i first, takenFor schema i = some first → valueAt selected first row = valueAt selected i row

theorem aligned_iff (width : logicalSchema.length = schema.length) (wide : selected.length = schema.length)
    (once : NoneTwice listed) (row : Row) : Aligned columns listed selected inserted row ↔ SameValues schema selected row := by
  constructor
  · intro aligned i first taken
    obtain ⟨v, atValue, -⟩ := bind_eq_some.mp taken
    have below : i < listed.length := by
      rw [names.length_eq, width]
      exact (List.getElem?_eq_some_iff.mp atValue).1
    have listedAt : listed[i]? = some listed[i] := getElem?_eq_getElem below
    obtain ⟨col, -, named⟩ := getElem?_of_forall₂ names listedAt
    obtain ⟨folded, j, tableCol, here, rfl⟩ := named.exists
    obtain ⟨other, takenToo, same⟩ := @valueAt_given _ _ _ _ _ _ _ _ row _ _ _ _ fused names width wide once listedAt here folded
    cases taken.symm.trans takenToo
    rw [← same, aligned.given i j _ tableCol listedAt here folded]
  · intro same
    refine ⟨fun i j name tableCol listedAt here folded => ?_, fun j tableCol here unlisted => ?_⟩
    · obtain ⟨first, taken, moved⟩ := valueAt_given fused names width wide once listedAt here folded
      rw [moved, same i first taken]
    · exact valueAt_others fused names here unlisted

end Alignment

variable {c : SystemCatalog} {printer : SqlPrinter} {tableName : String} {listed : List String} {select : SelectStatement}
  {before after : State} {table : CatalogTable} {oid : ObjectID} {selectPlan source : LogicalPlanNode}
  {required : LogicalSchema} {other : LogicalPlanNode → Option PlanNode} {base below : PlanNode}
  {selected inserted : List PhysicalExpr}

theorem length_selected (selection : IsSelection selectPlan)
    (built : build other selectPlan = some (.projection base selected)) :
    selected.length = selectPlan.outputSchema.length := by
  obtain ⟨child, items, rfl, -⟩ := selection
  obtain ⟨childPlan, -, applied⟩ := bind_eq_some.mp built
  simpa [newLogicalProjectionNode, outputSchema] using length_projection applied

end

section Copies
open Ascii

def copyColumns : List Column := [⟨"a", .int⟩, ⟨"b", .int⟩]

def copyCatalog : SystemCatalog := .ofState ⟨2, [⟨1, "t", copyColumns, []⟩, ⟨2, "s", [⟨"x", .int⟩, ⟨"y", .int⟩], []⟩]⟩

/-- `SELECT x AS …, y AS … FROM s`. -/
def selectBoth (first second : String) : SelectStatement :=
  .select false [.aliased (.colName "" "x") first, .aliased (.colName "" "y") second] [.aliased (.tableName "s") ""]
    none [] none [] none

def seqScans : LogicalPlanNode → Option PlanNode
  | .scan _ tableOid rawOutputSchema _ _ _ => some (.seqScan tableOid (rawOutputSchema.map (·.ctype)))
  | _ => none

def columnX : PhysicalExpr := .column ⟨0, .int, "x"⟩

def columnY : PhysicalExpr := .column ⟨1, .int, "y"⟩

end Copies
end GoDB.Planner.LogicalPlanBuilder
