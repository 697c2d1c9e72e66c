import GoDB.Lib.Partial
import GoDB.Proofs.ColumnResolution
import GoDB.Proofs.PlannedSources

/-! What the builder returns for a SELECT and for an INSERT. -/

namespace GoDB.Planner.LogicalPlanBuilder
open Common Lib Catalog LogicalPlanNode

variable [Identifiers] {c : SystemCatalog} {printer : SqlPrinter} {before after : State}

section Selects

def IsSelection (plan : LogicalPlanNode) : Prop :=
  ∃ child, ∃ items : List (LogicalExpr × LogicalColumn),
    plan = newLogicalProjectionNode child (items.map Prod.fst) (items.map Prod.snd) ∧
      ∀ item ∈ items, item.2.ctype = item.1.outputType

theorem ctype_selectedColumn (projExpr : LogicalExpr) (as : String) :
    (selectedColumn projExpr as).ctype = projExpr.outputType := by
  cases projExpr <;> rfl

variable {scope : FromScope}

theorem types_of_bindSelectExpr {plan : LogicalPlanNode} {expr : SelectExpr}
    {items : List (LogicalExpr × LogicalColumn)} (bound : bindSelectExpr printer plan scope expr before = .ok (items, after)) :
    ∀ item ∈ items, item.2.ctype = item.1.outputType := by
  cases expr with
  | aliased expr as =>
    obtain ⟨projExpr, _, -, last⟩ := bind_returns.mp bound
    cases last
    intro item inside
    rw [List.mem_singleton.mp inside]
    exact ctype_selectedColumn projExpr as
  | star tableName =>
    cases bound
    intro item inside
    obtain ⟨col, -, rfl⟩ := List.mem_map.mp inside
    rfl
  | nextval text => cases bound

theorem isSelection_of_planClauses {plan result : LogicalPlanNode} {selectExprs : List SelectExpr}
    {whereExpr having : Option SqlExpr} {groupBy : List SqlExpr} {orderBy : List Order} {limitStmt : Option Limit}
    (planned : planClauses printer scope plan selectExprs whereExpr groupBy having orderBy limitStmt before =
      .ok (result, after)) : IsSelection result := by
  obtain ⟨filtered, _, -, rest⟩ := bind_returns.mp planned
  obtain ⟨grouped, _, -, rest⟩ := bind_returns.mp rest
  obtain ⟨ordered, _, -, rest⟩ := bind_returns.mp rest
  obtain ⟨limited, _, -, rest⟩ := bind_returns.mp rest
  obtain ⟨items, _, bound, last⟩ := bind_returns.mp rest
  cases last
  refine ⟨limited, items.flatten, rfl, fun item inside => ?_⟩
  obtain ⟨group, listed, inside⟩ := List.mem_flatten.mp inside
  obtain ⟨expr, -, start, stop, boundHere⟩ := exists_left_of_forall₂ (mapM_returns bound) group listed
  exact types_of_bindSelectExpr boundHere item inside

theorem isSelection_of_planSelect : {select : SelectStatement} → {before after : State} → {plan : LogicalPlanNode} →
    planSelect c printer select before = .ok (plan, after) → IsSelection plan
  | .select _ _ _ _ _ _ _ _, _, _, _, planned => by
    obtain ⟨source, _, -, clauses⟩ := bind_returns.mp planned
    exact isSelection_of_planClauses clauses
  | .parenSelect select, _, _, _, planned => @isSelection_of_planSelect select _ _ _ planned
  | .union, _, _, _, planned => by cases planned

end Selects

section Inserts
variable {tableName : String} {listed : List String}

def Names (tableRef : TableRef) (columns : List Column) (name : String) (col : LogicalColumn) : Prop :=
  (columnsOf tableRef columns).filter (equalString name ·.cname) = [col]

variable {tableRef : TableRef} {columns : List Column} {col : LogicalColumn}

theorem names_of_bindUnqualifiedCol {name : String}
    (bound : bindUnqualifiedCol ⟨[⟨tableRef, columnsOf tableRef columns, none⟩]⟩ name = .ok col) :
    Names tableRef columns name col := by
  simpa [columnsNamed, Names] using bindUnqualifiedCol_eq_ok.mp bound

theorem insertColumn_returns {name : String} (returned : (do
      let boundCol ← lift ((bindUnqualifiedCol ⟨[⟨tableRef, columnsOf tableRef columns, none⟩]⟩ name).mapError
        (.insertColumn (compliantName name)))
      if boundCol.origin = some tableRef then return boundCol else fail (.insertForeign (compliantName name)) :
        Builder LogicalColumn) before = .ok (col, after)) :
    Names tableRef columns name col ∧ after = before := by
  obtain ⟨boundCol, later, found, rest⟩ := bind_returns.mp returned
  obtain ⟨_, bound, same⟩ := lift_returns.mp found
  cases same
  split at rest
  · cases rest
    exact ⟨names_of_bindUnqualifiedCol (Outcome.mapError_eq_ok.mp bound), rfl⟩
  · cases rest

theorem insertSchema_returns {logicalSchema : LogicalSchema}
    (explicit : listed ≠ []) (returned : insertSchema tableRef columns listed before = .ok (logicalSchema, after)) :
    List.Forall₂ (Names tableRef columns) listed logicalSchema ∧ after = before := by
  rw [insertSchema, if_neg (by simpa using explicit)] at returned
  refine ⟨(mapM_returns returned).imp fun name col run => ?_, state_of_mapM (fun _ _ _ _ run => ?_) returned⟩
  · obtain ⟨start, stop, run⟩ := run
    exact (insertColumn_returns run).1
  · exact (insertColumn_returns run).2

variable {plan : LogicalPlanNode}

theorem planRows_select {select : SelectStatement}
    (planned : planRows c printer (.select select) before = .ok (plan, after)) :
    planSelect c printer select before = .ok (plan, after) := by
  cases select with
  | select => exact planned
  | parenSelect => exact planned
  | union => cases planned

/-- The source is planned with the state that the reference to the table leaves. -/
def State.next (s : State) : State := { s with currentTableRefID := s.currentTableRefID + 1 }

theorem planInsert_returns {rows : InsertRows}
    (planned : planInsert c printer tableName listed rows before = .ok (plan, after)) :
    ∃ table logicalSchema later sourceNode, c.getTableMetadata tableName = .ok table ∧
      insertSchema ⟨tableName, before.currentTableRefID⟩ table.columns listed before.next = .ok (logicalSchema, later) ∧
        planRows c printer rows later = .ok (sourceNode, after) ∧
          logicalSchema.length = sourceNode.outputSchema.length ∧ plan = newLogicalInsertNode table.oid
            (alignedSource ⟨tableName, before.currentTableRefID⟩ table.columns logicalSchema sourceNode) := by
  obtain ⟨table, _, found, rest⟩ := bind_returns.mp planned
  obtain ⟨_, metadata, same⟩ := lift_returns.mp found
  cases same
  obtain ⟨refID, _, next, rest⟩ := bind_returns.mp rest
  cases next
  obtain ⟨logicalSchema, later, schema, rest⟩ := bind_returns.mp rest
  obtain ⟨sourceNode, _, source, last⟩ := bind_returns.mp rest
  split at last
  next same =>
    cases last
    exact ⟨table, logicalSchema, later, sourceNode, Outcome.ofExcept_eq_ok.mp metadata, schema, source, same, rfl⟩
  next => cases last

end Inserts
end GoDB.Planner.LogicalPlanBuilder
