import GoDB.Planner.AsciiIdentifiers
import GoDB.Planner.LogicalPlanBuilder

/-! The column that `bindColumn` finds for a reference. A source whose alias starts
like that of an aggregation is searched whatever the qualifier says. -/

namespace GoDB.Planner.LogicalPlanBuilder
open Common Lib Catalog List

variable {col : LogicalColumn}

theorem onlyColumn_eq_ok {found : List LogicalColumn} {ambiguous absent : PlanError} :
    onlyColumn found ambiguous absent = .ok col ↔ found = [col] := by
  cases found with
  | nil => simp [onlyColumn]
  | cons first rest => cases rest <;> simp [onlyColumn]

variable {scope : FromScope} {qualifier name : String}

theorem visible_unqualified (scope : FromScope) : scope.visible "" = scope.sourceTables := by simp [FromScope.visible]

theorem mem_visible {source : SourceTable} : source ∈ scope.visible qualifier ↔ source ∈ scope.sourceTables ∧
      (qualifier = "" ∨ source.isAggregated = true ∨ source.tableRef.tableAlias = qualifier) := by
  simp [FromScope.visible, or_assoc]

theorem isAggregated_aggregatedScope (refID : Nat) (schema : LogicalSchema) :
    ∀ source ∈ (aggregatedScope refID schema).sourceTables, source.isAggregated = true := by
  intro source inside
  rw [mem_singleton.mp inside]
  have text : ("agg_" ++ toString refID).toList = 'a' :: 'g' :: 'g' :: '_' :: (toString refID).toList :=
    String.toList_append
  rw [SourceTable.isAggregated, text]
  rfl

section Qualifiers
variable [Identifiers]

theorem bindColumn_eq_ok :
    bindColumn scope qualifier name = .ok col ↔ columnsNamed (scope.visible qualifier) name = [col] :=
  onlyColumn_eq_ok

theorem bindUnqualifiedCol_eq_ok : bindUnqualifiedCol scope name = .ok col ↔ columnsNamed scope.sourceTables name = [col] :=
  onlyColumn_eq_ok

theorem mem_columnsNamed {sources : List SourceTable} :
    col ∈ columnsNamed sources name ↔ (∃ source ∈ sources, col ∈ source.schema) ∧ equalString name col.cname = true := by
  simp [columnsNamed]

variable (scope : FromScope)

/-- The scope after an aggregation. Its columns are those of other sources, or of none. -/
def IsAggregation : Prop := ∃ refID schema, scope = aggregatedScope refID schema

/-- The column is one of a source with that alias, or came from one through an aggregation. -/
def BelongsTo (qualifier : String) (col : LogicalColumn) : Prop :=
  (∃ source ∈ scope.sourceTables, source.tableRef.tableAlias = qualifier ∧ col ∈ source.schema) ∨
    IsAggregation scope ∧ ∃ origin, col.origin = some origin ∧ origin.tableAlias = qualifier

/-- What is expected of the column that a reference is bound to. -/
def Resolves (qualifier name : String) (col : LogicalColumn) : Prop :=
  (qualifier ≠ "" → BelongsTo scope qualifier col) ∧ (qualifier = "" → columnsNamed scope.sourceTables name = [col])

theorem mem_visible_of_belongsTo {scope : FromScope} {qualifier name : String} {col : LogicalColumn}
    (named : col ∈ columnsNamed scope.sourceTables name) (belongs : BelongsTo scope qualifier col) :
    col ∈ columnsNamed (scope.visible qualifier) name := by
  obtain ⟨⟨source, listed, inside⟩, folded⟩ := mem_columnsNamed.mp named
  rcases belongs with ⟨own, ownListed, sameAlias, ownInside⟩ | ⟨⟨refID, schema, rfl⟩, -⟩
  · exact mem_columnsNamed.mpr ⟨⟨own, mem_visible.mpr ⟨ownListed, .inr (.inr sameAlias)⟩, ownInside⟩, folded⟩
  · have searched := isAggregated_aggregatedScope refID schema source listed
    exact mem_columnsNamed.mpr ⟨⟨source, mem_visible.mpr ⟨listed, .inr (.inl searched)⟩, inside⟩, folded⟩

/-- A reference that is accepted is bound to the right column just where there is one: it is never bound to a
wrong column in place of a right one, but may be bound to a wrong one for want of it. -/
theorem bound_column_resolves_iff {scope : FromScope} {qualifier name : String} {col : LogicalColumn}
    (accepted : bindColumn scope qualifier name = .ok col) :
    Resolves scope qualifier name col ↔
      qualifier = "" ∨ ∃ other ∈ columnsNamed scope.sourceTables name, BelongsTo scope qualifier other := by
  have found := bindColumn_eq_ok.mp accepted
  have named : col ∈ columnsNamed scope.sourceTables name := by
    have searched : col ∈ columnsNamed (scope.visible qualifier) name := found ▸ mem_singleton_self col
    obtain ⟨⟨source, visible, inside⟩, folded⟩ := mem_columnsNamed.mp searched
    exact mem_columnsNamed.mpr ⟨⟨source, (mem_visible.mp visible).1, inside⟩, folded⟩
  constructor
  · rintro ⟨qualified, -⟩
    by_cases empty : qualifier = ""
    · exact .inl empty
    · exact .inr ⟨col, named, qualified empty⟩
  · intro offered
    refine ⟨fun given => ?_, fun empty => ?_⟩
    · obtain ⟨other, otherNamed, belongs⟩ := offered.resolve_left given
      have same := mem_visible_of_belongsTo otherNamed belongs
      rw [found, mem_singleton] at same
      rwa [← same]
    · rwa [empty, visible_unqualified] at found

end Qualifiers

open Ascii

def users : SourceTable := ⟨⟨"users", 1⟩, columnsOf ⟨"users", 1⟩ [⟨"id", .int⟩, ⟨"name", .string⟩], none⟩

def orders : SourceTable := ⟨⟨"orders", 2⟩, columnsOf ⟨"orders", 2⟩ [⟨"id", .int⟩, ⟨"user", .int⟩], none⟩

theorem id_of_orders_resolves : bindColumn ⟨[users, orders]⟩ "orders" "ID" = .ok ⟨"id", .int, some ⟨"orders", 2⟩⟩ ∧
      Resolves ⟨[users, orders]⟩ "orders" "ID" ⟨"id", .int, some ⟨"orders", 2⟩⟩ := by
  refine ⟨rfl, (bound_column_resolves_iff rfl).mpr (.inr ⟨⟨"id", .int, some ⟨"orders", 2⟩⟩, by decide, ?_⟩)⟩
  exact .inl ⟨orders, mem_cons_of_mem _ (mem_singleton_self _), rfl, mem_cons_self⟩

def aggiesAndUsers : SystemCatalog :=
  .ofState ⟨2, [⟨1, "aggies", [⟨"id", .int⟩], []⟩, ⟨2, "users", [⟨"name", .string⟩], []⟩]⟩

def fromAggiesAndUsers : List TableExpr := [.aliased (.tableName "aggies") "", .aliased (.tableName "users") ""]

/-- For statements without calls and subqueries. -/
def silentPrinter : SqlPrinter := ⟨fun _ => "", fun _ => "", fun _ => ""⟩

/-- `users.id` is bound to the column of another table, and after `GROUP BY name` a reference to a table that the
query does not have is bound to the column of `users`. -/
theorem foreign_qualifier_bound : (∃ scope plan after col,
        planFrom aggiesAndUsers silentPrinter fromAggiesAndUsers newLogicalPlanBuilder = .ok ((scope, plan), after) ∧
          bindColumn scope "users" "id" = .ok col ∧ ¬ Resolves scope "users" "id" col) ∧
      ∃ col, bindColumn (aggregatedScope 3 [⟨"name", .string, some ⟨"users", 2⟩⟩]) "orders" "name" = .ok col ∧
        ¬ Resolves (aggregatedScope 3 [⟨"name", .string, some ⟨"users", 2⟩⟩]) "orders" "name" col := by
  refine ⟨⟨_, _, _, _, rfl, rfl, ?_⟩, _, rfl, ?_⟩
  · intro resolves
    rcases resolves.1 (by decide) with own | ⟨⟨refID, schema, aggregated⟩, -⟩
    · revert own
      decide
    · cases congrArg (·.sourceTables.length) aggregated
  · intro resolves
    rcases resolves.1 (by decide) with own | ⟨-, origin, came, sameAlias⟩
    · revert own
      decide
    · cases came
      revert sameAlias
      decide

end GoDB.Planner.LogicalPlanBuilder
