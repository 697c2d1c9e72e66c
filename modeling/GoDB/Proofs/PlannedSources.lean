import GoDB.Planner.LogicalPlanBuilder

/-! What the builder did when it returned a plan, and the scopes that FROM clauses give. -/

namespace GoDB.Planner.LogicalPlanBuilder
open Common Lib Catalog List

section Runs
variable {α β : Type} {s : State} {f : α → Builder β}

theorem bind_returns {x : Builder α} {r : β × State} :
    (x >>= f) s = .ok r ↔ ∃ a later, x s = .ok (a, later) ∧ f a later = .ok r := by
  change (x s >>= fun result => f result.1 result.2) = .ok r ↔ _
  rw [Outcome.bind_eq_ok, Prod.exists]

theorem lift_returns {x : Outcome PlanError α} {r : α × State} : lift x s = .ok r ↔ ∃ a, x = .ok a ∧ (a, s) = r := by
  change (x >>= fun a => .ok (a, s)) = .ok r ↔ _
  simp only [Outcome.bind_eq_ok, Outcome.ok.injEq]

variable {items : List α} {results : List β}

theorem mapM_returns {later : State} (returned : items.mapM f s = .ok (results, later)) :
    List.Forall₂ (fun a b => ∃ start stop, f a start = .ok (b, stop)) items results := by
  induction items generalizing s results with
  | nil =>
    rw [mapM_nil] at returned
    cases returned
    exact .nil
  | cons a rest ih =>
    rw [mapM_cons] at returned
    obtain ⟨b, between, first, others⟩ := bind_returns.mp returned
    obtain ⟨bs, _, below, last⟩ := bind_returns.mp others
    cases last
    exact .cons ⟨_, _, first⟩ (ih below)

theorem state_of_mapM (kept : ∀ a start b stop, f a start = .ok (b, stop) → stop = start)
    {later : State} (returned : items.mapM f s = .ok (results, later)) : later = s := by
  induction items generalizing s results with
  | nil =>
    rw [mapM_nil] at returned
    cases returned
    rfl
  | cons a rest ih =>
    rw [mapM_cons] at returned
    obtain ⟨b, between, first, others⟩ := bind_returns.mp returned
    obtain ⟨bs, _, below, last⟩ := bind_returns.mp others
    cases last
    rw [ih below, kept a _ b _ first]

end Runs

section Scopes
variable {c : SystemCatalog} {printer : SqlPrinter}

def Owned (scope : FromScope) : Prop :=
  ∀ source ∈ scope.sourceTables, ∀ col ∈ source.schema, col.origin = some source.tableRef

theorem owned_mergeScopes {left right : FromScope} (ownedLeft : Owned left) (ownedRight : Owned right) :
    Owned (mergeScopes left right) :=
  fun source inside => (mem_append.mp inside).elim (ownedLeft source) (ownedRight source)

variable {r : (FromScope × LogicalPlanNode) × State} {s : State}

theorem owned_of_planSubquery {select : SelectStatement} {tableAlias : String} {subPlan : LogicalPlanNode}
    (planned : planSubquery printer select tableAlias subPlan s = .ok r) : Owned r.1.1 := by
  obtain ⟨refID, _, -, rest⟩ := bind_returns.mp planned
  split at rest
  · cases rest
  · cases rest
    intro source inside col used
    rw [mem_singleton.mp inside] at used ⊢
    obtain ⟨column, -, rfl⟩ := mem_map.mp used
    rfl

variable [Identifiers]

theorem owned_of_planBaseTable {name tableAlias : String}
    (planned : planBaseTable c name tableAlias s = .ok r) : Owned r.1.1 := by
  obtain ⟨table, _, -, rest⟩ := bind_returns.mp planned
  obtain ⟨refID, _, -, last⟩ := bind_returns.mp rest
  cases last
  intro source inside col used
  rw [mem_singleton.mp inside] at used ⊢
  obtain ⟨column, -, rfl⟩ := mem_map.mp used
  rfl

theorem scope_of_planExplicitJoin {joinStr : JoinStr} {condition : JoinCondition} {left right : FromScope × LogicalPlanNode}
    (planned : planExplicitJoin printer joinStr condition left right s = .ok r) : r.1.1 = mergeScopes left.1 right.1 := by
  obtain ⟨on, _, -, rest⟩ := bind_returns.mp planned
  obtain ⟨using_, _, -, last⟩ := bind_returns.mp rest
  revert last
  cases joinTypeOf joinStr with
  | none =>
    intro last
    cases last
  | some joinType =>
    intro last
    cases last
    rfl

mutual

theorem owned_of_planFrom : {exprs : List TableExpr} → {s : State} → {r : (FromScope × LogicalPlanNode) × State} →
    planFrom c printer exprs s = .ok r → Owned r.1.1
  | [], _, _, planned => by cases planned
  | first :: rest, _, _, planned => by
    obtain ⟨left, _, plannedFirst, crossed⟩ := bind_returns.mp planned
    exact owned_of_planCross (owned_of_planTableExpr plannedFirst) crossed

theorem owned_of_planCross : {exprs : List TableExpr} → {left : FromScope × LogicalPlanNode} → {s : State} →
    {r : (FromScope × LogicalPlanNode) × State} → Owned left.1 → planCross c printer left exprs s = .ok r → Owned r.1.1
  | [], _, _, _, ownedLeft, planned => by
    cases planned
    exact ownedLeft
  | next :: rest, _, _, _, ownedLeft, planned => by
    obtain ⟨right, _, plannedNext, crossed⟩ := bind_returns.mp planned
    exact owned_of_planCross (owned_mergeScopes ownedLeft (owned_of_planTableExpr plannedNext)) crossed

theorem owned_of_planTableExpr : {expr : TableExpr} → {s : State} → {r : (FromScope × LogicalPlanNode) × State} →
    planTableExpr c printer expr s = .ok r → Owned r.1.1
  | .aliased expr as, _, _, planned => owned_of_planAliasedTable planned
  | .join leftExpr joinStr rightExpr condition, _, _, planned => by
    obtain ⟨left, _, plannedLeft, rest⟩ := bind_returns.mp planned
    obtain ⟨right, _, plannedRight, last⟩ := bind_returns.mp rest
    rw [scope_of_planExplicitJoin last]
    exact owned_mergeScopes (owned_of_planTableExpr plannedLeft) (owned_of_planTableExpr plannedRight)
  | .paren exprs, _, _, planned => owned_of_planFrom planned

theorem owned_of_planAliasedTable : {expr : SimpleTableExpr} → {as : String} → {s : State} →
    {r : (FromScope × LogicalPlanNode) × State} → planAliasedTable c printer as expr s = .ok r → Owned r.1.1
  | .tableName name, _, _, _, planned => owned_of_planBaseTable planned
  | .subquery select, _, _, _, planned => by
    obtain ⟨subPlan, _, -, last⟩ := bind_returns.mp planned
    exact owned_of_planSubquery last

end

end Scopes
end GoDB.Planner.LogicalPlanBuilder
