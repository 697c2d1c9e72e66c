import GoDB.Planner.PredicatePushDown
import GoDB.Proofs.BoundTypes
import GoDB.Proofs.ColumnOrigins
import GoDB.Proofs.PlannedSources

/-! Whether the rules for indexes return on the predicates of the front end. The
binder accepts a column, a constant or a sum for a condition, which the conversion
to terms takes under a NOT only. -/

namespace GoDB.Planner
open Common Lib Option

namespace LogicalPlanBuilder
open Catalog

/-- AND, OR and NOT over comparisons. Under an odd number of NOTs everything else is taken as well. -/
def isConvertible (negated : Bool) : SqlExpr → Bool
  | .comparison _ _ _ => true
  | .and left right | .or left right => isConvertible negated left && isConvertible negated right
  | .not expr => isConvertible (!negated) expr
  | .paren expr => isConvertible negated expr
  | .colName _ _ | .sqlVal _ _ | .nullVal | .binary _ _ _ | .is _ _ | .func _ _ _ | .other _ _ => negated

variable {printer : SqlPrinter} {scope : FromScope} {address : Nat} {expr : SqlExpr} {e : LogicalExpr}

theorem isSome_bind_both {α β : Type} {first second : Option α} {combine : α → α → β} :
    (first.bind fun l => second.bind fun r => some (combine l r)).isSome = (first.isSome && second.isSome) := by
  cases first <;> cases second <;> rfl

theorem isSome_toDNFTerms_foldl (call : Nat) (first : LogicalExpr) (rest : List LogicalExpr) :
    (toDNFTerms call (rest.foldl conjunction first)).isSome = true ↔
      ∀ pred ∈ first :: rest, (toDNFTerms call pred).isSome = true := by
  induction rest generalizing first with
  | nil => simp
  | cons next rest ih =>
    rw [List.foldl_cons, ih]
    simp only [List.forall_mem_cons, conjunction, toDNFTerms, bind_eq_bind, pure_def, isSome_bind_both,
      Bool.and_eq_true, and_assoc]

theorem isSome_predicatesToDNFTerms (call : Nat) (preds : List LogicalExpr) :
    (predicatesToDNFTerms call preds).isSome = true ↔ ∀ pred ∈ preds, (toDNFTerms call pred).isSome = true := by
  cases preds with
  | nil => simp [predicatesToDNFTerms, mergePredicates]
  | cons first rest => exact isSome_toDNFTerms_foldl call first rest

section
variable [Identifiers]

theorem Binds.isSome_terms (bound : Binds printer scope address expr e) (call : Nat) :
    (toDNFTerms call e).isSome = isConvertible false expr ∧ (negateToDNF call e).isSome = isConvertible true expr := by
  induction bound with
  | and _ _ left right | or _ _ left right =>
    simp [toDNFTerms, negateToDNF, isSome_bind_both, left, right, isConvertible]
  | not _ child => exact child.symm
  | paren _ child => exact child
  | _ =>
    exact ⟨rfl, rfl⟩

theorem originated_of_binds (owned : Owned scope) (bound : Binds printer scope address expr e) : Originated e := by
  intro col used
  obtain ⟨source, inside, listed⟩ := bound.columns col used
  rw [owned source inside col listed]
  rfl

theorem filter_name_eq {schema : LogicalSchema} (distinct : schema.Pairwise fun l r => ¬ equalFold l.cname r.cname)
    {col : LogicalColumn} (inside : col ∈ schema) : schema.filter (equalFold ·.cname col.cname) = [col] := by
  induction distinct with
  | nil => cases inside
  | @cons first rest apart _ ih =>
    rw [List.filter_cons]
    rcases List.mem_cons.mp inside with rfl | inside
    · rw [if_pos (equalFold_equivalence.refl _), List.filter_eq_nil_iff.mpr]
      exact fun other later same => apart other later (equalFold_equivalence.symm same)
    · rw [if_neg (apart col inside), ih inside]

/-- The rules take the scan of a source with the conditions that are pushed into it. -/
theorem exists_scanNode {source : SourceTable} {preds : List LogicalExpr} (owned : Owned scope)
    (only : ∀ other ∈ scope.sourceTables, other.tableRef.tableAlias = source.tableRef.tableAlias → other = source)
    (distinct : source.schema.Pairwise fun l r => ¬ equalFold l.cname r.cname)
    (formed : ∀ pred ∈ preds, pred.isPredicate = true)
    (bound : ∀ pred ∈ preds, ∃ address expr, Binds printer scope address expr pred)
    (pushed : ∀ pred ∈ preds, PredicatePushDownRule.canPushToScan pred source.tableRef.tableAlias = true)
    (oid : ObjectID) (projection : Option LogicalProjectionNode) (required : LogicalSchema) :
    ∃ node : LogicalScanNode, node.tableAlias = source.tableRef.tableAlias ∧
      LogicalPlanNode.scan source.tableRef oid source.schema projection preds required =
        .scan source.tableRef node.tableOid node.rawOutputSchema node.projection node.predicates required := by
  refine ⟨⟨oid, source.tableRef.tableAlias, source.schema, projection, preds, formed, ?_, ?_⟩, rfl, rfl⟩
  · intro pred member
    obtain ⟨address, expr, binds⟩ := bound pred member
    exact binds.isTyped
  · intro pred member col used
    obtain ⟨address, expr, binds⟩ := bound pred member
    obtain ⟨other, inside, listed⟩ := binds.columns col used
    have here := List.all_eq_true.mp (pushed pred member) col used
    rw [owned other inside col listed, decide_eq_true_eq] at here
    exact filter_name_eq distinct (only other inside here ▸ listed)

/-- Everything that planning a scan with the rules for indexes calls returns. -/
structure PlansIndexes (c : GoDB.Catalog) (tableOid : ObjectID) (tableAlias : String) (preds : List LogicalExpr) : Prop where
  terms : ∀ pred ∈ preds, (toDNFTerms 0 pred).isSome = true
  analyzed : ∀ idx, (analyzeIndex idx preds tableAlias).isSome = true
  scan : (IndexScanRule.isMatch c tableOid tableAlias preds).isSome = true
  lookup : (IndexLookupRule.isMatch c tableOid tableAlias preds).isSome = true

/-- The conditions of a WHERE or an ON can be planned with the rules for indexes just where they are made of
comparisons. -/
theorem index_planning_returns_iff {catalog : SystemCatalog} {tableExprs : List TableExpr} {before after : State}
    {plan : LogicalPlanNode} (planned : planFrom catalog printer tableExprs before = .ok ((scope, plan), after))
    {conds : List SqlExpr} {preds : List LogicalExpr}
    (accepted : List.Forall₂ (fun cond pred => ∃ address, bindExpr printer scope address cond = .ok pred) conds preds)
    (c : GoDB.Catalog) (tableOid : ObjectID) (tableAlias : String) :
    PlansIndexes c tableOid tableAlias preds ↔ ∀ cond ∈ conds, isConvertible false cond = true := by
  have owned := owned_of_planFrom planned
  have converts : (∀ pred ∈ preds, (toDNFTerms 0 pred).isSome = true) ↔ ∀ cond ∈ conds, isConvertible false cond = true := by
    induction accepted with
    | nil => simp
    | cons first _ ih =>
      obtain ⟨address, bound⟩ := first
      rw [List.forall_mem_cons, List.forall_mem_cons, ih, ((bindExpr_eq_ok.mp bound).isSome_terms 0).1]
  have originated : ∀ pred ∈ preds, Originated pred := by
    clear converts
    induction accepted with
    | nil => simp
    | cons first _ ih =>
      obtain ⟨address, bound⟩ := first
      exact List.forall_mem_cons.mpr ⟨originated_of_binds owned (bindExpr_eq_ok.mp bound), ih⟩
  rw [← converts]
  refine ⟨PlansIndexes.terms, fun terms => ?_⟩
  have analyzed (idx : Catalog.Index) : (analyzeIndex idx preds tableAlias).isSome = true :=
    (isSome_analyzeIndex originated idx).trans ((isSome_predicatesToDNFTerms 0 preds).mpr terms)
  have matched (usable : Catalog.Index → IndexMatchResult → Bool) :
      (hasIndex usable c tableOid tableAlias preds).isSome = true := by
    unfold hasIndex
    split
    · rfl
    · split
      · rfl
      · apply isSome_anyM
        intro idx _
        obtain ⟨found, made⟩ := isSome_iff_exists.mp (analyzed idx)
        rw [made]
        rfl
  exact ⟨terms, analyzed, matched _, matched _⟩

end

open Ascii

/-- `SELECT … FROM items WHERE …`, on a table with an index. -/
def itemsCatalog : SystemCatalog := .ofState ⟨2, [⟨1, "items", [⟨"price", .int⟩], [⟨2, 1, "byPrice", "btree", ["price"]⟩]⟩]⟩

def fromItems : List TableExpr := [.aliased (.tableName "items") ""]

def itemsScope : FromScope := ⟨[⟨⟨"items", 1⟩, columnsOf ⟨"items", 1⟩ [⟨"price", .int⟩],
  some ⟨1, "items", [⟨"price", .int⟩], [⟨2, 1, "byPrice", "btree", ["price"]⟩]⟩⟩]⟩

theorem negated_column_planned : PlansIndexes [⟨1, [⟨"price", .int⟩], [⟨2, .btree, ["price"]⟩]⟩] 1 "items"
      [.negation 0 (.column ⟨"price", .int, some ⟨"items", 1⟩⟩)] := by
  refine (@index_planning_returns_iff silentPrinter itemsScope _ itemsCatalog fromItems newLogicalPlanBuilder _ _ rfl
    [.not (.colName "" "price")] _ (.cons ⟨0, rfl⟩ .nil) _ _ _).mpr ?_
  decide

/-- `WHERE price` is accepted, and stops both rules. -/
theorem column_condition_panics :
    (∃ plan after, planFrom itemsCatalog silentPrinter fromItems newLogicalPlanBuilder = .ok ((itemsScope, plan), after)) ∧
      ∃ pred, bindExpr silentPrinter itemsScope 0 (.colName "" "price") = .ok pred ∧
        IndexScanRule.isMatch [⟨1, [⟨"price", .int⟩], [⟨2, .btree, ["price"]⟩]⟩] 1 "items" [pred] = none ∧
          IndexLookupRule.isMatch [⟨1, [⟨"price", .int⟩], [⟨2, .btree, ["price"]⟩]⟩] 1 "items" [pred] = none :=
  ⟨⟨_, _, rfl⟩, _, rfl, rfl, rfl⟩

end LogicalPlanBuilder
end GoDB.Planner
