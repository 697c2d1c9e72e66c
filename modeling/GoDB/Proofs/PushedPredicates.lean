import GoDB.Planner.PredicatePushDown
import GoDB.Proofs.LogicalPlans
import Mathlib.Data.List.Induction

/-! Moving filters towards the scans leaves the meaning of a plan as it is, where the two sides of
a join share no column and no projection hides the columns of a scan. -/

namespace GoDB.Planner
open List BinaryLogicType

namespace LogicalPlanNode

/-- A filter above a join is pushed to both sides, so it counts for each node below it. -/
def weight : LogicalPlanNode → Nat
  | .scan _ _ _ _ _ _ | .values _ _ _ => 1
  | .filter child _ _ => 2 * weight child
  | .join left right _ _ _ => weight left + weight right + 1
  | .projection child _ _ | .aggregation child _ _ _ | .sort child _ _ | .limit child _ _ _ | .subquery _ child _ _
  | .insert _ child _ | .delete _ child _ | .update _ child _ _ => weight child + 1

theorem weight_pos (node : LogicalPlanNode) : 0 < node.weight := by
  induction node with
  | filter child predicate required ih => exact Nat.mul_pos Nat.two_pos ih
  | scan | values => exact Nat.one_pos
  | _ => exact Nat.succ_pos _

theorem weight_child {node child : LogicalPlanNode} (member : child ∈ node.children) : child.weight < node.weight := by
  cases node with
  | scan | values => cases member
  | filter =>
    cases mem_singleton.mp member
    have positive := weight_pos child
    simp only [weight]
    omega
  | join left right =>
    simp only [weight]
    rcases mem_pair.mp member with rfl | rfl <;> omega
  | _ =>
    cases mem_singleton.mp member
    exact Nat.lt_succ_self _

end LogicalPlanNode

theorem isBuilt_of_mem_splitPredicate {expr pred : LogicalExpr} (built : expr.isBuilt = true)
    (member : pred ∈ splitPredicate expr) : pred.isBuilt = true := by
  fun_induction splitPredicate expr with
  | case1 address left right ihLeft ihRight =>
    obtain ⟨builtLeft, builtRight⟩ := Bool.and_eq_true_iff.mp built
    rcases mem_append.mp member with member | member
    · exact ihLeft builtLeft member
    · exact ihRight builtRight member
  | case2 expr =>
    cases mem_singleton.mp member
    exact built

section Conjunctions
open Common

variable {κ : Type} {read : κ → Option Value}

theorem exprIsFalse_and (val1 val2 : Value) :
    exprIsFalse (and.eval val1 val2) = (exprIsFalse val1 || exprIsFalse val2) := by
  have apart (val : Value) (holds : exprIsTrue val = true) : exprIsFalse val = false := by
    cases val <;> simp_all [exprIsTrue, exprIsFalse]
  simp only [eval]
  split
  next both =>
    rw [apart val1 both.1, apart val2 both.2]
    rfl
  next => cases exprIsFalse val1 <;> cases exprIsFalse val2 <;> rfl

theorem and_eval_assoc (first second third : Value) : and.eval (and.eval first second) third =
      and.eval first (and.eval second third) := by
  have decides (val1 val2 val3 val4 : Value)
      (sameTrue : exprIsTrue val1 = true ∧ exprIsTrue val2 = true ↔ exprIsTrue val3 = true ∧ exprIsTrue val4 = true)
      (sameFalse : exprIsFalse val1 = true ∨ exprIsFalse val2 = true ↔ exprIsFalse val3 = true ∨ exprIsFalse val4 = true) :
      and.eval val1 val2 = and.eval val3 val4 := by
    simp only [eval, sameTrue, sameFalse]
  apply decides
  · simp [exprIsTrue_and, and_assoc]
  · simp [exprIsFalse_and, or_assoc]

theorem evalWith_conjunction (left right : Expr κ) : (conjunction left right).evalWith read =
    (left.evalWith read).bind fun first => (right.evalWith read).map (and.eval first) := by
  simp only [conjunction, Expr.evalWith]
  cases left.evalWith read <;> cases right.evalWith read <;> rfl

theorem evalWith_foldl (before first : Expr κ) (rest : List (Expr κ)) :
    (rest.foldl conjunction (conjunction before first)).evalWith read =
      (conjunction before (rest.foldl conjunction first)).evalWith read := by
  induction rest using reverseRecOn with
  | nil => rfl
  | append_singleton rest last ih =>
    rw [foldl_append, foldl_append]
    simp only [foldl_cons, foldl_nil, evalWith_conjunction, ih]
    cases before.evalWith read <;> cases (rest.foldl conjunction first).evalWith read <;>
      cases last.evalWith read <;> simp [and_eval_assoc]

theorem exists_split (expr : Expr κ) : ∃ first rest, splitPredicate expr = first :: rest ∧
    (rest.foldl conjunction first).evalWith read = expr.evalWith read := by
  fun_induction splitPredicate expr with
  | case1 address left right ihLeft ihRight =>
    obtain ⟨first, rest, split, same⟩ := ihLeft
    obtain ⟨first', rest', split', same'⟩ := ihRight
    refine ⟨first, rest ++ first' :: rest', by rw [split, split', cons_append], ?_⟩
    rw [foldl_append, foldl_cons, evalWith_foldl, evalWith_conjunction, same, same', ← evalWith_conjunction]
    rfl
  | case2 expr => exact ⟨expr, [], rfl, rfl⟩

/-- Splitting a condition and merging the parts gives an expression of the same value, and
no part can be split. -/
theorem merged_split_same (expr : Expr κ) : (∃ merged, mergePredicates (splitPredicate expr) = some merged ∧
      ∀ read : κ → Option Value, merged.evalWith read = expr.evalWith read) ∧
    ∀ pred ∈ splitPredicate expr, ∀ address left right, pred ≠ .logic address left right .and := by
  constructor
  · obtain ⟨first, rest, split, -⟩ := @exists_split κ (fun _ => none) expr
    refine ⟨rest.foldl conjunction first, by rw [split, mergePredicates], fun read => ?_⟩
    obtain ⟨first', rest', split', same⟩ := @exists_split κ read expr
    rw [split] at split'
    cases split'
    exact same
  · fun_induction splitPredicate expr with
    | case1 address left right ihLeft ihRight => exact forall_mem_append.mpr ⟨ihLeft, ihRight⟩
    | case2 expr whole => exact forall_mem_singleton.mpr fun address left right same => whole address left right same

end Conjunctions

theorem testWith_splitPredicate (read : LogicalColumn → Option Common.Value) (expr : LogicalExpr) :
    expr.testWith read = some true ↔ ∀ pred ∈ splitPredicate expr, pred.testWith read = some true := by
  obtain ⟨first, rest, split, same⟩ := @exists_split _ read expr
  rw [Expr.testWith, ← same, split]
  exact (conjunction_mergePredicates rfl).2

variable [Identifiers]

def LogicalSchema.Apart (left right : LogicalSchema) : Prop :=
  ∀ col, ¬ (left.contains col = true ∧ right.contains col = true)

theorem LogicalSchema.apart_of_origins {left right : LogicalSchema}
    (owned : ∀ l ∈ left, ∀ r ∈ right, ∃ ref other, l.origin = some ref ∧ r.origin = some other ∧ ref.refID ≠ 0 ∧
      other.refID ≠ 0 ∧ ref.refID ≠ other.refID ∧ ref.tableAlias ≠ other.tableAlias) : left.Apart right := by
  intro col shared
  simp only [contains, any_eq_true] at shared
  obtain ⟨⟨l, inLeft, sameLeft⟩, r, inRight, sameRight⟩ := shared
  obtain ⟨ref, other, fromLeft, fromRight, refOwned, otherOwned, ids, aliases⟩ := owned l inLeft r inRight
  simp only [LogicalColumn.equals, Bool.and_eq_true, fromLeft, fromRight] at sameLeft sameRight
  cases origin : col.origin with
  | none => simp [origin, TableRef.equals] at sameLeft
  | some target =>
    have first : ref.refID = target.refID ∨ target.refID = 0 ∧ ref.tableAlias = target.tableAlias := by
      simpa [origin, TableRef.equals, refOwned] using sameLeft.2
    have second : other.refID = target.refID ∨ target.refID = 0 ∧ other.tableAlias = target.tableAlias := by
      simpa [origin, TableRef.equals, otherOwned] using sameRight.2
    rcases first with first | first <;> rcases second with second | second
    · exact ids (first.trans second.symm)
    · exact refOwned (first.trans second.1)
    · exact otherOwned (second.trans first.1)
    · exact aliases (first.2.trans second.2.symm)

/-- Filters test expressions of the front end, and what is below them keeps columns apart and in sight. -/
def LogicalPlanNode.Pushable : LogicalPlanNode → Prop
  | .scan _ _ _ attached _ _ => attached = none
  | .filter child predicate _ => predicate.isBuilt = true ∧ Pushable child
  | .join left right _ _ _ => left.outputSchema.Apart right.outputSchema ∧ Pushable left ∧ Pushable right
  | .projection child _ _ | .aggregation child _ _ _ | .sort child _ _ | .limit child _ _ _ | .subquery _ child _ _
  | .insert _ child _ | .delete _ child _ | .update _ child _ _ => Pushable child
  | .values _ _ _ => True

/-- The rules for joins take a join of sides that are apart. -/
theorem LogicalPlanNode.Pushable.exists_joinNode {left right : LogicalPlanNode} {joinOn : List LogicalExpr}
    {joinType : JoinType} {required : LogicalSchema} {l r : LogicalChild}
    (pushable : (LogicalPlanNode.join left right joinOn joinType required).Pushable)
    (sameLeft : l.outputSchema = left.outputSchema) (sameRight : r.outputSchema = right.outputSchema)
    (formed : ∀ cond ∈ joinOn, cond.isPredicate = true) :
    ∃ node : LogicalJoinNode, node.left = l ∧ node.right = r ∧ node.joinOn = joinOn := by
  refine ⟨⟨l, r, joinOn, formed, fun _ _ col _ => ?_⟩, rfl, rfl, rfl⟩
  rw [sameLeft, sameRight]
  exact pushable.1 col

theorem LogicalPlanNode.Pushable.child {node child : LogicalPlanNode} (pushable : node.Pushable)
    (member : child ∈ node.children) : child.Pushable := by
  cases node with
  | scan | values => cases member
  | filter =>
    cases mem_singleton.mp member
    exact pushable.2
  | join left right =>
    rcases mem_pair.mp member with rfl | rfl
    · exact pushable.2.1
    · exact pushable.2.2
  | _ =>
    cases mem_singleton.mp member
    exact pushable

namespace PredicatePushDownRule
variable {left right : LogicalSchema} {d : Distribution} {preds : List LogicalExpr} {joinType : JoinType}

theorem distribute_cases (left right : LogicalSchema) (d : Distribution) (pred : LogicalExpr) :
    (left.coversExpr pred = true ∧ (d.joinType = .inner ∨ d.joinType = .left ∨ d.joinType = .cross) ∧
      distribute left right d pred = { d with leftPush := d.leftPush ++ [pred] }) ∨
    (right.coversExpr pred = true ∧ (d.joinType = .inner ∨ d.joinType = .right ∨ d.joinType = .cross) ∧
      distribute left right d pred = { d with rightPush := d.rightPush ++ [pred] }) ∨
    ((d.joinType = .inner ∨ d.joinType = .cross) ∧
      distribute left right d pred = { d with joinType := .inner, joinConds := d.joinConds ++ [pred] }) ∨
    (d.joinType ≠ .inner ∧ d.joinType ≠ .cross ∧ distribute left right d pred = { d with keep := d.keep ++ [pred] }) := by
  obtain ⟨joinType, leftPush, rightPush, joinConds, keep⟩ := d
  simp only [distribute]
  cases joinType <;> cases left.coversExpr pred <;> cases right.coversExpr pred <;> simp

def Permits : JoinType → Distribution → Prop
  | .inner, d | .cross, d => (d.joinType = .inner ∨ d.joinType = .cross) ∧ d.keep = []
  | .left, d => d.joinType = .left ∧ d.rightPush = [] ∧ d.joinConds = []
  | .right, d => d.joinType = .right ∧ d.leftPush = [] ∧ d.joinConds = []
  | .fullOuter, d => d.joinType = .fullOuter ∧ d.leftPush = [] ∧ d.rightPush = [] ∧ d.joinConds = []

structure Distributed (left right : LogicalSchema) (joinType : JoinType) (preds : List LogicalExpr)
    (d : Distribution) : Prop where
  members : ∀ pred, pred ∈ preds ↔ pred ∈ d.leftPush ∨ pred ∈ d.rightPush ∨ pred ∈ d.joinConds ∨ pred ∈ d.keep
  leftPush : ∀ pred ∈ d.leftPush, left.coversExpr pred = true
  rightPush : ∀ pred ∈ d.rightPush, right.coversExpr pred = true
  permitted : Permits joinType d

theorem Distributed.distribute (distributed : Distributed left right joinType preds d) (pred : LogicalExpr) :
    Distributed left right joinType (preds ++ [pred]) (distribute left right d pred) := by
  obtain ⟨members, leftPush, rightPush, permitted⟩ := distributed
  rcases distribute_cases left right d pred with
    ⟨covered, type, same⟩ | ⟨covered, type, same⟩ | ⟨type, same⟩ | ⟨inner, cross, same⟩ <;> rw [same]
  · refine ⟨fun other => ?_, ?_, rightPush, ?_⟩
    · simp only [mem_append, mem_singleton, members]
      tauto
    · exact forall_mem_append.mpr ⟨leftPush, forall_mem_singleton.mpr covered⟩
    · cases joinType <;> simp_all [Permits]
  · refine ⟨fun other => ?_, leftPush, ?_, ?_⟩
    · simp only [mem_append, mem_singleton, members]
      tauto
    · exact forall_mem_append.mpr ⟨rightPush, forall_mem_singleton.mpr covered⟩
    · cases joinType <;> simp_all [Permits]
  · refine ⟨fun other => ?_, leftPush, rightPush, ?_⟩
    · simp only [mem_append, mem_singleton, members]
      tauto
    · cases joinType <;> simp_all [Permits]
  · refine ⟨fun other => ?_, leftPush, rightPush, ?_⟩
    · simp only [mem_append, mem_singleton, members]
      tauto
    · cases joinType <;> simp_all [Permits]

theorem distributed_distribution (left right : LogicalSchema) (joinType : JoinType) (predicate : LogicalExpr) :
    Distributed left right joinType (splitPredicate predicate) (distribution left right joinType predicate) := by
  have fold {preds : List LogicalExpr} {d : Distribution} (distributed : Distributed left right joinType preds d)
      (rest : List LogicalExpr) : Distributed left right joinType (preds ++ rest) (rest.foldl (distribute left right) d) := by
    induction rest generalizing preds d with
    | nil => rwa [append_nil]
    | cons pred rest ih =>
      rw [append_cons]
      exact ih (distributed.distribute pred)
  have start : Distributed left right joinType [] ⟨joinType, [], [], [], []⟩ := by
    refine ⟨fun pred => by simp, forall_mem_nil _, forall_mem_nil _, ?_⟩
    cases joinType <;> simp [Permits]
  exact fold start _

end PredicatePushDownRule
end GoDB.Planner

namespace GoDB.Execution
open Lib Planner PredicatePushDownRule List Option LogicalPlanNode LogicalSchema Expr

section Joins
variable [Identifiers] {left right : LogicalSchema} {l r : Row} {conds : List LogicalExpr}

theorem passing_left (width : l.length = left.length) (built : ∀ cond ∈ conds, cond.isBuilt = true)
    (covered : ∀ cond ∈ conds, left.coversExpr cond = true) :
    Passing (left ++ right) conds (l ++ r) ↔ Passing left conds l := by
  refine forall₂_congr fun cond member => ?_
  have reads : cond.evalWith (left.reader l) = cond.evalWith (reader (left ++ right) (l ++ r)) := by
    apply evalWith_congr (built cond member)
    intro col inside
    exact reader_append_left _ _ width (all_eq_true.mp (covered cond member) col inside)
  rw [testWith, testWith, reads]

theorem passing_right (apart : left.Apart right) (width : l.length = left.length)
    (built : ∀ cond ∈ conds, cond.isBuilt = true) (covered : ∀ cond ∈ conds, right.coversExpr cond = true) :
    Passing (left ++ right) conds (l ++ r) ↔ Passing right conds r := by
  refine forall₂_congr fun cond member => ?_
  have reads : cond.evalWith (right.reader r) = cond.evalWith (reader (left ++ right) (l ++ r)) := by
    apply evalWith_congr (built cond member)
    intro col inside
    refine reader_append_right _ width fun shared => apart col ⟨shared, ?_⟩
    exact all_eq_true.mp (covered cond member) col inside
  rw [testWith, testWith, reads]

theorem filter_passing_nil (schema : LogicalSchema) (rows : List Row) : rows.filter (Passing schema []) = rows := by
  refine filter_eq_self.mpr fun row _ => ?_
  simp [Passing]

variable {joinType : JoinType} {joinOn preds : List LogicalExpr} {d : Distribution} {leftRows rightRows : List Row}

theorem passing_distributed (distributed : Distributed left right joinType preds d) (apart : left.Apart right)
    (built : ∀ pred ∈ preds, pred.isBuilt = true) (width : l.length = left.length) :
    Passing (left ++ right) preds (l ++ r) ↔ (Passing left d.leftPush l ∧ Passing right d.rightPush r) ∧
      Passing (left ++ right) d.joinConds (l ++ r) ∧ Passing (left ++ right) d.keep (l ++ r) := by
  obtain ⟨members, leftPush, rightPush, -⟩ := distributed
  have builtLeft : ∀ pred ∈ d.leftPush, pred.isBuilt = true := fun pred member =>
    built pred ((members pred).mpr (.inl member))
  have builtRight : ∀ pred ∈ d.rightPush, pred.isBuilt = true := fun pred member =>
    built pred ((members pred).mpr (.inr (.inl member)))
  rw [← @passing_left _ left right l r _ width builtLeft leftPush,
    ← @passing_right _ left right l r _ apart width builtRight rightPush]
  simp only [Passing, members]
  constructor
  · intro all
    exact ⟨⟨fun pred member => all pred (.inl member), fun pred member => all pred (.inr (.inl member))⟩,
      fun pred member => all pred (.inr (.inr (.inl member))), fun pred member => all pred (.inr (.inr (.inr member)))⟩
  · rintro ⟨⟨first, second⟩, third, fourth⟩ pred (member | member | member | member)
    · exact first pred member
    · exact second pred member
    · exact third pred member
    · exact fourth pred member

theorem innerRows_distributed (leftPush rightPush joinConds : List LogicalExpr)
    (same : ∀ l ∈ leftRows, ∀ r ∈ rightRows, Passing (left ++ right) preds (l ++ r) ↔
      (Passing left leftPush l ∧ Passing right rightPush r) ∧ Passing (left ++ right) joinConds (l ++ r)) :
    joinRows .inner left right (joinOn ++ joinConds) (leftRows.filter (Passing left leftPush))
      (rightRows.filter (Passing right rightPush)) =
    (joinRows .inner left right joinOn leftRows rightRows).filter (Passing (left ++ right) preds) := by
  have related : (fun l r => decide (Passing (left ++ right) (joinOn ++ joinConds) (l ++ r))) = fun l r =>
      decide (Passing (left ++ right) joinOn (l ++ r)) && decide (Passing (left ++ right) joinConds (l ++ r)) := by
    funext l r
    rw [Bool.eq_iff_iff, Bool.and_eq_true, decide_eq_true_iff, decide_eq_true_iff, decide_eq_true_iff]
    exact forall_mem_append
  simp only [joinRows, related, ← filter_innerJoin_left, ← filter_innerJoin_right, List.filter_map]
  rw [← filter_innerJoin, List.filter_filter, List.filter_filter]
  refine congrArg (map joined) (filter_congr fun pair member => ?_)
  obtain ⟨inLeft, inRight⟩ := mem_of_mem_innerJoin member
  rw [Bool.eq_iff_iff]
  simp only [Bool.and_eq_true, decide_eq_true_iff, Function.comp_apply, joined, same pair.1 inLeft pair.2 inRight]
  tauto

theorem joinRows_distributed (distributed : Distributed left right joinType preds d) (apart : left.Apart right)
    (built : ∀ pred ∈ preds, pred.isBuilt = true) (leftWidth : ∀ l ∈ leftRows, l.length = left.length) :
    (joinRows d.joinType left right (joinOn ++ d.joinConds) (leftRows.filter (Passing left d.leftPush))
      (rightRows.filter (Passing right d.rightPush))).filter (Passing (left ++ right) d.keep) =
    (joinRows joinType left right joinOn leftRows rightRows).filter (Passing (left ++ right) preds) := by
  have permitted := distributed.permitted
  have same {l r : Row} (width : l.length = left.length) := @passing_distributed _ left right l r joinType preds d distributed
    apart built width
  have none (schema : LogicalSchema) (row : Row) : Passing schema [] row := forall_mem_nil _
  cases joinType with
  | inner | cross =>
    obtain ⟨type, keep⟩ := permitted
    have rows := @innerRows_distributed _ left right joinOn preds leftRows rightRows d.leftPush d.rightPush d.joinConds
      fun l inLeft r inRight => by simpa only [keep, none, and_true] using same (leftWidth l inLeft)
    rw [keep, filter_passing_nil]
    rcases type with type | type <;> rw [type] <;> exact rows
  | left =>
    obtain ⟨type, rightPush, joinConds⟩ := permitted
    rw [type, rightPush, joinConds, filter_passing_nil, append_nil]
    simp only [joinRows, ← filter_leftJoin, List.filter_map, List.filter_filter]
    refine congrArg (List.map _) (List.filter_congr fun pair member => ?_)
    obtain ⟨inLeft, -⟩ := mem_of_mem_leftJoin member
    rw [Bool.eq_iff_iff]
    simp only [Bool.and_eq_true, decide_eq_true_iff, Function.comp_apply, same (leftWidth _ inLeft), rightPush, joinConds, none,
      and_true, true_and]
    exact and_comm
  | right =>
    obtain ⟨type, leftPush, joinConds⟩ := permitted
    rw [type, leftPush, joinConds, filter_passing_nil, append_nil]
    simp only [joinRows, ← filter_rightJoin, List.filter_map, List.filter_filter]
    refine congrArg (List.map _) (List.filter_congr fun pair member => ?_)
    obtain ⟨inLeft, -⟩ := mem_of_mem_rightJoin member
    rw [Bool.eq_iff_iff]
    simp only [Bool.and_eq_true, decide_eq_true_iff, Function.comp_apply, same (length_getD_nullRow leftWidth inLeft),
      leftPush, joinConds, none, true_and]
    exact and_comm
  | fullOuter =>
    obtain ⟨type, leftPush, rightPush, joinConds⟩ := permitted
    rw [type, leftPush, rightPush, joinConds, filter_passing_nil, filter_passing_nil, append_nil]
    refine filter_congr fun row member => ?_
    obtain ⟨pair, inside, rfl⟩ := mem_map.mp member
    rw [decide_eq_decide, same (length_getD_nullRow leftWidth (mem_of_mem_fullJoin inside).1)]
    simp [leftPush, rightPush, joinConds, none]

end Joins

section Plans
variable {db : Database} {child node : LogicalPlanNode} {preds : List LogicalExpr}

theorem outputSchema_pushTo : (pushTo child preds).outputSchema = child.outputSchema := by
  unfold pushTo
  split <;> rfl

theorem fits_pushTo : Fits db (pushTo child preds) ↔ Fits db child := by
  unfold pushTo
  split <;> rfl

theorem weight_pushTo : (pushTo child preds).weight ≤ 2 * child.weight := by
  unfold pushTo
  split
  next => omega
  next => exact Nat.le_refl _

def pushedJoin (left right : LogicalPlanNode) (joinOn : List LogicalExpr) (required : LogicalSchema)
    (d : Distribution) : LogicalPlanNode :=
  .join (pushTo left d.leftPush) (pushTo right d.rightPush) (joinOn ++ d.joinConds) d.joinType required

theorem weight_pushedJoin {left right : LogicalPlanNode} {predicate : LogicalExpr} {joinOn : List LogicalExpr}
    {joinType : JoinType} {joinRequired required : LogicalSchema} (d : Distribution) :
    (pushedJoin left right joinOn joinRequired d).weight <
      (filter (.join left right joinOn joinType joinRequired) predicate required).weight := by
  have pushedLeft := @weight_pushTo left d.leftPush
  have pushedRight := @weight_pushTo right d.rightPush
  simp only [pushedJoin, weight]
  omega

variable [Identifiers] {schema : LogicalSchema}

theorem filter_passing_congr {conds others : List LogicalExpr} (rows : List Row)
    (same : ∀ read : LogicalColumn → Option Common.Value,
      (∀ cond ∈ conds, cond.testWith read = some true) ↔ ∀ cond ∈ others, cond.testWith read = some true) :
    rows.filter (Passing schema conds) = rows.filter (Passing schema others) := by
  refine filter_congr fun row _ => ?_
  rw [decide_eq_decide]
  exact same (schema.reader row)

theorem filter_mergePredicates {merged : LogicalExpr} (rows : List Row) (same : mergePredicates preds = some merged) :
    rows.filter (Passing schema [merged]) = rows.filter (Passing schema preds) := by
  refine filter_passing_congr rows fun read => ?_
  rw [forall_mem_singleton]
  exact (conjunction_mergePredicates same).2

theorem logicalRows_pushTo : logicalRows db (pushTo child preds) =
    (logicalRows db child).map fun rows => rows.filter (Passing child.outputSchema preds) := by
  unfold pushTo
  split
  next empty =>
    cases preds with
    | nil => simp [filter_passing_nil]
    | cons => cases empty
  next predicate merged =>
    rw [newLogicalFilterNode, logicalRows_filter, map_eq_bind]
    refine bind_congr fun rows _ => ?_
    exact congrArg some (filter_mergePredicates rows merged)

theorem pushable_pushTo (pushable : child.Pushable) (built : ∀ pred ∈ preds, pred.isBuilt = true) :
    (pushTo child preds).Pushable := by
  unfold pushTo
  split
  next => exact pushable
  next predicate merged => exact ⟨isBuilt_mergePredicates merged built, pushable⟩

structure Applies (node : LogicalPlanNode) (applied : Rewritten) : Prop where
  preserves : Preserves node applied.node
  pushable : applied.node.Pushable
  again : applied.changed = true → applied.node.weight < node.weight
  below : applied.changed = false → ∀ child ∈ applied.node.children, child.weight < node.weight

section
variable {left right : LogicalPlanNode} {predicate : LogicalExpr} {joinOn : List LogicalExpr} {joinType : JoinType}
  {joinRequired required : LogicalSchema} {d : Distribution}

theorem rows_pushedJoin (built : predicate.isBuilt = true)
    (apart : left.outputSchema.Apart right.outputSchema) (fits : Fits db left)
    (distributed : Distributed left.outputSchema right.outputSchema joinType (splitPredicate predicate) d) :
    (logicalRows db (pushedJoin left right joinOn joinRequired d)).map
        (fun rows => rows.filter (Passing (left.outputSchema ++ right.outputSchema) d.keep)) =
      logicalRows db (.filter (.join left right joinOn joinType joinRequired) predicate required) := by
  rw [pushedJoin, logicalRows_join, logicalRows_pushTo, logicalRows_pushTo, outputSchema_pushTo, outputSchema_pushTo,
    logicalRows_filter, logicalRows_join]
  cases fromLeft : logicalRows db left with
  | none => rfl
  | some leftRows =>
    cases logicalRows db right with
    | none => rfl
    | some rightRows =>
      have whole (rows : List Row) (schema : LogicalSchema) : rows.filter (Passing schema [predicate]) =
          rows.filter (Passing schema (splitPredicate predicate)) := by
        refine filter_passing_congr rows fun read => ?_
        rw [forall_mem_singleton]
        exact testWith_splitPredicate read predicate
      simp only [map_some, bind_some]
      refine congrArg some (Eq.trans ?_ (whole _ _).symm)
      exact joinRows_distributed distributed apart (fun _ => isBuilt_of_mem_splitPredicate built)
        (length_of_mem_logicalRows fits fromLeft)

theorem pushable_pushedJoin (built : predicate.isBuilt = true)
    (apart : left.outputSchema.Apart right.outputSchema) (pushableLeft : left.Pushable) (pushableRight : right.Pushable)
    (distributed : Distributed left.outputSchema right.outputSchema joinType (splitPredicate predicate) d) :
    (pushedJoin left right joinOn joinRequired d).Pushable := by
  have parts (pred : LogicalExpr) (member : pred ∈ splitPredicate predicate) : pred.isBuilt = true :=
    isBuilt_of_mem_splitPredicate built member
  refine ⟨?_, pushable_pushTo pushableLeft fun pred member => ?_, pushable_pushTo pushableRight fun pred member => ?_⟩
  · rwa [outputSchema_pushTo, outputSchema_pushTo]
  · exact parts pred ((distributed.members pred).mpr (.inl member))
  · exact parts pred ((distributed.members pred).mpr (.inr (.inl member)))

theorem applies_pushThroughJoin
    (pushable : (filter (.join left right joinOn joinType joinRequired) predicate required).Pushable) :
    Applies (.filter (.join left right joinOn joinType joinRequired) predicate required)
      (pushThroughJoin predicate required left right joinOn joinType joinRequired) := by
  obtain ⟨built, apart, pushableLeft, pushableRight⟩ := pushable
  have distributed := distributed_distribution left.outputSchema right.outputSchema joinType predicate
  have rows {db : Database} (fits : Fits db left) :=
    @rows_pushedJoin db _ left right predicate joinOn joinType joinRequired required _ built apart fits distributed
  have below := @pushable_pushedJoin _ left right predicate joinOn joinType joinRequired _ built apart pushableLeft
    pushableRight distributed
  have lighter := @weight_pushedJoin left right predicate joinOn joinType joinRequired required
  have schema (d : Distribution) : (pushedJoin left right joinOn joinRequired d).outputSchema =
      left.outputSchema ++ right.outputSchema := congrArg₂ (· ++ ·) outputSchema_pushTo outputSchema_pushTo
  have fitting (d : Distribution) (db : Database) (fits : Fits db left ∧ Fits db right) :
      Fits db (pushedJoin left right joinOn joinRequired d) := ⟨fits_pushTo.mpr fits.1, fits_pushTo.mpr fits.2⟩
  change Applies _ (keepAbove (pushedJoin left right joinOn joinRequired _) _ required)
  generalize distribution left.outputSchema right.outputSchema joinType predicate = d at distributed rows below ⊢
  unfold keepAbove
  split
  next kept merged =>
    have same (db : Database) (fits : Fits db left ∧ Fits db right) :
        logicalRows db (.filter (pushedJoin left right joinOn joinRequired d) kept required) =
          logicalRows db (.filter (.join left right joinOn joinType joinRequired) predicate required) := by
      rw [← rows fits.1, logicalRows_filter, map_eq_bind]
      refine bind_congr fun found _ => ?_
      rw [filter_mergePredicates found merged, schema]
      rfl
    refine ⟨.of_queries (fun _ => rfl) (fun _ => rfl) (schema d) (fitting d) same, ⟨?_, below⟩, nofun,
      fun _ child member => ?_⟩
    · exact isBuilt_mergePredicates merged fun pred member =>
        isBuilt_of_mem_splitPredicate built ((distributed.members pred).mpr (.inr (.inr (.inr member))))
    · cases mem_singleton.mp member
      exact lighter d
  next empty =>
    have same (db : Database) (fits : Fits db left ∧ Fits db right) :
        logicalRows db (pushedJoin left right joinOn joinRequired d) =
        logicalRows db (.filter (.join left right joinOn joinType joinRequired) predicate required) := by
      have none : d.keep = [] := by
        cases keep : d.keep with
        | nil => rfl
        | cons => simp [keep, mergePredicates] at empty
      rw [← rows fits.1, none]
      simp [filter_passing_nil]
    exact ⟨.of_queries (fun _ => rfl) (fun _ => rfl) (schema d) (fitting d) same, below, fun _ => lighter d, nofun⟩

end

theorem applies_apply (pushable : node.Pushable) : Applies node (apply node) := by
  fun_cases apply node with
  | case1 tableRef tableOid schema projection predicates scanRequired predicate required pushed =>
    obtain ⟨-, rfl⟩ := pushable
    have rows (db : Database) : logicalRows db (.scan tableRef tableOid schema none (predicates ++ [predicate]) scanRequired) =
        logicalRows db (.filter (.scan tableRef tableOid schema none predicates scanRequired) predicate required) := by
      rw [logicalRows_filter, logicalRows_scan, logicalRows_scan]
      cases db.tables tableOid with
      | none => rfl
      | some table => exact congrArg some (filter_passing_append ..).symm
    exact ⟨.of_queries (fun _ => rfl) (fun _ => rfl) rfl (fun _ => id) fun db _ => rows db, rfl, fun _ => Nat.one_lt_two,
      nofun⟩
  | case2 | case4 => exact ⟨.refl _, pushable, nofun, fun _ child => weight_child⟩
  | case3 left right joinOn joinType joinRequired predicate required => exact applies_pushThroughJoin pushable

def Optimizes (node : LogicalPlanNode) : Prop :=
  ∃ result, (∀ fuel, node.weight ≤ fuel → optimizeWithRule predicatePushDownRule fuel node = some result) ∧
    Preserves node result.node

theorem optimizes_children {children : List LogicalPlanNode} (each : ∀ child ∈ children, Optimizes child) :
    ∃ results, (∀ fuel, (∀ child ∈ children, child.weight ≤ fuel) →
      children.mapM (optimizeWithRule predicatePushDownRule fuel) = some results) ∧
        List.Forall₂ Preserves children (results.map (·.node)) := by
  induction children with
  | nil => exact ⟨[], fun _ _ => rfl, .nil⟩
  | cons child rest ih =>
    obtain ⟨⟨result, returns, preserves⟩, others⟩ := forall_mem_cons.mp each
    obtain ⟨results, returnsRest, preservesRest⟩ := ih others
    refine ⟨result :: results, fun fuel enough => ?_, .cons preserves preservesRest⟩
    obtain ⟨here, later⟩ := forall_mem_cons.mp enough
    rw [mapM_cons, returns fuel here, returnsRest fuel later]
    rfl

theorem applyMatching_eq (node : LogicalPlanNode) : predicatePushDownRule.applyMatching node = some (apply node) := by
  cases node <;> rfl

theorem postProcessMatching_eq (node : LogicalPlanNode) :
    predicatePushDownRule.postProcessMatching node = some ⟨node, false⟩ := ite_self _

theorem optimizes_of_pushable (pushable : node.Pushable) : Optimizes node := by
  -- Each turn of the rule and each step to a child makes the weight less.
  induction weight : node.weight using Nat.strong_induction_on generalizing node with
  | _ bound ih =>
    subst weight
    have applies := applies_apply pushable
    have fueled {fuel : Nat} (enough : node.weight ≤ fuel) : ∃ less, fuel = less + 1 ∧ node.weight ≤ less + 1 := by
      have positive := node.weight_pos
      exact ⟨fuel - 1, by omega, by omega⟩
    cases changed : (apply node).changed with
    | true =>
      obtain ⟨result, returns, preserves⟩ := ih _ (applies.again changed) applies.pushable rfl
      refine ⟨⟨result.node, true⟩, fun fuel enough => ?_, applies.preserves.trans preserves⟩
      obtain ⟨less, rfl, enough⟩ := fueled enough
      have lighter := applies.again changed
      rw [optimizeWithRule, applyMatching_eq, bind_eq_bind, bind_some, if_pos changed, returns less (by omega)]
      rfl
    | false =>
      have below := applies.below changed
      obtain ⟨results, returns, alike⟩ := optimizes_children fun child member =>
        ih _ (below child member) (applies.pushable.child member) rfl
      obtain ⟨later, attached, preserves⟩ : ∃ later, (apply node).node.attach results = some later ∧
          Preserves (apply node).node later := by
        obtain ⟨kept, rebuilt⟩ := Preserves.put_children alike
        rw [LogicalPlanNode.attach]
        split
        next some =>
          refine rebuilt fun empty => ?_
          rw [map_eq_nil_iff.mp empty] at some
          cases some
        next => exact ⟨_, rfl, kept⟩
      refine ⟨⟨later, results.any (·.changed) || false⟩, fun fuel enough => ?_, applies.preserves.trans preserves⟩
      obtain ⟨less, rfl, enough⟩ := fueled enough
      rw [optimizeWithRule, applyMatching_eq, bind_eq_bind, bind_some, if_neg (by rw [changed]; decide),
        returns less fun child member => by have lighter := below child member; omega, bind_eq_bind, bind_some,
        attached, bind_eq_bind, bind_some, postProcessMatching_eq]
      rfl

/-- The rule comes to an end and returns a plan of the same schema, rows and effect. -/
theorem pushed_predicates_preserve (node : LogicalPlanNode) (pushable : node.Pushable) :
    ∃ result enough, (∀ fuel, enough ≤ fuel → optimizeWithRule predicatePushDownRule fuel node = some result) ∧
      result.node.outputSchema = node.outputSchema ∧
      ∀ db, Fits db node → logicalRows db result.node = logicalRows db node ∧ effect db result.node = effect db node := by
  obtain ⟨result, returns, preserves⟩ := optimizes_of_pushable pushable
  exact ⟨result, node.weight, returns, preserves.schema, fun db fits => ⟨preserves.rows db fits, preserves.effect db fits⟩⟩

end Plans

section Samples
open Common Storage Ascii

def pairDb : Database :=
  .of [(1, .ofRows 1 .twoInts [[.int 1, .int 9]]), (2, .ofRows 2 .twoInts [[.int 9, .int 9]])] []

def pairColumn (tableAlias : String) (refID : Nat) (name : String) : LogicalColumn :=
  ⟨name, .int, some ⟨tableAlias, refID⟩⟩

def pairScan (tableAlias : String) (oid : ObjectID) (refID : Nat) : LogicalPlanNode :=
  .newLogicalScanNode ⟨tableAlias, refID⟩ oid [pairColumn tableAlias refID "x", pairColumn tableAlias refID "y"]

/-- `a.x > 0 AND a.y = b.y` over `a, b`. -/
def crossFilter : LogicalPlanNode :=
  .newLogicalFilterNode (.newLogicalJoinNode (pairScan "a" 1 1) (pairScan "b" 2 2) [] .cross)
    (.logic 1 (.comparison 2 (.column (pairColumn "a" 1 "x")) (.constant (.int 0)) .greaterThan)
      (.comparison 3 (.column (pairColumn "a" 1 "y")) (.column (pairColumn "b" 2 "y")) .equal) .and)

/-- One condition reaches the scan of `a` and the other makes the join an inner one. -/
theorem cross_filter_pushed : ∃ result fuel, optimizeWithRule predicatePushDownRule fuel crossFilter = some result ∧
    logicalRows pairDb result.node = some [[.int 1, .int 9, .int 9, .int 9]] := by
  have apart : LogicalSchema.Apart [pairColumn "a" 1 "x", pairColumn "a" 1 "y"]
      [pairColumn "b" 2 "x", pairColumn "b" 2 "y"] := by
    refine apart_of_origins fun l inLeft r inRight => ⟨⟨"a", 1⟩, ⟨"b", 2⟩, ?_, ?_, by decide⟩
    · rcases mem_pair.mp inLeft with rfl | rfl <;> rfl
    · rcases mem_pair.mp inRight with rfl | rfl <;> rfl
  have stored {oid : ObjectID} {table expected : StoredTable} (found : pairDb.tables oid = some table)
      (here : pairDb.tables oid = some expected) (two : expected.desc.fields.length = 2) : table.desc.fields.length = 2 := by
    cases found.symm.trans here
    exact two
  have fits : Fits pairDb crossFilter :=
    ⟨⟨fun table found => stored found rfl rfl, nofun⟩, fun table found => stored found rfl rfl, nofun⟩
  obtain ⟨result, enough, returns, -, same⟩ := pushed_predicates_preserve crossFilter ⟨rfl, apart, rfl, rfl⟩
  refine ⟨result, enough, returns enough (Nat.le_refl _), (same pairDb fits).1.trans ?_⟩
  decide

def valuesColumn (name : String) : LogicalColumn := ⟨name, .int, none⟩

/-- `values_col_0 = values_col_1` over `(5)` and `(2, 5)`. -/
def valuesFilter : LogicalPlanNode :=
  .newLogicalFilterNode (.newLogicalJoinNode (.newLogicalValuesNode [[.constant (.int 5)]] [valuesColumn "values_col_0"])
      (.newLogicalValuesNode [[.constant (.int 2), .constant (.int 5)]]
        [valuesColumn "values_col_0", valuesColumn "values_col_1"]) [] .inner)
    (.comparison 1 (.column (valuesColumn "values_col_0")) (.column (valuesColumn "values_col_1")) .equal)

/-- `x > 5` over a scan that `y AS x` was attached to. -/
def renamedFilter : LogicalPlanNode :=
  .newLogicalFilterNode (.scan ⟨"t", 1⟩ 1 [pairColumn "t" 1 "x", pairColumn "t" 1 "y"]
      (some ⟨[.column (pairColumn "t" 1 "y")], [pairColumn "t" 1 "x"]⟩) [] [])
    (.comparison 1 (.column (pairColumn "t" 1 "x")) (.constant (.int 5)) .greaterThan)

/-- The right side of a join has a column that equals the one of the left side that the condition
means, and a scan has another column under the name that a projection gives to one. -/
theorem condition_misread_below : (∃ result, optimizeWithRule predicatePushDownRule 9 valuesFilter = some result ∧
      logicalRows pairDb valuesFilter = some [[.int 5, .int 2, .int 5]] ∧ logicalRows pairDb result.node = some []) ∧
    ∃ result, optimizeWithRule predicatePushDownRule 9 renamedFilter = some result ∧
      logicalRows pairDb renamedFilter = some [[.int 9]] ∧ logicalRows pairDb result.node = some [] :=
  ⟨⟨_, rfl, by decide, by decide⟩, _, rfl, by decide, by decide⟩

end Samples
end GoDB.Execution
