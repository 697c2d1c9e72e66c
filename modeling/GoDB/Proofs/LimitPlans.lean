import GoDB.Execution.PlanRows
import GoDB.Planner.LogicalPlanBuilder
import GoDB.Planner.OperatorRules

/-! The rows that a LIMIT clause lets through. The logical node holds the offset
but the physical one has no place for it. -/

namespace GoDB.Execution
open Common Planner Option LimitRule

theorem window_eq_iff {α : Type} {items : List α} {start size : Nat} :
    (items.drop start).take size = items.take size ↔
    start = 0 ∨ size = 0 ∨ items = [] ∨ (start + size ≤ items.length ∧ ∀ i < size, items[start + i]? = items[i]?) := by
  constructor
  · intro same
    have lengths := congrArg List.length same
    simp only [List.length_take, List.length_drop] at lengths
    by_cases first : start = 0
    · exact .inl first
    by_cases none : size = 0
    · exact .inr (.inl none)
    by_cases empty : items.length = 0
    · exact .inr (.inr (.inl (List.length_eq_zero_iff.mp empty)))
    refine .inr (.inr (.inr ⟨by omega, fun i inside => ?_⟩))
    have here := congrArg (·[i]?) same
    simpa [List.getElem?_take, inside] using here
  · rintro (rfl | rfl | rfl | ⟨-, repeats⟩)
    · simp
    · simp
    · simp
    · apply List.ext_getElem?
      intro i
      by_cases inside : i < size
      · simpa [List.getElem?_take, inside] using repeats i inside
      · simp [inside]

variable {db : Database} {childPlan plan : PlanNode} {rows : List Row} {node child : LogicalPlanNode}

theorem planRows_limit {limit offset : Int} {required : LogicalSchema} (produced : planRows db childPlan = some rows)
    (applied : apply (.limit child limit offset required) childPlan = some plan) :
    planRows db plan = some (rows.take limit.toNat) := by
  unfold apply at applied
  split at applied
  next sorted orderBy same =>
    cases same
    cases applied
    simp only [planRows] at produced ⊢
    rw [bind_eq_bind, bind_eq_some_iff] at produced
    obtain ⟨unsorted, below, sort⟩ := produced
    simp [below, sort]
  next same _ =>
    cases same
    cases applied
    simp [planRows, produced]
  next => cases applied

/-- `LIMIT n OFFSET m` returns the rows from `m` on only when the first `n` rows
are the same: the offset is lost on the way to the physical plan. -/
theorem limit_offset_iff {limitStmt : Limit} {n m : Nat} (count : resolveOptional limitStmt.rowcount = some n)
    (start : resolveOptional limitStmt.offset = some m) (planned : planLimit (some limitStmt) child = some node)
    (produced : planRows db childPlan = some rows) (applied : apply node childPlan = some plan) :
    planRows db plan = some ((rows.drop m).take n) ↔
      m = 0 ∨ n = 0 ∨ rows = [] ∨ (m + n ≤ rows.length ∧ ∀ i < n, rows[m + i]? = rows[i]?) := by
  simp only [planLimit, count, start, bind_eq_bind, bind_some, pure_def, some.injEq] at planned
  subst planned
  rw [planRows_limit produced applied, some.injEq, Int.toNat_natCast, eq_comm, window_eq_iff]

def oneTwo : PlanNode := .values [[.constant (.int 1)], [.constant (.int 2)]] [.int]

def logicalOneTwo : LogicalPlanNode :=
  .newLogicalValuesNode [[.constant (.int 1)], [.constant (.int 2)]] [⟨"values_col_0", .int, none⟩]

def noTables : Database := ⟨fun _ => none, fun _ => none⟩

/-- `LIMIT 1`. -/
theorem limit_one_rows : planRows noTables (.limit oneTwo 1) = some [[.int 1]] :=
  (@limit_offset_iff noTables oneTwo (.limit oneTwo 1) [[.int 1], [.int 2]] _ logicalOneTwo
    ⟨none, some (.sqlVal .intVal [49])⟩ 1 0 rfl rfl rfl rfl rfl).mpr (.inl rfl)

/-- `LIMIT 1 OFFSET 1` asks for the second row and gets the first. -/
theorem offset_one_lost : ∃ node, planLimit (some ⟨some (.sqlVal .intVal [49]), some (.sqlVal .intVal [49])⟩)
      logicalOneTwo = some node ∧ ∃ plan, apply node oneTwo = some plan ∧
    planRows noTables oneTwo = some [[.int 1], [.int 2]] ∧ planRows noTables plan = some [[.int 1]] :=
  ⟨_, rfl, _, rfl, rfl, rfl⟩

end GoDB.Execution
