import GoDB.Planner.Plan
import GoDB.Storage.HybridTuple

/-! What the sort, the aggregate and the values executor do with rows that are
at hand. A missing result is a panic. -/

namespace GoDB.Execution
open Common Storage Planner

def less : List SortDirection → List Value → List Value → Bool
  | direction :: directions, va :: a, vb :: b =>
    match va.compare vb, direction with
    | .eq, _ => less directions a b
    | c, .descending => c = .gt
    | c, .ascending => c = .lt
  | _, _, _ => false

/-- `sort.SliceStable`. A single row is not compared with anything, so nothing is
evaluated in it. The values of a column have one type, so no comparison panics. All
clauses are evaluated in all rows, although `less` stops at the first that tells two
rows apart: a sort with a clause that panics in some row is left out. -/
def sortRows {α : Type} (valuesOf : α → Row) (orderBy : List (OrderByClause BoundValueExpr)) (rows : List α) :
    Option (List α) :=
  if rows.length ≤ 1 then some rows
  else do
    let keyed ← rows.mapM fun row => do return (← orderBy.mapM fun ob => PhysicalExpr.eval ob.expr (valuesOf row), row)
    let directions := orderBy.map (·.direction)
    return (keyed.mergeSort fun a b => !less directions b.1 a.1).map Prod.snd

/-- One more value for an aggregate, whose state is missing as long as it has not
seen any. NULL is passed over. -/
def stepAggregate (type : AggregatorType) (state : Option Value) (value : Value) : Option (Option Value) :=
  if value.isNull then some state
  else match type, state, value with
    | .count, some (.int n), _ => some (some (.int (n + 1)))
    | .count, _, _ => some (some (.int 1))
    | .sum, some (.int sum), .int v => some (some (.int (sum + v)))
    | .sum, some _, _ => none
    | .min, some least, v => some (some (if v.compare least = .lt then v else least))
    | .max, some most, v => some (some (if v.compare most = .gt then v else most))
    | .sum, none, v | .min, none, v | .max, none, v => some (some v)

def aggregateResult (type : AggregatorType) (state : Option Value) : Value :=
  state.getD (if type = .count then .int 0 else .null .int)

structure AggregateGroup where
  key : RawTuple
  groupValues : List Value
  states : List (Option Value)

section
variable (groupByClause : List PhysicalExpr) (aggClauses : List (AggregateClause BoundValueExpr))

def AggregateGroup.update (row : Row) (group : AggregateGroup) : Option AggregateGroup := do
  let states ← (aggClauses.zip group.states).mapM fun entry => do
    stepAggregate entry.1.type entry.2 (← PhysicalExpr.eval entry.1.expr row)
  return { group with states }

/-- The groups are told apart by the bytes of their values. -/
def groupKey (groupDesc : RawTupleDesc) (keyValues : List Value) : Option RawTuple :=
  (Tuple.fromValues keyValues).writeToBuffer (List.replicate groupDesc.bytesPerTuple 0) groupDesc

/-- The group is updated where it is, or comes last when it is new. -/
def putRow (row : Row) (key : RawTuple) (keyValues : List Value) : List AggregateGroup → Option (List AggregateGroup)
  | [] => do return [← AggregateGroup.update aggClauses row ⟨key, keyValues, aggClauses.map fun _ => none⟩]
  | group :: rest =>
    if group.key = key then do return (← group.update aggClauses row) :: rest
    else do return group :: (← putRow row key keyValues rest)

def aggregateRow (groupDesc : RawTupleDesc) (groups : List AggregateGroup) (row : Row) : Option (List AggregateGroup) := do
  let keyValues ← groupByClause.mapM (·.eval row)
  putRow aggClauses row (← groupKey groupDesc keyValues) keyValues groups

def AggregateGroup.output (group : AggregateGroup) : Row :=
  group.groupValues ++ (aggClauses.zip group.states).map fun entry => aggregateResult entry.1.type entry.2

/-- Without a row there is no group, and without a group no result. -/
def aggregateRows (rows : List Row) : Option (List Row) := do
  let groupDesc ← newRawTupleDesc (groupByClause.map (Expr.outputType BoundValueExpr.outputType))
  let groups ← rows.foldlM (aggregateRow groupByClause aggClauses groupDesc) []
  return groups.map (AggregateGroup.output aggClauses)

end

/-- A row of constants is written over the one before it. A column that no row has
set so far holds no value yet. -/
def putValues (currentValues : List (Option Value)) (row : List PhysicalExpr) : Option (List (Option Value)) := do
  let vals ← row.mapM (·.eval [])
  if vals.length ≤ currentValues.length then return vals.map some ++ currentValues.drop vals.length else none

/-- The rows from the one after `currentValues` on. -/
def valuesRows (currentValues : List (Option Value)) : List (List PhysicalExpr) → Option (List Row)
  | [] => some []
  | row :: rest => do
    let currentValues ← putValues currentValues row
    return (← currentValues.mapM id) :: (← valuesRows currentValues rest)

end GoDB.Execution
