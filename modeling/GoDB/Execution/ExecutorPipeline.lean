import GoDB.Execution.Executors
import GoDB.Execution.Modification

/-! The executors that change a table, called row by row, and trees of executors over
leaves of any kind. The tree remembers which of its leaves have failed, and which left
sides of joins. -/

namespace GoDB.Execution
open Common Lib Storage Indexing Planner

variable {σ : Type}

/-- The fields of the three executors that change a table. An error stays in its field:
`Init` does not clear it. -/
structure ModificationExecutor (σ : Type) where
  child : σ
  table : TableState
  current : Option Tuple
  done : Bool
  lastErr : Option ExecError

namespace ModificationExecutor

/-- What an attempt at a change leaves, and what it counted. -/
def settle (e : ModificationExecutor σ) (outcome : Outcome) : Bool × ModificationExecutor σ :=
  match outcome with
  | (.ok count, table) => (true, { e with table, current := some (.fromValues [.int count]) })
  | (.error err, table) => (false, { e with table, lastErr := some (.heap err) })

/-- `Init` and `Error` are the same in all three, and `Next` works only once. -/
def executor (child : Executor σ) (work : ModificationExecutor σ → Option (Bool × ModificationExecutor σ)) :
    Executor (ModificationExecutor σ) where
  init e := do
    let (err, below) ← child.init e.child
    return (err, { e with child := below, done := false })
  next e := if e.done then some (false, e) else work { e with done := true }
  current e := e.current
  error e := e.lastErr.or (child.error e.child)

/-- The rows are collected before any of them is changed. -/
def collect (fuel : Nat) (child : Executor σ) (apply : TableState → List Tuple → Option Outcome)
    (e : ModificationExecutor σ) : Option (Bool × ModificationExecutor σ) := do
  let (rows, below) ← drain fuel child (fun rows tuple => some (rows ++ [tuple])) [] e.child
  return { e with child := below }.settle (← apply e.table rows)

end ModificationExecutor

variable (fuel : Nat) (child : Executor σ)

def deleteExecutor : Executor (ModificationExecutor σ) :=
  ModificationExecutor.executor child (ModificationExecutor.collect fuel child DeleteExecutor.next)

def updateExecutor (expressions : List (Option PhysicalExpr)) : Executor (ModificationExecutor σ) :=
  ModificationExecutor.executor child (ModificationExecutor.collect fuel child (UpdateExecutor.next expressions))

/-- One turn of the loop of `Next`: a row is inserted as soon as it is read. -/
def insertStep (state : Int64 × ModificationExecutor σ) :
    Option (Int64 × ModificationExecutor σ ⊕ Bool × ModificationExecutor σ) := do
  let (count, e) := state
  let (found, below) ← child.next e.child
  let e := { e with child := below }
  if found then
    match ← InsertExecutor.insertRows e.table count [← child.current below] with
    | (.ok count, table) => return .inl (count, { e with table })
    | failure => return .inr (e.settle failure)
  else return .inr (e.settle (.ok count, e.table))

def insertExecutor : Executor (ModificationExecutor σ) :=
  ModificationExecutor.executor child fun e => repeatUntil (insertStep child) fuel (0, e)

/-- The executor together with whether a `Next` of it has returned false because of an error. -/
def watched (c : Executor σ) : Executor (σ × Bool) where
  init e := do
    let (err, s) ← c.init e.1
    return (err, s, e.2)
  next e := do
    let (found, s) ← c.next e.1
    return (found, s, e.2 || !found && (c.error s).isSome)
  current e := c.current e.1
  error e := c.error e.1

/-- A leaf of a tree: any executor, and the state that it is made in. -/
structure Source : Type 1 where
  State : Type
  executor : Executor State
  start : State

universe u

/-- A tree of the executors that only read. A loop is given its fuel where it stands. -/
inductive Pipeline (α : Type u) : Type u where
  | leaf (source : α)
  | filter (fuel : Nat) (child : Pipeline α) (predicate : PhysicalExpr)
  | projection (child : Pipeline α) (expressions : List PhysicalExpr)
  | limit (child : Pipeline α) (count : Int)
  | sort (fuel : Nat) (child : Pipeline α) (schema : List FieldType) (orderBy : List (OrderByClause BoundValueExpr))
  | aggregate (fuel : Nat) (child : Pipeline α) (groupByClause : List PhysicalExpr)
      (aggClauses : List (AggregateClause BoundValueExpr))
  | join (fuel : Nat) (left right : Pipeline α) (leftSchema rightSchema : List FieldType) (predicate : PhysicalExpr)

namespace Pipeline

def map {α β : Type u} (f : α → β) : Pipeline α → Pipeline β
  | .leaf source => .leaf (f source)
  | .filter fuel child predicate => .filter fuel (child.map f) predicate
  | .projection child expressions => .projection (child.map f) expressions
  | .limit child count => .limit (child.map f) count
  | .sort fuel child schema orderBy => .sort fuel (child.map f) schema orderBy
  | .aggregate fuel child groupByClause aggClauses => .aggregate fuel (child.map f) groupByClause aggClauses
  | .join fuel left right leftSchema rightSchema predicate =>
    .join fuel (left.map f) (right.map f) leftSchema rightSchema predicate

def State : Pipeline Source → Type
  | .leaf source => source.State × Bool
  | .filter _ child _ => FilterExecutor child.State
  | .projection child _ => ProjectionExecutor child.State
  | .limit child _ => LimitExecutor child.State
  | .sort _ child _ _ => SortExecutor child.State
  | .aggregate _ child _ _ => AggregateExecutor child.State
  | .join _ left right _ _ _ => BlockNestedLoopJoinExecutor (left.State × Bool) right.State

def fresh : (tree : Pipeline Source) → tree.State
  | .leaf source => (source.start, false)
  | .filter _ child _ => FilterExecutor.mk child.fresh none
  | .projection child _ => ProjectionExecutor.mk child.fresh none
  | .limit child _ => LimitExecutor.mk child.fresh 0 none
  | .sort _ child _ _ => SortExecutor.mk child.fresh none [] (-1) false none
  | .aggregate _ child _ _ => AggregateExecutor.mk child.fresh [] (-1) none
  | .join _ left right _ _ _ =>
    BlockNestedLoopJoinExecutor.mk (left.fresh, false) right.fresh none none [] none none [] 0 false

def executor : (tree : Pipeline Source) → Executor tree.State
  | .leaf source => watched source.executor
  | .filter fuel child predicate => filterExecutor fuel child.executor predicate
  | .projection child expressions => projectionExecutor child.executor expressions
  | .limit child count => limitExecutor child.executor count
  | .sort fuel child schema orderBy => sortExecutor fuel child.executor schema orderBy
  | .aggregate fuel child groupByClause aggClauses => aggregateExecutor fuel child.executor groupByClause aggClauses
  | .join fuel left right leftSchema rightSchema predicate =>
    blockNestedLoopJoinExecutor fuel (watched left.executor) right.executor leftSchema rightSchema predicate

def Failed : (tree : Pipeline Source) → tree.State → Prop
  | .leaf _, (e : _ × Bool) => e.2 = true
  | .filter _ child _, (e : FilterExecutor child.State) => child.Failed e.child
  | .projection child _, (e : ProjectionExecutor child.State) => child.Failed e.child
  | .limit child _, (e : LimitExecutor child.State) => child.Failed e.child
  | .sort _ child _ _, (e : SortExecutor child.State) => child.Failed e.child
  | .aggregate _ child _ _, (e : AggregateExecutor child.State) => child.Failed e.child
  | .join _ left right _ _ _, (e : BlockNestedLoopJoinExecutor (left.State × Bool) right.State) =>
    left.Failed e.left.1 ∨ right.Failed e.right

/-- The left side of a join has failed in `Next`. -/
def Lost : (tree : Pipeline Source) → tree.State → Prop
  | .leaf _, _ => False
  | .filter _ child _, (e : FilterExecutor child.State) => child.Lost e.child
  | .projection child _, (e : ProjectionExecutor child.State) => child.Lost e.child
  | .limit child _, (e : LimitExecutor child.State) => child.Lost e.child
  | .sort _ child _ _, (e : SortExecutor child.State) => child.Lost e.child
  | .aggregate _ child _ _, (e : AggregateExecutor child.State) => child.Lost e.child
  | .join _ left right _ _ _, (e : BlockNestedLoopJoinExecutor (left.State × Bool) right.State) =>
    e.left.2 = true ∨ left.Lost e.left.1 ∨ right.Lost e.right

end Pipeline

/-- A statement: a tree whose rows are returned or used to change a table. -/
inductive Root (α : Type u) : Type u where
  | read (tree : Pipeline α)
  | insert (fuel : Nat) (tree : Pipeline α) (table : TableState)
  | delete (fuel : Nat) (tree : Pipeline α) (table : TableState)
  | update (fuel : Nat) (tree : Pipeline α) (table : TableState) (expressions : List (Option PhysicalExpr))

namespace Root

def tree {α : Type u} : Root α → Pipeline α
  | .read tree | .insert _ tree _ | .delete _ tree _ | .update _ tree _ _ => tree

def State : Root Source → Type
  | .read tree => tree.State
  | .insert _ tree _ | .delete _ tree _ | .update _ tree _ _ => ModificationExecutor tree.State

def fresh : (root : Root Source) → root.State
  | .read tree => tree.fresh
  | .insert _ tree table | .delete _ tree table | .update _ tree table _ =>
    ModificationExecutor.mk tree.fresh table none false none

def executor : (root : Root Source) → Executor root.State
  | .read tree => tree.executor
  | .insert fuel tree _ => insertExecutor fuel tree.executor
  | .delete fuel tree _ => deleteExecutor fuel tree.executor
  | .update fuel tree _ expressions => updateExecutor fuel tree.executor expressions

def below : (root : Root Source) → root.State → root.tree.State
  | .read _, e => e
  | .insert .., e | .delete .., e | .update .., e => ModificationExecutor.child e

def Failed (root : Root Source) (e : root.State) : Prop := root.tree.Failed (root.below e)

def Lost (root : Root Source) (e : root.State) : Prop := root.tree.Lost (root.below e)

end Root
end GoDB.Execution
