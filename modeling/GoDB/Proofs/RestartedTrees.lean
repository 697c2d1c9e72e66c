import GoDB.Execution.ExecutorTree
import GoDB.Proofs.RestartedOperators
import GoDB.Proofs.TableHeapMap

/-! Starting a tree of executors again, in the middle of a run or after it. -/

namespace GoDB.Execution
open Common Lib Storage Indexing Planner

variable {tableHeap : TableHeap}

section Leaves

theorem seqScanExecutor_restarts (tableHeap : TableHeap) :
    (seqScanExecutor tableHeap).quiet.Restarts (seqScanExecutor tableHeap) (fun _ => True)
      (fun e other => e.iterator = other.iterator ∧ e.iterator.err = none) := by
  refine .of_quiet ?_ ?_ (fun _ _ _ => ⟨trivial, trivial⟩) ?_
  · intro e other _ _
    exact .of_some fun _ => ⟨rfl, rfl, rfl⟩
  · rintro ⟨iterator, current⟩ ⟨_, current'⟩ ⟨rfl, -⟩
    refine (Follows.of_eq rfl).bind ?_
    rintro ⟨found, iterator⟩ _ rfl
    cases found with
    | false => exact .of_some fun fine => ⟨rfl, ⟨rfl, Option.map_eq_none_iff.mp fine⟩, nofun⟩
    | true =>
      refine .bind_same fun row => ?_
      exact .of_some fun fine => ⟨rfl, ⟨rfl, Option.map_eq_none_iff.mp fine⟩, fun _ => rfl⟩
  · rintro e other ⟨same, fine⟩
    exact ⟨Option.map_eq_none_iff.mpr fine, Option.map_eq_none_iff.mpr (same ▸ fine)⟩

theorem valuesExecutor_restarts (values : List (List PhysicalExpr)) (schema : List FieldType) :
    (valuesExecutor values schema).Restarts (valuesExecutor values schema) (fun _ => True) Eq where
  init _ _ _ _ := .of_some ⟨rfl, rfl, rfl⟩
  next e other same := (Follows.of_eq (by rw [same])).mono fun first second same =>
    ⟨congrArg Prod.fst same, congrArg Prod.snd same, fun _ => by rw [same]⟩
  clean _ _ _ := ⟨trivial, trivial⟩
  errors _ _ _ := ⟨rfl, rfl⟩

theorem readRow_buffer (formed : tableHeap.WellFormed) {rid : RecordID} {buffer other : RawTuple}
    (size : buffer.length = tableHeap.desc.bytesPerTuple) (size' : other.length = tableHeap.desc.bytesPerTuple) :
    readRow tableHeap rid buffer = readRow tableHeap rid other := by
  rw [readRow, readRow, TableHeap.readTuple_buffer formed size size']

theorem length_readRow {rid : RecordID} {buffer row : RawTuple} (read : readRow tableHeap rid buffer = some (.ok row)) :
    row.length = buffer.length := by
  obtain ⟨⟨answer, later⟩, found, same⟩ := bind_eq_some.mp read
  cases answer with
  | error => cases same
  | ok =>
    cases same
    exact TableHeap.length_readTuple found

abbrev Ready (tableHeap : TableHeap) (lastErr : Option ExecError) (buffer : RawTuple) : Prop :=
  lastErr = none ∧ buffer.length = tableHeap.desc.bytesPerTuple

theorem indexScanExecutor_restarts (formed : tableHeap.WellFormed) (index : Index) (startKey : Key)
    (direction : ScanDirection) :
    (indexScanExecutor index tableHeap startKey direction).quiet.Restarts
      (indexScanExecutor index tableHeap startKey direction) (fun e => Ready tableHeap e.lastErr e.buffer)
      (fun e other => e.iterator = other.iterator ∧ Ready tableHeap e.lastErr e.buffer ∧
        Ready tableHeap other.lastErr other.buffer) := by
  refine .of_quiet ?_ ?_ (fun _ _ same => same.2) fun _ _ same => ⟨same.2.1.1, same.2.2.1⟩
  · intro e other first second
    simp only [indexScanExecutor]
    split
    next => exact .of_some fun _ => ⟨rfl, rfl, first, second⟩
    next => exact .of_some nofun
  · rintro ⟨iterator, current, buffer, _⟩ ⟨_, current', buffer', _⟩ ⟨rfl, ⟨rfl, size⟩, rfl, size'⟩
    refine .bind_same fun rids => ?_
    cases rids with
    | nil => exact .of_some fun _ => ⟨rfl, ⟨rfl, ⟨rfl, size⟩, rfl, size'⟩, nofun⟩
    | cons rid ahead =>
      refine (Follows.of_eq (readRow_buffer formed size size')).with_eq.bind ?_
      rintro answer _ ⟨rfl, read⟩
      cases answer with
      | error err => exact .of_some nofun
      | ok row =>
        have length := (length_readRow read).trans size
        exact .of_some fun _ => ⟨rfl, ⟨rfl, ⟨rfl, length⟩, rfl, length⟩, fun _ => rfl⟩

theorem indexLookupExecutor_restarts (formed : tableHeap.WellFormed) (index : Index) (equalityKey : Key) :
    (indexLookupExecutor index tableHeap equalityKey).quiet.Restarts (indexLookupExecutor index tableHeap equalityKey)
      (fun e => Ready tableHeap e.lastErr e.buffer)
      (fun e other => (e.rids = other.rids ∧ e.ridIdx = other.ridIdx) ∧ Ready tableHeap e.lastErr e.buffer ∧
        Ready tableHeap other.lastErr other.buffer) := by
  refine .of_quiet ?_ ?_ (fun _ _ same => same.2) fun _ _ same => ⟨same.2.1.1, same.2.2.1⟩
  · intro e other first second
    exact .of_some fun _ => ⟨rfl, ⟨rfl, rfl⟩, first, second⟩
  · rintro ⟨rids, ridIdx, current, buffer, _⟩ ⟨_, _, current', buffer', _⟩ ⟨⟨rfl, rfl⟩, ⟨rfl, size⟩, rfl, size'⟩
    simp only [indexLookupExecutor]
    cases rids[ridIdx]? with
    | none => exact .of_some fun _ => ⟨rfl, ⟨⟨rfl, rfl⟩, ⟨rfl, size⟩, rfl, size'⟩, nofun⟩
    | some rid =>
      refine (Follows.of_eq (readRow_buffer formed size size')).with_eq.bind ?_
      rintro answer _ ⟨rfl, read⟩
      cases answer with
      | error err => exact .of_some nofun
      | ok row =>
        have length := (length_readRow read).trans size
        exact .of_some fun _ => ⟨rfl, ⟨⟨rfl, rfl⟩, ⟨rfl, length⟩, rfl, length⟩, fun _ => rfl⟩

end Leaves

namespace ExecutorTree

/-- The tables of the tree are as the operations on tables leave them. -/
def WellFormed : ExecutorTree → Prop
  | .seqScan _ _ | .values _ _ => True
  | .indexScan _ tableHeap _ _ _ | .indexLookup _ tableHeap _ _ => tableHeap.WellFormed
  | .filter child _ | .projection child _ | .limit child _ | .sort child _ | .aggregate child _ _ => child.WellFormed
  | .blockNestedLoopJoin left right _ => left.WellFormed ∧ right.WellFormed

theorem exists_restarts {tree : ExecutorTree} (formed : tree.WellFormed) (fuel : Nat) :
    ∃ clean alike, (tree.quietExecutor fuel).Restarts (tree.executor fuel) clean alike ∧ clean tree.fresh := by
  induction tree with
  | seqScan tableHeap => exact ⟨_, _, seqScanExecutor_restarts tableHeap, trivial⟩
  | indexScan index tableHeap _ startKey direction =>
    exact ⟨_, _, indexScanExecutor_restarts formed index startKey direction, rfl, List.length_replicate⟩
  | indexLookup index tableHeap _ equalityKey =>
    exact ⟨_, _, indexLookupExecutor_restarts formed index equalityKey, rfl, List.length_replicate⟩
  | values rows schema => exact ⟨_, _, (valuesExecutor_restarts rows schema).quiet, trivial⟩
  | filter child predicate ih =>
    obtain ⟨clean, alike, restarts, ready⟩ := ih formed
    exact ⟨_, _, (filterExecutor_restarts restarts fuel predicate).quiet, ready⟩
  | projection child expressions ih =>
    obtain ⟨clean, alike, restarts, ready⟩ := ih formed
    exact ⟨_, _, (projectionExecutor_restarts restarts expressions).quiet, ready⟩
  | limit child count ih =>
    obtain ⟨clean, alike, restarts, ready⟩ := ih formed
    exact ⟨_, _, (limitExecutor_restarts restarts count).quiet, ready⟩
  | sort child orderBy ih =>
    obtain ⟨clean, alike, restarts, ready⟩ := ih formed
    exact ⟨_, _, (sortExecutor_restarts restarts fuel child.outputSchema orderBy).quiet, ready⟩
  | aggregate child groupByClause aggClauses ih =>
    obtain ⟨clean, alike, restarts, ready⟩ := ih formed
    exact ⟨_, _, (aggregateExecutor_restarts restarts fuel groupByClause aggClauses).quiet, ready⟩
  | blockNestedLoopJoin left right predicate ihLeft ihRight =>
    obtain ⟨clean, alike, restarts, ready⟩ := ihLeft formed.1
    obtain ⟨clean', alike', restarts', ready'⟩ := ihRight formed.2
    exact ⟨_, _, (blockNestedLoopJoinExecutor_restarts restarts restarts' fuel left.outputSchema right.outputSchema
      predicate).quiet, ready, ready', rfl⟩

variable {tree : ExecutorTree} {fuel : Nat} {start middle : tree.State} {rows : List Tuple}

/-- A run without errors is one of the executors as they are. After any number of
calls of `Next`, `Init` starts a run over the same rows. -/
theorem restarts_in_the_middle (formed : tree.WellFormed)
    (began : (tree.quietExecutor fuel).init tree.fresh = some (none, start))
    (complete : (tree.quietExecutor fuel).Yields start rows)
    (moves : Relation.ReflTransGen (tree.quietExecutor fuel).Moves start middle) :
    (∃ first, (tree.executor fuel).init tree.fresh = some (none, first) ∧ (tree.executor fuel).Yields first rows) ∧
      ∃ again, (tree.executor fuel).init middle = some (none, again) ∧ (tree.executor fuel).Yields again rows := by
  obtain ⟨clean, alike, restarts, ready⟩ := exists_restarts formed fuel
  refine ⟨?_, restarts.again ready began complete moves⟩
  obtain ⟨⟨_, first⟩, began', -, rfl, same⟩ := restarts.init _ _ ready ready _ began
  exact ⟨first, began', restarts.yields same complete⟩

def filteredValues : ExecutorTree :=
  .filter (.values [[.constant (.int 1)], [.constant (.int 2)]] [.int]) (.constant (.int 1))

def afterOneRow : filteredValues.State := FilterExecutor.mk ⟨1, [some (.int 1)]⟩ (some (.fromValues [.int 1]))

theorem filter_restarts_after_one_row : ∃ again, (filteredValues.executor 1).init afterOneRow = some (none, again) ∧
    (filteredValues.executor 1).Yields again [.fromValues [.int 1], .fromValues [.int 2]] :=
  (@restarts_in_the_middle filteredValues 1 (FilterExecutor.mk ⟨0, [none]⟩ none) afterOneRow _ trivial rfl
    (.more rfl rfl (.more rfl rfl (.done rfl))) (.single ⟨true, rfl⟩)).2

end ExecutorTree
end GoDB.Execution
