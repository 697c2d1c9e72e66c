import GoDB.Execution.Operators
import GoDB.Lib.Partial

/-! The rows of a plan: what its executor returns when it is pulled to the end.
A plan has no rows when an executor panics or reports an error. The hash join,
the sort-merge join, the index join and the combined sort and limit have no
executor yet; they are taken by what their nodes are documented to mean. -/

namespace GoDB.Execution
open Common Lib Storage Indexing Planner

structure StoredTable where
  desc : RawTupleDesc
  rows : List (RecordID × RawTuple)
  distinct : (rows.map Prod.fst).Nodup
  proper : ∀ rid ∈ rows.map Prod.fst, 0 ≤ rid.pageID.pageNum ∧ 0 ≤ rid.slot

namespace StoredTable

def rowOf (table : StoredTable) (stored : RecordID × RawTuple) : Row := table.desc.values stored.2

def readTuple (table : StoredTable) (rid : RecordID) : Option Row :=
  (table.rows.find? (·.1 = rid)).map table.rowOf

/-- Rows on one page, for samples. -/
def ofRows (oid : ObjectID) (desc : RawTupleDesc) (rows : List Row) : StoredTable where
  desc := desc
  rows := rows.zipIdx.map fun entry => (⟨⟨oid, 0⟩, entry.2⟩, entry.1.flatMap (·.writeTo))
  distinct := by
    rw [List.map_map, List.Nodup, List.pairwise_map]
    refine (List.pairwise_map.mp (List.zipIdx_map_snd 0 rows ▸ List.nodup_range')).imp fun differ same => differ ?_
    simpa using same
  proper rid member := by
    rw [List.map_map] at member
    obtain ⟨entry, -, rfl⟩ := List.mem_map.mp member
    exact ⟨le_rfl, Int.natCast_nonneg entry.2⟩

end StoredTable

structure Database where
  tables : ObjectID → Option StoredTable
  indexes : ObjectID → Option Index

def Database.of (tables : List (ObjectID × StoredTable)) (indexes : List (ObjectID × Index)) : Database :=
  ⟨fun oid => tables.lookup oid, fun oid => indexes.lookup oid⟩

/-- `BindKey` cuts the key to the size of the index's and panics on a shorter one. -/
def bindKey (index : Index) (key : Key) : Option Key :=
  if index.metadata.keySize ≤ key.length then some (index.metadata.asKey key) else none

def pairs (left right : List Row) : List (Row × Row) := left.flatMap fun l => right.map (Prod.mk l)

def joined (pair : Row × Row) : Row := pair.1 ++ pair.2

/-- Every key of the left row compares equal to the one of the right row and
neither is NULL. -/
def keysMatch (leftKeys rightKeys : List PhysicalExpr) (pair : Row × Row) : Option Bool := do
  let leftVals ← leftKeys.mapM (·.eval pair.1)
  let rightVals ← rightKeys.mapM (·.eval pair.2)
  let results ← (leftVals.zip rightVals).mapM fun vals => ComparisonType.equal.eval vals.1 vals.2
  return results.all exprIsTrue

/-- The key that a left row probes an index with; NULL is never looked up. -/
def probeKey (metadata : IndexMetadata) (leftKeys : List PhysicalExpr) (row : Row) : Option (Option Key) := do
  let vals ← leftKeys.mapM (·.eval row)
  if vals.map (·.type) = metadata.keySchema.fields then
    return if vals.any (·.isNull) then none else some (vals.flatMap (·.writeTo))
  else none

def probe (index : Index) (table : StoredTable) (leftKeys : List PhysicalExpr) (row : Row) : Option (List (Row × Row)) := do
  match ← probeKey index.metadata leftKeys row with
  | none => return []
  | some key => return (← (index.scanKey key).mapM table.readTuple).map (Prod.mk row)

def planRows (db : Database) : PlanNode → Option (List Row)
  | .seqScan tableOid _ => (db.tables tableOid).map fun table => table.rows.map table.rowOf
  | .indexLookup indexOid tableOid _ equalityKey => do
    let index ← db.indexes indexOid
    let table ← db.tables tableOid
    let key ← bindKey index equalityKey
    (index.scanKey key).mapM table.readTuple
  | .indexScan indexOid tableOid _ direction startKey => do
    let index ← db.indexes indexOid
    let table ← db.tables tableOid
    let key ← bindKey index startKey
    (← index.scan (some key) direction).mapM table.readTuple
  | .filter child predicate => do select predicate.test (← planRows db child)
  | .projection child expressions => do (← planRows db child).mapM fun row => expressions.mapM (·.eval row)
  | .materialize child => planRows db child
  | .nestedLoopJoin left right predicate => do
    select predicate.test ((pairs (← planRows db left) (← planRows db right)).map joined)
  | .hashJoin left right leftKeys rightKeys | .sortMergeJoin left right leftKeys rightKeys => do
    return (← select (keysMatch leftKeys rightKeys) (pairs (← planRows db left) (← planRows db right))).map joined
  | .indexNestedLoopJoin left rightTableOid rightIndexOid leftKeys _ => do
    let index ← db.indexes rightIndexOid
    let table ← db.tables rightTableOid
    let found ← (← planRows db left).mapM (probe index table leftKeys)
    return found.flatten.map joined
  | .values values schema => valuesRows (schema.map fun _ => none) values
  | .limit child limit => do return (← planRows db child).take limit.toNat
  | .sort child orderBy => do sortRows id orderBy (← planRows db child)
  | .topN child limit orderBy => do return (← sortRows id orderBy (← planRows db child)).take limit.toNat
  | .aggregate child groupByClause aggClauses => do aggregateRows groupByClause aggClauses (← planRows db child)

end GoDB.Execution
