import GoDB.Common.Successor
import GoDB.Lib.Terms
import GoDB.Planner.Plan

/-! The rules that turn a scan of a table into a physical plan. A rule without a
result returns an error or panics. -/

namespace GoDB.Planner
open Common Lib Storage Indexing

variable [Identifiers]

/-- The filter and the projection on top of a scan. The child of the projection is
a scan or a filter, so there is no projection below to fuse it with. -/
def finishScan (scanNode : LogicalScanNode) (physicalNode : PlanNode) (preds : List LogicalExpr) : Option PlanNode := do
  let plan ← wrapInFilter physicalNode preds scanNode.rawOutputSchema
  match scanNode.projection with
  | none => return plan
  | some projection =>
    return .projection plan (← bindExprs projection.expressions scanNode.rawOutputSchema plan.outputSchema)

namespace SeqScanRule

def apply (scanNode : LogicalScanNode) (c : Catalog) : Option PlanNode := do
  let table ← c.getTableByOid scanNode.tableOid
  finishScan scanNode (.seqScan scanNode.tableOid (tableSchemaToTypes table)) scanNode.predicates

end SeqScanRule

/-- What was found, when the column is one of the table's. A column without an origin has no alias to ask for, and the
source panics. -/
def ifOn {α : Type} (tableAlias : String) (col : LogicalColumn) (found : α) : Option (Option α) :=
  col.origin.map fun origin => if origin.tableAlias = tableAlias then some found else none

def isEqualityScan (tableAlias : String) : LogicalExpr → Option (Option (LogicalColumn × Value))
  | .comparison _ (.column col) (.constant val) .equal | .comparison _ (.constant val) (.column col) .equal =>
    ifOn tableAlias col (col, val)
  | _ => some none

def flipComparison : ComparisonType → ComparisonType
  | .greaterThan => .lessThan
  | .greaterThanOrEqual => .lessThanOrEqual
  | .lessThan => .greaterThan
  | .lessThanOrEqual => .greaterThanOrEqual
  | op => op

def isRangeScan (tableAlias : String) : LogicalExpr → Option (Option (LogicalColumn × Value × ComparisonType))
  | .comparison _ (.column col) (.constant val) compType => ifOn tableAlias col (col, val, compType)
  | .comparison _ (.constant val) (.column col) compType => ifOn tableAlias col (col, val, flipComparison compType)
  | .negation _ child =>
    (isRangeScan tableAlias child).map (Option.map fun (col, val, op) => (col, val, flipComparison op))
  | _ => some none

/-- The cross product of two sides, unless one has no terms. -/
def andTerms (left right : List (List LogicalExpr)) : List (List LogicalExpr) :=
  if left.isEmpty then right else if right.isEmpty then left else Terms.cross left right

mutual

/-- A negation is a new node each time, at an address that no other call uses. -/
def toDNFTerms (call : Nat) : LogicalExpr → Option (List (List LogicalExpr))
  | .logic _ left right .or => do return (← toDNFTerms call left) ++ (← toDNFTerms call right)
  | .logic _ left right .and => do return andTerms (← toDNFTerms call left) (← toDNFTerms call right)
  | .negation _ child => negateToDNF call child
  | .comparison address left right compType => some [[.comparison address left right compType]]
  | .nullCheck address child checkType => some [[.nullCheck address child checkType]]
  | .like address left right => some [[.like address left right]]
  | .column _ | .constant _ | .arithmetic _ _ _ | .concat _ _ => none

def negateToDNF (call : Nat) : LogicalExpr → Option (List (List LogicalExpr))
  | .negation _ child => toDNFTerms call child
  | .logic _ left right .and => do return (← negateToDNF call left) ++ (← negateToDNF call right)
  | .logic _ left right .or => do return andTerms (← negateToDNF call left) (← negateToDNF call right)
  | .comparison address left right compType => some [[.negation call (.comparison address left right compType)]]
  | .nullCheck address child checkType => some [[.negation call (.nullCheck address child checkType)]]
  | .like address left right => some [[.negation call (.like address left right)]]
  | .column col => some [[.negation call (.column col)]]
  | .constant val => some [[.negation call (.constant val)]]
  | .arithmetic left right op => some [[.negation call (.arithmetic left right op)]]
  | .concat left right => some [[.negation call (.concat left right)]]

end

def predicatesToDNFTerms (call : Nat) (predicates : List LogicalExpr) : Option (List (List LogicalExpr)) :=
  match mergePredicates predicates with
  | none => some []
  | some merged => toDNFTerms call merged

/-- The operator is there when the last matched column is matched by a range. -/
structure IndexMatchResult where
  values : List Value := []
  rangeOp : Option ComparisonType := none
  matchedPreds : List LogicalExpr := []

def IndexMatchResult.numMatchedColumns (result : IndexMatchResult) : Nat := result.values.length

def IndexMatchResult.isRange (result : IndexMatchResult) : Bool := result.rangeOp.isSome

def equalityOn (predicates : List LogicalExpr) (tableAlias colName : String) : Option (Option (LogicalExpr × Value)) :=
  predicates.findSomeM? fun pred => do
    match ← isEqualityScan tableAlias pred with
    | some (col, val) => return if col.cname = colName then some (pred, val) else none
    | none => return none

def rangeOn (predicates : List LogicalExpr) (tableAlias colName : String) :
    Option (Option (LogicalExpr × Value × ComparisonType)) :=
  predicates.findSomeM? fun pred => do
    match ← isRangeScan tableAlias pred with
    | some (col, val, op) => return if col.cname = colName then some (pred, val, op) else none
    | none => return none

/-- A range ends the loop, and so does a column without a match. -/
def matchColumns (predicates : List LogicalExpr) (tableAlias : String) :
    List String → IndexMatchResult → Option IndexMatchResult
  | [], result => some result
  | colName :: rest, result => do
    match ← equalityOn predicates tableAlias colName with
    | some (pred, val) =>
      matchColumns predicates tableAlias rest
        { result with values := result.values ++ [val], matchedPreds := result.matchedPreds ++ [pred] }
    | none =>
      match ← rangeOn predicates tableAlias colName with
      | some (pred, val, op) =>
        return { values := result.values ++ [val], matchedPreds := result.matchedPreds ++ [pred], rangeOp := some op }
      | none => return result

/-- A range is returned from within the loop, with fewer columns than the index
has when more follow. -/
def analyzeIndexTerm (idx : Catalog.Index) (predicates : List LogicalExpr) (tableAlias : String) :
    Option IndexMatchResult := do
  let result ← matchColumns predicates tableAlias idx.keySchema {}
  return if result.isRange then result else if result.numMatchedColumns < idx.keySchema.length then {} else result

/-- The first result with the most columns. -/
def better {α : Type} (numMatched : α → Nat) (best : Option α) (next : α) : Option α :=
  match best with
  | none => some next
  | some best => if numMatched best < numMatched next then some next else some best

def analyzeIndex (idx : Catalog.Index) (predicates : List LogicalExpr) (tableAlias : String) : Option IndexMatchResult := do
  let terms ← predicatesToDNFTerms 0 predicates
  let results ← terms.mapM fun term => analyzeIndexTerm idx term tableAlias
  return (results.foldl (better (·.numMatchedColumns)) none).getD {}

/-- The loop of both rules' `Match`. It stops at the first index that can be used. -/
def hasIndex (usable : Catalog.Index → IndexMatchResult → Bool) (c : Catalog) (tableOid : ObjectID) (tableAlias : String)
    (predicates : List LogicalExpr) : Option Bool :=
  if predicates.isEmpty then some false
  else match c.getTableByOid tableOid with
    | none => some false
    | some table => table.indexes.anyM fun idx => do return usable idx (← analyzeIndex idx predicates tableAlias)

def chooseIndex (usable : IndexMatchResult → Bool) (scanNode : LogicalScanNode) (table : Catalog.Table) :
    Option (Catalog.Index × IndexMatchResult) := do
  let results ← table.indexes.mapM fun idx => do
    return (idx, ← analyzeIndex idx scanNode.predicates scanNode.tableAlias)
  (results.filter (usable ·.2)).foldl (better (·.2.numMatchedColumns)) none

/-- The type of the first column of that name; without one the source has no size
to write the value with. -/
def keyTypes (table : Catalog.Table) (keySchema : List String) : Option (List FieldType) :=
  keySchema.mapM fun colName => (table.columns.find? (·.name = colName)).map (·.type)

def makeMultiColumnKey (values : List Value) (types : List FieldType) : Option Key :=
  if values.length = types.length then do
    let desc ← newRawTupleDesc types
    values.zipIdx.foldlM (fun buf entry => desc.setValue buf entry.2 entry.1) (List.replicate desc.bytesPerTuple 0)
  else none

def matchKey (table : Catalog.Table) (idx : Catalog.Index) (values : List Value) : Option Key := do
  makeMultiColumnKey values (← keyTypes table (idx.keySchema.take values.length))

/-- What is left of each term, ANDed together; nothing when a term is used up. -/
def residualPredicates (matchedPreds : List LogicalExpr) (terms : List (List LogicalExpr)) : List LogicalExpr :=
  let residuals := terms.map fun term => term.filter (· ∉ matchedPreds)
  if residuals.any (·.isEmpty) then [] else residuals.filterMap mergePredicates

def applyIndexResidualsAndProjection (physicalNode : PlanNode) (scanNode : LogicalScanNode)
    (found : IndexMatchResult) : Option PlanNode := do
  let dnfPredicates ← predicatesToDNFTerms 1 scanNode.predicates
  finishScan scanNode physicalNode (residualPredicates found.matchedPreds dnfPredicates)

namespace IndexScanRule

def isMatch : Catalog → ObjectID → String → List LogicalExpr → Option Bool :=
  hasIndex fun idx found => found.numMatchedColumns = idx.keySchema.length && found.isRange

/-- An exclusive bound moves to the neighbouring value. -/
def startValues (op : ComparisonType) (values : List Value) : Option (List Value) :=
  match op, values.getLast? with
  | .lessThan, some lastVal => do return values.dropLast ++ [← lastVal.decrement]
  | .greaterThan, some lastVal => do return values.dropLast ++ [← lastVal.increment]
  | _, _ => some values

def direction (op : ComparisonType) : ScanDirection :=
  if op = .lessThan ∨ op = .lessThanOrEqual then .backward else .forward

def apply (scanNode : LogicalScanNode) (c : Catalog) : Option PlanNode := do
  let table ← c.getTableByOid scanNode.tableOid
  let (bestIdx, bestMatch) ← chooseIndex (fun found => 0 < found.numMatchedColumns && found.isRange) scanNode table
  let op ← bestMatch.rangeOp
  let key ← matchKey table bestIdx (← startValues op bestMatch.values)
  applyIndexResidualsAndProjection
    (.indexScan bestIdx.oid scanNode.tableOid (tableSchemaToTypes table) (direction op) key) scanNode bestMatch

end IndexScanRule

namespace IndexLookupRule

def isMatch : Catalog → ObjectID → String → List LogicalExpr → Option Bool :=
  hasIndex fun _ found => 0 < found.numMatchedColumns && !found.isRange

def apply (scanNode : LogicalScanNode) (c : Catalog) : Option PlanNode := do
  let table ← c.getTableByOid scanNode.tableOid
  let (bestIdx, bestMatch) ← chooseIndex (fun found => 0 < found.numMatchedColumns && !found.isRange) scanNode table
  let key ← matchKey table bestIdx bestMatch.values
  applyIndexResidualsAndProjection
    (.indexLookup bestIdx.oid scanNode.tableOid (tableSchemaToTypes table) key) scanNode bestMatch

end IndexLookupRule
end GoDB.Planner
