import GoDB.Planner.Binder

/-! The translation of statements into logical plans. -/

namespace GoDB.Planner
open Common LogicalPlanNode

/-- A missing result is an error. -/
def resolveConstantInt : SqlExpr → Option Int
  | .sqlVal .intVal val => do return (← parseInt val).toInt
  | _ => none

/-- A number that is not given is zero. -/
def resolveOptional : Option SqlExpr → Option Int
  | none => some 0
  | some expr => resolveConstantInt expr

def planLimit (limitStmt : Option Limit) (child : LogicalPlanNode) : Option LogicalPlanNode :=
  match limitStmt with
  | none => some child
  | some limitStmt => do
    let limit ← resolveOptional limitStmt.rowcount
    let offset ← resolveOptional limitStmt.offset
    return newLogicalLimitNode child limit offset

namespace LogicalPlanBuilder
open Lib Catalog

/-- Each source has an id of its own, and each node of an expression an address. -/
structure State where
  currentTableRefID : Nat
  nextAddress : Nat

def newLogicalPlanBuilder : State := ⟨1, 0⟩

abbrev Builder := StateT State (Outcome PlanError)

def lift {α : Type} (x : Outcome PlanError α) : Builder α := fun state => do return (← x, state)

def fail {α : Type} (err : PlanError) : Builder α := lift (.error err)

def getNextTableRefID : Builder Nat := fun state =>
  .ok (state.currentTableRefID, { state with currentTableRefID := state.currentTableRefID + 1 })

section
variable [Identifiers] (c : SystemCatalog) (printer : SqlPrinter) (scope : FromScope)

/-- `bindExpr`, with addresses that are not in use. -/
def bind (expr : SqlExpr) : Builder LogicalExpr := fun state => do
  let e ← bindExpr printer scope state.nextAddress expr
  return (e, { state with nextAddress := state.nextAddress + nodes expr })

variable (tableRef : TableRef)

def columnsOf (columns : List Column) : LogicalSchema :=
  columns.map fun col => ⟨col.name, col.type, some tableRef⟩

def planBaseTable (name tableAlias : String) : Builder (FromScope × LogicalPlanNode) := do
  let tableName := compliantName name
  let table ← lift (.ofExcept .metadata (c.getTableMetadata tableName))
  let tableRef := TableRef.mk (if tableAlias = "" then tableName else tableAlias) (← getNextTableRefID)
  let schema := columnsOf tableRef table.columns
  return (⟨[⟨tableRef, schema, some table⟩]⟩, newLogicalScanNode tableRef table.oid schema)

/-- A subquery renames the columns of its plan. -/
def planSubquery (select : SelectStatement) (tableAlias : String) (subPlan : LogicalPlanNode) :
    Builder (FromScope × LogicalPlanNode) := do
  let tableRef := TableRef.mk tableAlias (← getNextTableRefID)
  if tableAlias = "" then fail (.unaliasedSubquery (printer.selectStatement select))
  else
    let schema : LogicalSchema := subPlan.outputSchema.map fun col => ⟨col.cname, col.ctype, some tableRef⟩
    return (⟨[⟨tableRef, schema, none⟩]⟩, newLogicalSubqueryNode tableRef schema subPlan)

def bindUsing (leftScope rightScope : FromScope) (name : String) : Builder LogicalExpr := do
  let leftCol ← lift ((bindUnqualifiedCol leftScope name).mapError (.usingLeft name))
  let rightCol ← lift ((bindUnqualifiedCol rightScope name).mapError (.usingRight name))
  if leftCol.ctype = rightCol.ctype then
    fun state => .ok (.comparison state.nextAddress (.column leftCol) (.column rightCol) .equal,
      { state with nextAddress := state.nextAddress + 1 })
  else fail (.usingTypes name)

def joinTypeOf : JoinStr → Option JoinType
  | .leftJoin => some .left
  | .rightJoin => some .right
  | .join => some .inner
  | .straightJoin | .naturalJoin | .naturalLeftJoin | .naturalRightJoin => none

def mergeScopes (left right : FromScope) : FromScope := ⟨left.sourceTables ++ right.sourceTables⟩

def bindOn : Option SqlExpr → Builder (List LogicalExpr)
  | none => return []
  | some on => do return [← bind printer scope on]

/-- The conditions are bound before the kind of the join is looked at. -/
def planExplicitJoin (joinStr : JoinStr) (condition : JoinCondition) (left right : FromScope × LogicalPlanNode) :
    Builder (FromScope × LogicalPlanNode) := do
  let mergedScope := mergeScopes left.1 right.1
  let on ← bindOn printer mergedScope condition.on
  let using_ ← condition.using_.mapM (bindUsing left.1 right.1)
  match joinTypeOf joinStr with
  | some joinType => return (mergedScope, newLogicalJoinNode left.2 right.2 (on ++ using_) joinType)
  | none => fail (.joinType joinStr)

def planCondition (plan : LogicalPlanNode) : Option SqlExpr → Builder LogicalPlanNode
  | none => return plan
  | some expr => do return newLogicalFilterNode plan (← bind printer scope expr)

def planOrder (orderByStmt : List Order) (child : LogicalPlanNode) (scope : FromScope) : Builder LogicalPlanNode :=
  if orderByStmt.isEmpty then return child
  else do
    let orderByClauses ← orderByStmt.mapM fun ob => do
      return OrderByClause.mk (← bind printer scope ob.expr) (if ob.descending then .descending else .ascending)
    return newLogicalSortNode child orderByClauses

def constantIntError : SqlExpr → PlanError
  | .sqlVal .intVal val => .intSyntax val
  | _ => .notConstantInt

def limitError (limitStmt : Limit) : PlanError :=
  match limitStmt.rowcount, limitStmt.offset with
  | some rowcount, offset =>
    if (resolveConstantInt rowcount).isNone then constantIntError rowcount
    else (offset.map constantIntError).getD .notConstantInt
  | none, offset => (offset.map constantIntError).getD .notConstantInt

def limited (limitStmt : Option Limit) (child : LogicalPlanNode) : Builder LogicalPlanNode :=
  match planLimit limitStmt child with
  | some plan => return plan
  | none => fail ((limitStmt.map limitError).getD .notConstantInt)

def resolveAggregatorType (funcName : String) : Outcome PlanError AggregatorType :=
  if toLower funcName = "count" then .ok .count
  else if toLower funcName = "sum" then .ok .sum
  else if toLower funcName = "min" then .ok .min
  else if toLower funcName = "max" then .ok .max
  else .error (.unrecognizedAggregator funcName)

mutual

/-- The calls of aggregates, from left to right. What stands inside of one is not looked at. -/
def aggregateCalls : SqlExpr → List (String × List SelectExpr)
  | .func name _ exprs => if isAggregate name then [(name, exprs)] else aggregateCallsOfAll exprs
  | .comparison _ left right | .and left right | .or left right | .binary _ left right =>
    aggregateCalls left ++ aggregateCalls right
  | .not expr | .paren expr | .is expr _ => aggregateCalls expr
  | .other _ below => aggregateCallsBelow below
  | .colName _ _ | .sqlVal _ _ | .nullVal => []

def aggregateCallsBelow : List SqlExpr → List (String × List SelectExpr)
  | [] => []
  | expr :: rest => aggregateCalls expr ++ aggregateCallsBelow rest

def aggregateCallsOf : SelectExpr → List (String × List SelectExpr)
  | .aliased expr _ => aggregateCalls expr
  | .star _ | .nextval _ => []

def aggregateCallsOfAll : List SelectExpr → List (String × List SelectExpr)
  | [] => []
  | expr :: rest => aggregateCallsOf expr ++ aggregateCallsOfAll rest

end

/-- A call without arguments has no first one to look at. -/
def bindArgument (name : String) : List SelectExpr → Builder LogicalExpr
  | [.star _] => if toUpper name = "COUNT" then return .constant (.int 1) else fail .starArgument
  | .aliased expr _ :: _ => bind printer scope expr
  | .star _ :: _ :: _ | .nextval _ :: _ => fail .aggregateArgument
  | [] => lift .panics

def bindAggregate (call : String × List SelectExpr) : Builder (AggregateClause LogicalColumn) := do
  let expr ← bindArgument printer scope call.1 call.2
  return ⟨← lift (resolveAggregatorType (compliantName call.1)), expr⟩

def aggregatedScope (refID : Nat) (schema : LogicalSchema) : FromScope := ⟨[⟨⟨"agg_" ++ toString refID, refID⟩, schema, none⟩]⟩

/-- Without a GROUP BY and a call of an aggregate nothing is done, not even with a HAVING. -/
def planAggregation (selectExprs : List SelectExpr) (groupBy : List SqlExpr) (having : Option SqlExpr)
    (child : LogicalPlanNode) (scope : FromScope) : Builder (LogicalPlanNode × FromScope) := do
  let aggClauses ← (aggregateCallsOfAll selectExprs ++ (having.map aggregateCalls).getD []).mapM (bindAggregate printer scope)
  if groupBy.isEmpty && aggClauses.isEmpty then return (child, scope)
  else
    let groupByExprs ← groupBy.mapM (bind printer scope)
    let aggNode := newLogicalAggregationNode child groupByExprs aggClauses
    let newScope := aggregatedScope (← getNextTableRefID) aggNode.outputSchema
    return (← planCondition printer newScope aggNode having, newScope)

/-- A column keeps its origin under an alias; anything else has none. -/
def selectedColumn (projExpr : LogicalExpr) (as : String) : LogicalColumn :=
  match projExpr with
  | .column col => ⟨if as = "" then col.cname else compliantName as, col.ctype, col.origin⟩
  | _ => ⟨if as = "" then projExpr.string else compliantName as, projExpr.outputType, none⟩

/-- The qualifier of a star is not looked at. -/
def bindSelectExpr (plan : LogicalPlanNode) (scope : FromScope) : SelectExpr → Builder (List (LogicalExpr × LogicalColumn))
  | .aliased expr as => do
    let projExpr ← bind printer scope expr
    return [(projExpr, selectedColumn projExpr as)]
  | .star _ => return plan.outputSchema.map fun col => (.column col, col)
  | .nextval _ => fail (.selectExpression "sqlparser.Nextval")

def planClauses (plan : LogicalPlanNode) (selectExprs : List SelectExpr) (whereExpr : Option SqlExpr)
    (groupBy : List SqlExpr) (having : Option SqlExpr) (orderBy : List Order) (limit : Option Limit) :
    Builder LogicalPlanNode := do
  let plan ← planCondition printer scope plan whereExpr
  let (plan, scope) ← planAggregation printer selectExprs groupBy having plan scope
  let plan ← planOrder printer orderBy plan scope
  let plan ← limited limit plan
  let items ← selectExprs.mapM (bindSelectExpr printer plan scope)
  return newLogicalProjectionNode plan (items.flatten.map Prod.fst) (items.flatten.map Prod.snd)

mutual

/-- DISTINCT is not looked at. -/
def planSelect : SelectStatement → Builder LogicalPlanNode
  | .select _ selectExprs fromExprs whereExpr groupBy having orderBy limitStmt => do
    let (scope, plan) ← planFrom fromExprs
    planClauses printer scope plan selectExprs whereExpr groupBy having orderBy limitStmt
  | .parenSelect select => planSelect select
  | .union => fail (.statementUnsupported "*sqlparser.Union")

def planFrom : List TableExpr → Builder (FromScope × LogicalPlanNode)
  | [] => fail .emptyFrom
  | first :: rest => do planCross (← planTableExpr first) rest

def planCross (left : FromScope × LogicalPlanNode) : List TableExpr → Builder (FromScope × LogicalPlanNode)
  | [] => return left
  | next :: rest => do
    let (nextScope, nextPlan) ← planTableExpr next
    planCross (mergeScopes left.1 nextScope, newLogicalJoinNode left.2 nextPlan [] .cross) rest

def planTableExpr : TableExpr → Builder (FromScope × LogicalPlanNode)
  | .aliased expr as => planAliasedTable as expr
  | .join leftExpr joinStr rightExpr condition => do
    let left ← planTableExpr leftExpr
    let right ← planTableExpr rightExpr
    planExplicitJoin printer joinStr condition left right
  | .paren exprs => planFrom exprs

def planAliasedTable (as : String) : SimpleTableExpr → Builder (FromScope × LogicalPlanNode)
  | .tableName name => planBaseTable c name as
  | .subquery select => do planSubquery printer select as (← planSelect select)

end

def insertSchema (columns : List Column) (listed : List String) : Builder LogicalSchema :=
  if listed.isEmpty then return columnsOf tableRef columns
  else listed.mapM fun name => do
    let boundCol ← lift ((bindUnqualifiedCol ⟨[⟨tableRef, columnsOf tableRef columns, none⟩]⟩ name).mapError
      (.insertColumn (compliantName name)))
    if boundCol.origin = some tableRef then return boundCol else fail (.insertForeign (compliantName name))

def valuesColumn (i : Nat) (expr : LogicalExpr) : LogicalColumn := ⟨"values_col_" ++ toString i, expr.outputType, none⟩

/-- The first row gives the schema. Without a row there is no node, which the caller asks for its schema. -/
def buildValues : List (List LogicalExpr) → Builder LogicalPlanNode
  | [] => lift .panics
  | firstRow :: rest => return newLogicalValuesNode (firstRow :: rest) (firstRow.mapIdx valuesColumn)

def planRows : InsertRows → Builder LogicalPlanNode
  | .select .union => fail .insertUnion
  | .select select => planSelect c printer select
  | .values rows => do buildValues (← rows.mapM (List.mapM (bind printer ⟨[]⟩)))

def exactMatch (logicalSchema : LogicalSchema) (columns : List Column) : Bool :=
  logicalSchema.map (fun col => (col.cname, col.ctype)) = columns.map fun col => (col.name, col.type)

/-- `sourceMap`: the column of the source for a column of the table. The last one that is listed counts. -/
def sourceColumn (logicalSchema sourceSchema : LogicalSchema) (name : String) : Option LogicalColumn :=
  ((logicalSchema.zip sourceSchema).reverse.find? (·.1.cname = name)).map Prod.snd

/-- A column of the table that is not listed becomes NULL. -/
def alignedExpr (logicalSchema sourceSchema : LogicalSchema) (tableCol : Column) : LogicalExpr :=
  match sourceColumn logicalSchema sourceSchema tableCol.name with
  | some sourceCol => .column sourceCol
  | none => .constant (.null tableCol.type)

def alignedSource (columns : List Column) (logicalSchema : LogicalSchema)
    (sourceNode : LogicalPlanNode) : LogicalPlanNode :=
  if exactMatch logicalSchema columns then sourceNode
  else newLogicalProjectionNode sourceNode (columns.map (alignedExpr logicalSchema sourceNode.outputSchema))
    (columnsOf tableRef columns)

def planInsert (tableName : String) (listed : List String) (rows : InsertRows) : Builder LogicalPlanNode := do
  let table ← lift (.ofExcept .metadata (c.getTableMetadata tableName))
  let tableRef := TableRef.mk tableName (← getNextTableRefID)
  let logicalSchema ← insertSchema tableRef table.columns listed
  let sourceNode ← planRows c printer rows
  if logicalSchema.length = sourceNode.outputSchema.length then
    return newLogicalInsertNode table.oid (alignedSource tableRef table.columns logicalSchema sourceNode)
  else fail .columnCount

def baseTable (err : PlanError) : FromScope × LogicalPlanNode → Builder (TableRef × CatalogTable)
  | (⟨[⟨tableRef, _, some table⟩]⟩, .scan _ _ _ _ _ _) => return (tableRef, table)
  | _ => fail err

def planDelete (tableExprs : List TableExpr) (whereExpr : Option SqlExpr) (orderBy : List Order)
    (limitStmt : Option Limit) : Builder LogicalPlanNode := do
  let source ← planFrom c printer tableExprs
  let (_, table) ← baseTable .deleteBaseTable source
  let plan ← planCondition printer source.1 source.2 whereExpr
  let plan ← planOrder printer orderBy plan source.1
  return newLogicalDeleteNode table.oid (← limited limitStmt plan)

/-- A column is assigned the last expression that is given for it. -/
def assign (assignments : List (LogicalColumn × LogicalExpr)) (col : LogicalColumn) (valExpr : LogicalExpr) :
    List (LogicalColumn × LogicalExpr) :=
  assignments.filter (·.1 ≠ col) ++ [(col, valExpr)]

def bindAssignment (assignments : List (LogicalColumn × LogicalExpr))
    (expr : UpdateExpr) : Builder (List (LogicalColumn × LogicalExpr)) := do
  let col ← lift ((bindColumn scope expr.qualifier expr.name).mapError (.updateColumn expr.name))
  if col.origin = some tableRef then return assign assignments col (← bind printer scope expr.expr)
  else fail (.updateForeign expr.name)

/-- ORDER BY and LIMIT are not looked at. -/
def planUpdate (tableExprs : List TableExpr) (exprs : List UpdateExpr) (whereExpr : Option SqlExpr) :
    Builder LogicalPlanNode := do
  let source ← planFrom c printer tableExprs
  let (tableRef, table) ← baseTable .updateBaseTable source
  let assignments ← exprs.foldlM (bindAssignment printer source.1 tableRef) []
  let plan ← planCondition printer source.1 source.2 whereExpr
  return newLogicalUpdateNode table.oid plan assignments

def plan : Statement → Builder LogicalPlanNode
  | .select select => planSelect c printer select
  | .insert table listed rows => planInsert c printer table listed rows
  | .delete tableExprs whereExpr orderBy limitStmt => planDelete c printer tableExprs whereExpr orderBy limitStmt
  | .update tableExprs exprs whereExpr _ _ => planUpdate c printer tableExprs exprs whereExpr
  | .other typeName => fail (.statementUnsupported typeName)

end

end LogicalPlanBuilder
end GoDB.Planner
