import GoDB.Planner.Plan

/-! The tree of logical operators. Each node carries the schema that its parent
requires of it, which only the pruning of columns reads. -/

namespace GoDB.Planner
open Common

def ComparisonType.string : ComparisonType → String
  | .equal => "="
  | .notEqual => "!="
  | .greaterThan => ">"
  | .lessThan => "<"
  | .greaterThanOrEqual => ">="
  | .lessThanOrEqual => "<="

def BinaryLogicType.string : BinaryLogicType → String
  | .and => "AND"
  | .or => "OR"

def NullCheckType.string : NullCheckType → String
  | .isNull => "IS NULL"
  | .isNotNull => "IS NOT NULL"

def ArithmeticType.string : ArithmeticType → String
  | .add => "+"
  | .sub => "-"
  | .mult => "*"
  | .div => "/"
  | .mod => "%"

def AggregatorType.string : AggregatorType → String
  | .count => "COUNT"
  | .sum => "SUM"
  | .min => "MIN"
  | .max => "MAX"

/-- A byte is written as the character of that number. -/
def valueString : Value → String
  | .null .string => "NULL(string)"
  | .null .int => "NULL(int)"
  | .string s => "'" ++ String.ofList (s.val.map fun byte => Char.ofNat byte.toNat) ++ "'"
  | .int v => toString v.toInt

def LogicalColumn.string (c : LogicalColumn) : String :=
  match c.origin with
  | none => c.cname
  | some origin => if origin.tableAlias = "" then c.cname else origin.tableAlias ++ "." ++ c.cname

def LogicalExpr.string : LogicalExpr → String
  | .column col => col.string
  | .constant val => valueString val
  | .comparison _ left right compType => "(" ++ string left ++ " " ++ compType.string ++ " " ++ string right ++ ")"
  | .logic _ left right logicType => "(" ++ string left ++ " " ++ logicType.string ++ " " ++ string right ++ ")"
  | .negation _ child => "!(" ++ string child ++ ")"
  | .nullCheck _ child checkType => "(" ++ string child ++ " " ++ checkType.string ++ ")"
  | .arithmetic left right op => "(" ++ string left ++ " " ++ op.string ++ " " ++ string right ++ ")"
  | .concat left right => "(" ++ string left ++ " || " ++ string right ++ ")"
  | .like _ left right => "(" ++ string left ++ " LIKE " ++ string right ++ ")"

def LogicalExpr.outputType (e : LogicalExpr) : FieldType := Expr.outputType LogicalColumn.ctype e

inductive JoinType where
  | inner
  | left
  | right
  | fullOuter
  | cross
deriving DecidableEq

inductive LogicalPlanNode where
  | scan (tableRef : TableRef) (tableOid : ObjectID) (rawOutputSchema : LogicalSchema)
      (projection : Option LogicalProjectionNode) (predicates : List LogicalExpr) (requiredSchema : LogicalSchema)
  | filter (child : LogicalPlanNode) (predicate : LogicalExpr) (requiredSchema : LogicalSchema)
  | projection (child : LogicalPlanNode) (node : LogicalProjectionNode) (requiredSchema : LogicalSchema)
  | join (left right : LogicalPlanNode) (joinOn : List LogicalExpr) (joinType : JoinType) (requiredSchema : LogicalSchema)
  | aggregation (child : LogicalPlanNode) (groupByClause : List LogicalExpr)
      (aggClauses : List (AggregateClause LogicalColumn)) (requiredSchema : LogicalSchema)
  | sort (child : LogicalPlanNode) (orderBy : List (OrderByClause LogicalColumn)) (requiredSchema : LogicalSchema)
  | limit (child : LogicalPlanNode) (limit offset : Int) (requiredSchema : LogicalSchema)
  | subquery (tableRef : TableRef) (child : LogicalPlanNode) (outputSchema requiredSchema : LogicalSchema)
  | values (values : List (List LogicalExpr)) (schema requiredSchema : LogicalSchema)
  | insert (tableOid : ObjectID) (child : LogicalPlanNode) (requiredSchema : LogicalSchema)
  | delete (tableOid : ObjectID) (child : LogicalPlanNode) (requiredSchema : LogicalSchema)
  | update (tableOid : ObjectID) (child : LogicalPlanNode) (updates : List (LogicalColumn × LogicalExpr))
      (requiredSchema : LogicalSchema)

/-- A grouping column keeps its name and origin; everything else is named by its text. -/
def groupColumn (groupExpr : LogicalExpr) : LogicalColumn :=
  match groupExpr with
  | .column col => col
  | _ => ⟨groupExpr.string, groupExpr.outputType, none⟩

def aggregateColumn (agg : AggregateClause LogicalColumn) : LogicalColumn :=
  ⟨agg.type.string ++ "(" ++ LogicalExpr.string agg.expr ++ ")", LogicalExpr.outputType agg.expr, none⟩

def aggregationSchema (groupByClause : List LogicalExpr) (aggClauses : List (AggregateClause LogicalColumn)) :
    LogicalSchema :=
  groupByClause.map groupColumn ++ aggClauses.map aggregateColumn

namespace LogicalPlanNode

def outputSchema : LogicalPlanNode → LogicalSchema
  | .scan _ _ rawOutputSchema none _ _ => rawOutputSchema
  | .scan _ _ _ (some attached) _ _ => attached.outputSchema
  | .filter child _ _ | .sort child _ _ | .limit child _ _ _ => child.outputSchema
  | .projection _ node _ => node.outputSchema
  | .join left right _ _ _ => left.outputSchema ++ right.outputSchema
  | .aggregation _ groupByClause aggClauses _ => aggregationSchema groupByClause aggClauses
  | .subquery _ _ outputSchema _ => outputSchema
  | .values _ schema _ => schema
  | .insert _ _ _ | .update _ _ _ _ => [⟨"count", .int, none⟩]
  | .delete _ _ _ => [⟨"deleted_count", .int, none⟩]

def newLogicalScanNode (tableRef : TableRef) (tableOid : ObjectID) (schema : LogicalSchema) : LogicalPlanNode :=
  .scan tableRef tableOid schema none [] schema

variable (child : LogicalPlanNode)

def newLogicalFilterNode (predicate : LogicalExpr) : LogicalPlanNode :=
  .filter child predicate child.outputSchema

def newLogicalProjectionNode (exprs : List LogicalExpr) (schema : LogicalSchema) : LogicalPlanNode :=
  .projection child ⟨exprs, schema⟩ schema

def newLogicalJoinNode (left right : LogicalPlanNode) (joinOn : List LogicalExpr) (joinType : JoinType) :
    LogicalPlanNode :=
  .join left right joinOn joinType (left.outputSchema ++ right.outputSchema)

def newLogicalAggregationNode (groupBy : List LogicalExpr)
    (aggregates : List (AggregateClause LogicalColumn)) : LogicalPlanNode :=
  .aggregation child groupBy aggregates (aggregationSchema groupBy aggregates)

def newLogicalSortNode (orderBy : List (OrderByClause LogicalColumn)) : LogicalPlanNode :=
  .sort child orderBy child.outputSchema

def newLogicalLimitNode (limit offset : Int) : LogicalPlanNode :=
  .limit child limit offset child.outputSchema

def newLogicalSubqueryNode (tableRef : TableRef) (schema : LogicalSchema) (child : LogicalPlanNode) : LogicalPlanNode :=
  .subquery tableRef child schema schema

def newLogicalValuesNode (values : List (List LogicalExpr)) (schema : LogicalSchema) : LogicalPlanNode :=
  .values values schema []

variable (tableOid : ObjectID)

def newLogicalInsertNode (child : LogicalPlanNode) : LogicalPlanNode := .insert tableOid child []

def newLogicalDeleteNode (child : LogicalPlanNode) : LogicalPlanNode := .delete tableOid child []

def newLogicalUpdateNode (child : LogicalPlanNode) (updates : List (LogicalColumn × LogicalExpr)) :
    LogicalPlanNode :=
  .update tableOid child updates []

end LogicalPlanNode
end GoDB.Planner
