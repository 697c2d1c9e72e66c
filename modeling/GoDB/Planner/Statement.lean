import GoDB.Planner.Expr

/-! The statements that the parser hands to the planner. An empty name is a name
that was not given. -/

namespace GoDB.Planner
open Common Lib

inductive ValType where
  | strVal
  | intVal
  | floatVal
  | hexNum
  | hexVal
  | valArg
  | bitVal
deriving DecidableEq

inductive ComparisonOperator where
  | equal
  | lessThan
  | greaterThan
  | lessEqual
  | greaterEqual
  | notEqual
  | nullSafeEqual
  | in_
  | notIn
  | like
  | notLike
  | regexp
  | notRegexp
deriving DecidableEq

inductive BinaryOperator where
  | bitAnd
  | bitOr
  | bitXor
  | plus
  | minus
  | mult
  | div
  | intDiv
  | mod
  | shiftLeft
  | shiftRight
deriving DecidableEq

mutual

/-- The last case stands for everything that the planner does not bind, by the
name of its type: ranges, subqueries, CASE, casts and the like, with the
expressions below it in the order in which `sqlparser.Walk` visits them. -/
inductive SqlExpr where
  | colName (qualifier name : String)
  | sqlVal (type : ValType) (val : List Byte)
  | nullVal
  | comparison (operator : ComparisonOperator) (left right : SqlExpr)
  | and (left right : SqlExpr)
  | or (left right : SqlExpr)
  | not (expr : SqlExpr)
  | binary (operator : BinaryOperator) (left right : SqlExpr)
  | is (expr : SqlExpr) (operator : String)
  | paren (expr : SqlExpr)
  | func (name : String) (distinct : Bool) (exprs : List SelectExpr)
  | other (typeName : String) (below : List SqlExpr)

inductive SelectExpr where
  | star (tableName : String)
  | aliased (expr : SqlExpr) (as : String)
  | nextval (text : String)

end

structure Order where
  expr : SqlExpr
  descending : Bool

structure Limit where
  offset : Option SqlExpr
  rowcount : Option SqlExpr

inductive JoinStr where
  | join
  | straightJoin
  | leftJoin
  | rightJoin
  | naturalJoin
  | naturalLeftJoin
  | naturalRightJoin
deriving DecidableEq

structure JoinCondition where
  on : Option SqlExpr
  using_ : List String

mutual

inductive TableExpr where
  | aliased (expr : SimpleTableExpr) (as : String)
  | join (leftExpr : TableExpr) (joinStr : JoinStr) (rightExpr : TableExpr) (condition : JoinCondition)
  | paren (exprs : List TableExpr)

inductive SimpleTableExpr where
  | tableName (name : String)
  | subquery (select : SelectStatement)

inductive SelectStatement where
  | select (distinct : Bool) (selectExprs : List SelectExpr) (fromExprs : List TableExpr) (whereExpr : Option SqlExpr)
      (groupBy : List SqlExpr) (having : Option SqlExpr) (orderBy : List Order) (limit : Option Limit)
  | parenSelect (select : SelectStatement)
  | union

end

inductive InsertRows where
  | select (select : SelectStatement)
  | values (rows : List (List SqlExpr))

structure UpdateExpr where
  qualifier : String
  name : String
  expr : SqlExpr

inductive Statement where
  | select (select : SelectStatement)
  | insert (table : String) (columns : List String) (rows : InsertRows)
  | delete (tableExprs : List TableExpr) (whereExpr : Option SqlExpr) (orderBy : List Order) (limit : Option Limit)
  | update (tableExprs : List TableExpr) (exprs : List UpdateExpr) (whereExpr : Option SqlExpr) (orderBy : List Order)
      (limit : Option Limit)
  | other (typeName : String)

def digitValue (digit : Byte) : Option Nat := if 48 ≤ digit ∧ digit ≤ 57 then some (digit.toNat - 48) else none

def parseDigits (digits : List Byte) : Option Nat :=
  if digits.isEmpty then none
  else digits.foldlM (fun value digit => do return 10 * value + (← digitValue digit)) 0

/-- `strconv.ParseInt(s, 10, 64)`. -/
def parseInt (s : List Byte) : Option Int64 := do
  let value : Int ← match s with
    | 45 :: digits => do pure (-(← parseDigits digits))
    | 43 :: digits => do pure ((← parseDigits digits : Nat) : Int)
    | digits => do pure ((← parseDigits digits : Nat) : Int)
  if Int64.minValue.toInt ≤ value ∧ value ≤ Int64.maxValue.toInt then return Int64.ofInt value else none

end GoDB.Planner
