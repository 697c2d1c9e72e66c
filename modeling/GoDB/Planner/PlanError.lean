import GoDB.Common.Errors
import GoDB.Planner.Statement

/-! The errors of the planner, with what their texts are made of. -/

namespace GoDB.Planner
open Common Lib

inductive PlanError where
  | nullUnsupported
  | comparedTypes
  | comparisonOperator (operator : ComparisonOperator)
  | binaryOperator (operator : BinaryOperator)
  | isUnsupported
  | unsupportedFunction (funcName : String)
  | unsupportedExpression (typeName : String)
  | ambiguousReference (name : String)
  | referenceNotFound (name : String)
  | ambiguousColumn (name : String)
  | columnNotFound (name : String)
  | constantType (type : ValType)
  | intSyntax (text : List Byte)
  | notConstantInt
  | emptyFrom
  | metadata (err : GoDBError)
  | unaliasedSubquery (text : String)
  | usingLeft (name : String) (err : PlanError)
  | usingRight (name : String) (err : PlanError)
  | usingTypes (name : String)
  | joinType (joinStr : JoinStr)
  | starArgument
  | aggregateArgument
  | unrecognizedAggregator (funcName : String)
  | selectExpression (typeName : String)
  | statementUnsupported (typeName : String)
  | insertColumn (name : String) (err : PlanError)
  | insertForeign (name : String)
  | insertUnion
  | columnCount
  | deleteBaseTable
  | updateBaseTable
  | updateColumn (name : String) (err : PlanError)
  | updateForeign (name : String)

end GoDB.Planner
