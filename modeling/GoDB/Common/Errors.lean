import Mathlib.Init

namespace GoDB.Common

inductive GoDBErrorCode where
  | duplicateObjectError
  | noSuchObjectError
  | deadlockError
  | logClosedError
  | lockNotFoundError
deriving DecidableEq, Repr

structure GoDBError where
  code : GoDBErrorCode
  errString : String
deriving DecidableEq, Repr

end GoDB.Common
