import GoDB.Common.Identifiers
import GoDB.Storage.Tuple

/-! The index work that a transaction leaves for its end. -/

namespace GoDB.Transaction
open Common Storage

inductive IndexOpType where
  | undoInsert
  | delete
deriving DecidableEq, Repr

structure IndexTask where
  target : ObjectID
  type : IndexOpType
  key : RawTuple
  rid : RecordID
deriving DecidableEq

structure TransactionContext where
  abortActions : List IndexTask
  commitActions : List IndexTask

namespace TransactionContext

def addAbortTask (txn : TransactionContext) (task : IndexTask) : TransactionContext :=
  { txn with abortActions := txn.abortActions ++ [task] }

def addCommitTask (txn : TransactionContext) (task : IndexTask) : TransactionContext :=
  { txn with commitActions := txn.commitActions ++ [task] }

end TransactionContext
end GoDB.Transaction
