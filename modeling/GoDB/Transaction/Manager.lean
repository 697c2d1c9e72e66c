import GoDB.Indexing.Index

/-! How the end of a transaction runs its index tasks. -/

namespace GoDB.Transaction.TransactionManager
open Indexing

def commit (indexes : Indexes) (txn : TransactionContext) : Option Indexes :=
  txn.commitActions.foldlM Indexes.invoke indexes

/-- The undo of the last insertion comes first. -/
def abort (indexes : Indexes) (txn : TransactionContext) : Option Indexes :=
  txn.abortActions.reverse.foldlM Indexes.invoke indexes

end GoDB.Transaction.TransactionManager
