import GoDB.Common.Identifiers
import GoDB.Common.Types

/-! The tables and indexes that the catalog knows. -/

namespace GoDB.Catalog
open Common

structure Column where
  name : String
  type : FieldType
deriving DecidableEq

inductive IndexType where
  | hash
  | btree
deriving DecidableEq

structure Index where
  oid : ObjectID
  type : IndexType
  keySchema : List String
deriving DecidableEq

structure Table where
  oid : ObjectID
  columns : List Column
  indexes : List Index

end GoDB.Catalog

namespace GoDB
open Common

abbrev Catalog := List Catalog.Table

def Catalog.getTableByOid (c : Catalog) (tableOid : ObjectID) : Option Catalog.Table := c.find? (·.oid = tableOid)

end GoDB
