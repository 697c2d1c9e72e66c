import GoDB.Catalog.Tables
import GoDB.Indexing.Index

/-! The runtime index of a catalog entry. -/

namespace GoDB.Indexing
open Common Lib Storage

/-- A later column takes the place of an earlier one of the same name. -/
def columnOf (table : Catalog.Table) (name : String) : Option Nat :=
  ((table.columns.zipIdx.filter (·.1.name = name)).getLast?).map (·.2)

/-- Fails when a column does not exist or the key is too wide. -/
def indexMetadata (table : Catalog.Table) (idx : Catalog.Index) : Option IndexMetadata := do
  let indices ← idx.keySchema.mapM (columnOf table)
  let keyFields ← indices.mapM fun colIdx => (table.columns[colIdx]?).map (·.type)
  return ⟨← newRawTupleDesc keyFields, indices⟩

def IndexMetadata.keyOf (md : IndexMetadata) (row : List Value) : Option Key :=
  (md.projectionList.mapM (row[·]?)).map (·.flatMap Value.writeTo)

end GoDB.Indexing
