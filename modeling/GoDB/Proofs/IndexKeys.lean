import GoDB.Execution.Modification
import GoDB.Proofs.TupleBytes
import GoDB.Recovery.NoLogRecovery

/-! The keys that rows have in an index, and the ways in which they are made. -/

namespace GoDB.Execution
open Common Lib Storage Indexing Planner Value List

def keyValues (metadata : IndexMetadata) (row : Row) : List Value := metadata.projectionList.filterMap (row[·]?)

def Suits (metadata : IndexMetadata) (desc : RawTupleDesc) : Prop :=
  metadata.projectionList.mapM (desc.fields[·]?) = some metadata.keySchema.fields

theorem types_of_columns {fields types : List FieldType} {row : Row} {positions : List Nat}
    (rowTypes : row.map type = fields) (projected : positions.mapM (fields[·]?) = some types) :
    positions.mapM (row[·]?) = some (positions.filterMap (row[·]?)) ∧ (positions.filterMap (row[·]?)).map type = types := by
  obtain ⟨inside, rfl⟩ := mapM_eq_some_iff.mp projected
  subst rowTypes
  simp only [getElem?_map, Option.isSome_map] at inside ⊢
  refine ⟨mapM_eq_some_iff.mpr ⟨inside, rfl⟩, ?_⟩
  rw [map_filterMap]

theorem suits_of_indexMetadata {catalogTable : Catalog.Table} {idx : Catalog.Index} {metadata : IndexMetadata}
    {desc : RawTupleDesc} (columns : desc.fields = tableSchemaToTypes catalogTable)
    (built : indexMetadata catalogTable idx = some metadata) : Suits metadata desc := by
  simp only [indexMetadata, bind_eq_some, Option.pure_def, Option.some.injEq] at built
  obtain ⟨indices, -, keyFields, typed, schema, made, same⟩ := built
  rw [Suits, ← same, columns, tableSchemaToTypes]
  simp only [getElem?_map]
  unfold newRawTupleDesc at made
  split at made
  next =>
    cases made
    exact typed
  next => cases made

variable {metadata : IndexMetadata} {desc : RawTupleDesc}

namespace Suits

theorem keyValues_spec (suits : Suits metadata desc) {row : Row} (types : row.map type = desc.fields) :
    metadata.projectionList.mapM (row[·]?) = some (keyValues metadata row) ∧
      (keyValues metadata row).map type = metadata.keySchema.fields :=
  types_of_columns types suits

theorem keyOf_eq (suits : Suits metadata desc) {row : Row} (types : row.map type = desc.fields) :
    metadata.keyOf row = some ((keyValues metadata row).flatMap writeTo) := by
  rw [IndexMetadata.keyOf, (suits.keyValues_spec types).1]
  rfl

end Suits

theorem stored_keyValues {row : Row} (kept : ∀ v ∈ row, v.stored = v) : ∀ v ∈ keyValues metadata row, v.stored = v := by
  intro v member
  obtain ⟨i, -, found⟩ := mem_filterMap.mp member
  exact kept v (mem_of_getElem? found)

theorem stored_values (desc : RawTupleDesc) (raw : RawTuple) : ∀ v ∈ desc.values raw, v.stored = v := by
  intro v member
  obtain ⟨i, found⟩ := mem_iff_getElem?.mp member
  have unchanged : ((desc.values raw).map stored)[i]? = (desc.values raw)[i]? :=
    congrArg (·[i]?) (stored_readFields ..)
  rw [getElem?_map, found] at unchanged
  exact Option.some.inj unchanged

theorem types_values (desc : RawTupleDesc) (raw : RawTuple) : (desc.values raw).map type = desc.fields :=
  type_readFields ..

def rowKey (metadata : IndexMetadata) (desc : RawTupleDesc) (raw : RawTuple) : Key :=
  (keyValues metadata (desc.values raw)).flatMap writeTo

namespace Suits

theorem keyOf_values (suits : Suits metadata desc) (raw : RawTuple) :
    metadata.keyOf (desc.values raw) = some (rowKey metadata desc raw) :=
  suits.keyOf_eq (types_values desc raw)

theorem encodes (suits : Suits metadata desc) {row : Row} (types : row.map type = desc.fields)
    (kept : ∀ v ∈ row, v.stored = v) : Key.Encodes metadata.keySchema ((keyValues metadata row).flatMap writeTo) :=
  ⟨_, (suits.keyValues_spec types).2, stored_keyValues kept, rfl⟩

theorem rowKey_encodes (suits : Suits metadata desc) (raw : RawTuple) :
    (rowKey metadata desc raw).Encodes metadata.keySchema :=
  suits.encodes (types_values desc raw) (stored_values desc raw)

end Suits

theorem makeKey_eq_some_iff {vals : List Value} {key : Key} : makeKey metadata vals = some key ↔
    vals.map type = metadata.keySchema.fields ∧ key = vals.flatMap writeTo := by
  have room : (replicate metadata.keySize (0 : Byte)).length = metadata.keySchema.bytesPerTuple :=
    length_replicate ..
  rw [makeKey, Tuple.fromValues_writeToBuffer vals room]
  split
  next types =>
    have whole : metadata.asKey (vals.flatMap writeTo) = vals.flatMap writeTo :=
      take_of_length_le (by rw [length_writeAll, types]; rfl)
    simp [types, whole, eq_comm]
  next types => simp [types]

end GoDB.Execution

namespace GoDB.Recovery
open Common Lib Storage Indexing Execution

variable {metadata : IndexMetadata} {desc : RawTupleDesc}

theorem fillKey_columns {raw : RawTuple} {columns : List Nat} {vals : List Value}
    (read : columns.mapM (desc.getValue raw) = some vals) (start : Nat) (buffer : List Byte) :
    (columns.zipIdx start).foldlM (fun buf entry => do
      metadata.keySchema.setValue buf entry.2 (← desc.getValue raw entry.1)) buffer =
    (vals.zipIdx start).foldlM (fun buf entry => metadata.keySchema.setValue buf entry.2 entry.1) buffer := by
  induction columns generalizing vals start buffer with
  | nil =>
    cases read
    rfl
  | cons column columns ih =>
    rw [List.mapM_cons, bind_eq_some] at read
    obtain ⟨v, here, read⟩ := read
    rw [bind_eq_some] at read
    obtain ⟨rest, more, same⟩ := read
    cases same
    simp only [List.zipIdx_cons, List.foldlM_cons, here, Option.bind_eq_bind, Option.bind_some]
    congr 1
    funext buf
    exact ih more (start + 1) buf

theorem fillKey_eq (suits : Suits metadata desc) (raw : RawTuple) {buffer : List Byte}
    (size : buffer.length = metadata.keySize) : fillKey metadata desc raw buffer = some (rowKey metadata desc raw) := by
  obtain ⟨read, types⟩ := suits.keyValues_spec (types_values desc raw)
  have columns : metadata.projectionList.mapM (desc.getValue raw) = some (keyValues metadata (desc.values raw)) := by
    rw [← read]
    exact mapM_congr fun i _ => RawTupleDesc.getValue_eq ..
  have full := congrArg List.length types
  rw [List.length_map] at full
  have filled := @setValues_eq metadata.keySchema [] buffer [] metadata.keySchema.fields
    (keyValues metadata (desc.values raw)) rfl rfl size full
  rw [if_pos types] at filled
  rw [fillKey, fillKey_columns columns]
  exact filled

end GoDB.Recovery
