import GoDB.Proofs.StoredValues

/-! What a row leaves in the buffer that it is written to. -/

namespace GoDB.Storage
open Common Lib List RawTupleDesc Value

variable {desc : RawTupleDesc} {buf out : RawTuple}

theorem readFields_append {fields : List FieldType} {front : RawTuple} (size : front.length = bytesOf fields)
    (more : List FieldType) (back : RawTuple) :
    readFields (fields ++ more) (front ++ back) = readFields fields front ++ readFields more back := by
  induction fields generalizing front with
  | nil =>
    cases length_eq_zero_iff.mp size
    rfl
  | cons type fields ih =>
    have total : front.length = type.size + bytesOf fields := by simpa [bytesOf] using size
    have enough : type.size ≤ front.length := by omega
    have first : asValue type (front ++ back) = asValue type front := by
      conv_lhs => rw [← take_append_drop type.size front, append_assoc]
      conv_rhs => rw [← take_append_drop type.size front]
      rw [asValue_append (length_take_of_le enough), asValue_append (length_take_of_le enough)]
    have rest := @ih (front.drop type.size) (by rw [length_drop]; omega)
    simp [readFields, first, drop_append_of_le_length enough, rest]

theorem length_setValue (inside : desc.bytesPerTuple ≤ buf.length) {i : Nat} {v : Value}
    (set : desc.setValue buf i v = some out) : out.length = buf.length := by
  unfold setValue at set
  split at set
  next here =>
    obtain ⟨bound, type⟩ := List.getElem?_eq_some_iff.mp here
    have upTo : bytesOf (desc.fields.take i) + v.type.size ≤ bytesOf desc.fields := by
      conv_rhs => rw [← take_append_drop i desc.fields, drop_eq_getElem_cons bound, type]
      simp [bytesOf]
    cases set
    simp only [length_append, length_take, length_drop, length_writeTo, getFieldOffset]
    unfold bytesPerTuple at inside
    omega
  next => cases set

theorem length_setValues {entries : List (Value × Nat)} (inside : desc.bytesPerTuple ≤ buf.length)
    (set : entries.foldlM (fun buf entry => desc.setValue buf entry.2 entry.1) buf = some out) : out.length = buf.length := by
  induction entries generalizing buf with
  | nil =>
    cases set
    rfl
  | cons entry rest ih =>
    rw [foldlM_cons, bind_eq_some] at set
    obtain ⟨middle, here, set⟩ := set
    have same := length_setValue inside here
    rw [ih (same ▸ inside) set, same]

structure Holds (desc : RawTupleDesc) (buf out : RawTuple) (vals : List Value) : Prop where
  length : out.length = buf.length
  values : desc.values out = vals
  beyond : out.drop desc.bytesPerTuple = buf.drop desc.bytesPerTuple

theorem holds_append {bytes : RawTuple} (size : bytes.length = desc.bytesPerTuple) (room : desc.bytesPerTuple ≤ buf.length) :
    Holds desc buf (bytes ++ buf.drop desc.bytesPerTuple) (desc.values bytes) := by
  refine ⟨?_, ?_, drop_left' size⟩
  · rw [length_append, length_drop]
    omega
  · have alone := readFields_append size [] (buf.drop desc.bytesPerTuple)
    rw [append_nil] at alone
    exact alone.trans (append_nil _)

namespace Tuple
variable {t : Tuple}

theorem length_writeToBuffer (written : t.writeToBuffer buf desc = some out) : out.length = buf.length := by
  unfold writeToBuffer at written
  split at written
  next room =>
    cases raw : t.raw with
    | none =>
      rw [raw] at written
      exact length_setValues room.1 written
    | some stored =>
      rw [raw] at written
      rw [length_setValues (by rw [length_copy]; exact room.1) written, length_copy]
  next => cases written

theorem fromValues_writeToBuffer_over (vals : List Value) (room : desc.bytesPerTuple ≤ buf.length) :
    (fromValues vals).writeToBuffer buf desc =
      if vals.map type = desc.fields then some (vals.flatMap writeTo ++ buf.drop desc.bytesPerTuple)
      else none := by
  simp only [writeToBuffer, fromValues, numColumns, physCols, Nat.zero_add, numColumns]
  by_cases same : vals.length = desc.fields.length
  · rw [if_pos ⟨room, same⟩]
    exact @setValues_over desc [] buf [] desc.fields vals rfl rfl same
  · have apart : vals.map type ≠ desc.fields := fun agree => same (by rw [← agree, length_map])
    rw [if_neg (fun both => same both.2), if_neg apart]

theorem fromValues_writeToBuffer (vals : List Value) (room : buf.length = desc.bytesPerTuple) :
    (fromValues vals).writeToBuffer buf desc =
      if vals.map type = desc.fields then some (vals.flatMap writeTo) else none := by
  rw [fromValues_writeToBuffer_over vals room.ge, ← room, drop_length, append_nil]

theorem deepCopy_fromRawTuple {row : RawTuple} (size : row.length = desc.bytesPerTuple) (rid : RecordID) :
    (fromRawTuple row desc rid).deepCopy desc = some (fromRawTuple row desc rid) := by
  have zeros : row.length = (replicate desc.bytesPerTuple (0 : Byte)).length := by rw [size, length_replicate]
  simp [deepCopy, fromRawTuple, writeToBuffer, numColumns, physCols, copy_eq zeros]

structure Fits (schema : List FieldType) (t : Tuple) : Prop where
  types : t.values.map type = schema
  sized : ∀ stored ∈ t.raw, stored.2.length = stored.1.bytesPerTuple

theorem stored_of_raw (kept : ∀ v ∈ t.extraValues, v.stored = v) : t.values.map stored = t.values := by
  have unchanged : t.extraValues.map stored = t.extraValues := by rw [map_congr_left kept, map_id']
  obtain ⟨raw, extraValues, rid⟩ := t
  cases raw with
  | none => exact unchanged
  | some stored =>
    rw [values_some, map_append, unchanged, RawTupleDesc.values, stored_readFields]

theorem writeToBuffer_holds (fits : t.Fits desc.fields) (room : desc.bytesPerTuple ≤ buf.length) :
    ∃ out, t.writeToBuffer buf desc = some out ∧ Holds desc buf out (t.values.map stored) := by
  obtain ⟨raw, extraValues, rid⟩ := t
  obtain ⟨types, sized⟩ := fits
  have columns : numColumns ⟨raw, extraValues, rid⟩ = desc.numColumns := by
    rw [← length_values, RawTupleDesc.numColumns, ← types, length_map]
  cases raw with
  | none =>
    have size : (extraValues.flatMap writeTo).length = desc.bytesPerTuple := by
      rw [length_writeAll, bytesPerTuple, ← types]
      rfl
    refine ⟨_, (fromValues_writeToBuffer_over extraValues room).trans (if_pos types), ?_⟩
    have read : desc.values (extraValues.flatMap writeTo) = extraValues.map stored := by
      rw [RawTupleDesc.values, ← types]
      exact readFields_writeAll extraValues
    exact read ▸ holds_append size room
  | some stored =>
    obtain ⟨rawDesc, rawTuple⟩ := stored
    have size : rawTuple.length = bytesOf rawDesc.fields := sized _ rfl
    have layout : desc.fields = rawDesc.fields ++ extraValues.map type := by
      rw [← types, values, map_append, RawTupleDesc.values, type_readFields]
    have total : desc.bytesPerTuple = rawTuple.length + bytesOf (extraValues.map type) := by
      rw [bytesPerTuple, layout, size]
      simp [bytesOf]
    refine ⟨rawTuple ++ extraValues.flatMap writeTo ++ buf.drop desc.bytesPerTuple, ?_, ?_⟩
    · have front : copy buf rawTuple = rawTuple ++ buf.drop rawTuple.length := by
        rw [copy, take_of_length_le (by omega)]
      have filled := @setValues_over desc rawTuple (buf.drop rawTuple.length) rawDesc.fields _ extraValues layout size
        (by simp)
      rw [if_pos rfl, drop_drop, ← total] at filled
      simp only [writeToBuffer, if_pos (And.intro room columns), front]
      exact filled
    · have read : desc.values (rawTuple ++ extraValues.flatMap writeTo) =
          (values ⟨some (rawDesc, rawTuple), extraValues, rid⟩).map stored := by
        rw [RawTupleDesc.values, layout, readFields_append size, readFields_writeAll, values, map_append,
          RawTupleDesc.values, stored_readFields]
      rw [← read]
      refine holds_append ?_ room
      rw [length_append, length_writeAll, total]

theorem values_writeToBuffer (fits : t.Fits desc.fields) (room : buf.length = desc.bytesPerTuple) :
    ∃ out, t.writeToBuffer buf desc = some out ∧ desc.values out = t.values.map stored := by
  obtain ⟨out, written, holds⟩ := writeToBuffer_holds fits room.ge
  exact ⟨out, written, holds.values⟩

structure Plain (desc : RawTupleDesc) (t : Tuple) : Prop where
  bytes : t.raw = some (desc, t.rawTuple)
  size : t.rawTuple.length = desc.bytesPerTuple
  extra : t.extraValues = []

theorem Plain.values_eq (plain : t.Plain desc) : t.values = desc.values t.rawTuple := by
  obtain ⟨raw, extraValues, rid⟩ := t
  obtain ⟨bytes, -, extra⟩ := plain
  cases extra
  conv_lhs => rw [values, bytes]
  exact append_nil _

theorem exists_deepCopy (fits : t.Fits desc.fields) :
    ∃ copied, t.deepCopy desc = some copied ∧ copied.Plain desc ∧ copied.values = t.values.map stored := by
  obtain ⟨out, written, values⟩ := values_writeToBuffer fits (@length_replicate _ desc.bytesPerTuple (0 : Byte))
  have size := (length_writeToBuffer written).trans length_replicate
  refine ⟨fromRawTuple out desc t.rid, by rw [deepCopy, written]; rfl, ⟨rfl, size, rfl⟩, ?_⟩
  exact (append_nil _).trans values

theorem rid_deepCopy {copied : Tuple} (copies : t.deepCopy desc = some copied) : copied.rid = t.rid := by
  obtain ⟨dest, -, made⟩ := bind_eq_some.mp copies
  cases made
  rfl

theorem Fits.bytes {schema : List FieldType} (fits : t.Fits schema) (extra : t.extraValues = []) :
    t.rawTuple.length = bytesOf schema ∧ readFields schema t.rawTuple = t.values.map stored := by
  rw [stored_of_raw (by simp [extra])]
  obtain ⟨raw, extraValues, rid⟩ := t
  cases extra
  cases raw with
  | none =>
    cases fits.types
    exact ⟨rfl, rfl⟩
  | some stored =>
    have types : stored.1.fields = schema := by
      rw [← fits.types, values_some, append_nil, RawTupleDesc.values, type_readFields]
    refine ⟨by rw [← types]; exact fits.sized _ rfl, ?_⟩
    rw [← types]
    exact (append_nil _).symm

section Merge
variable {left right : Tuple} {leftSchema rightSchema : List FieldType}

theorem mergeColumns_holds (fitsLeft : left.Fits leftSchema) (fitsRight : right.Fits rightSchema)
    (layout : desc.fields = leftSchema ++ rightSchema) (room : desc.bytesPerTuple ≤ buf.length) :
    ∃ out, mergeColumns buf desc left right = some out ∧ Holds desc buf out ((left.values ++ right.values).map stored) := by
  have types : (left.values ++ right.values).map type = desc.fields := by
    rw [map_append, fitsLeft.types, fitsRight.types, layout]
  have filled := @setValues_over desc [] buf [] desc.fields (left.values ++ right.values) rfl rfl
    (by rw [← types, length_map])
  rw [if_pos types] at filled
  refine ⟨(left.values ++ right.values).flatMap writeTo ++ buf.drop desc.bytesPerTuple, filled, ?_⟩
  have read : desc.values ((left.values ++ right.values).flatMap writeTo) = (left.values ++ right.values).map stored := by
    rw [RawTupleDesc.values, ← types, readFields_writeAll]
  rw [← read]
  refine holds_append ?_ room
  rw [length_writeAll, types]
  rfl

theorem mergeTuples_holds (fitsLeft : left.Fits leftSchema) (fitsRight : right.Fits rightSchema)
    (layout : desc.fields = leftSchema ++ rightSchema) (room : desc.bytesPerTuple ≤ buf.length) :
    ∃ out, mergeTuples buf desc left right = some out ∧ Holds desc buf out ((left.values ++ right.values).map stored) := by
  have columns : left.numColumns + right.numColumns = desc.numColumns := by
    rw [← length_values, ← length_values, RawTupleDesc.numColumns, layout, length_append, ← fitsLeft.types,
      ← fitsRight.types, length_map, length_map]
  unfold mergeTuples
  rw [if_pos ⟨room, columns⟩]
  split
  next bare =>
    obtain ⟨noLeft, noRight⟩ : left.extraValues = [] ∧ right.extraValues = [] := by simpa using bare
    obtain ⟨sizeLeft, readLeft⟩ := fitsLeft.bytes noLeft
    obtain ⟨sizeRight, readRight⟩ := fitsRight.bytes noRight
    have total : desc.bytesPerTuple = left.rawTuple.length + right.rawTuple.length := by
      rw [bytesPerTuple, layout, sizeLeft, sizeRight]
      simp [bytesOf]
    have front : copy buf left.rawTuple = left.rawTuple ++ buf.drop left.rawTuple.length := by
      rw [copy, take_of_length_le (by omega)]
    have back : copy (buf.drop left.rawTuple.length) right.rawTuple = right.rawTuple ++ buf.drop desc.bytesPerTuple := by
      rw [copy, take_of_length_le (by rw [length_drop]; omega), drop_drop, total]
    refine ⟨left.rawTuple ++ right.rawTuple ++ buf.drop desc.bytesPerTuple, ?_, ?_⟩
    · simp [front, back]
    · have read : desc.values (left.rawTuple ++ right.rawTuple) = (left.values ++ right.values).map stored := by
        rw [RawTupleDesc.values, layout, readFields_append sizeLeft, readLeft, readRight, map_append]
      rw [← read]
      exact holds_append (by rw [length_append, total]) room
  next => exact mergeColumns_holds fitsLeft fitsRight layout room

theorem values_mergeTuples {leftDesc : RawTupleDesc} (plain : left.Plain leftDesc) (fits : right.Fits rightSchema)
    (layout : desc.fields = leftDesc.fields ++ rightSchema) (room : buf.length = desc.bytesPerTuple) :
    ∃ out, mergeTuples buf desc left right = some out ∧ out.length = buf.length ∧
      desc.values out = left.values ++ right.values.map stored := by
  have fitsLeft : left.Fits leftDesc.fields := by
    refine ⟨?_, ?_⟩
    · rw [plain.values_eq]
      exact type_readFields ..
    · rw [plain.bytes]
      rintro _ ⟨⟩
      exact plain.size
  obtain ⟨out, merged, holds⟩ := mergeTuples_holds fitsLeft fits layout room.ge
  refine ⟨out, merged, holds.length, ?_⟩
  rw [holds.values, map_append, stored_of_raw (by simp [plain.extra])]

theorem stored_of_representable {vals : List Value} (kept : ∀ v ∈ vals, v.representable) : vals.map stored = vals := by
  rw [map_congr_left fun v member => v.stored_eq_self_iff.mpr (kept v member), map_id']

theorem getValue_fromRawTuple (bytes : RawTuple) (desc : RawTupleDesc) (rid : RecordID) (i : Nat) :
    (fromRawTuple bytes desc rid).getValue i = (desc.values bytes)[i]? := by
  rw [getValue_eq, fromRawTuple, values_some, append_nil]

def SideBySide (left right row : Tuple) : Prop :=
  ∀ i, row.getValue i = if i < left.numColumns then left.getValue i else right.getValue (i - left.numColumns)

theorem sideBySide_of_values {bytes : RawTuple} {rid : RecordID}
    (columns : desc.values bytes = left.values ++ right.values) : SideBySide left right (fromRawTuple bytes desc rid) := by
  intro i
  rw [getValue_fromRawTuple, columns, getElem?_append, length_values, getValue_eq, getValue_eq]

end Merge

/-- Rows that can be stored are merged, written and copied column by column into any buffer with
room for them, and nothing behind the row is touched. The bytes of two rows may as well be written
one column after the other. -/
theorem rows_kept_in_buffer (desc : RawTupleDesc) (buf : RawTuple) (room : desc.bytesPerTuple ≤ buf.length) :
    (∀ (left right : Tuple) (leftSchema rightSchema : List FieldType), left.Fits leftSchema → right.Fits rightSchema →
      desc.fields = leftSchema ++ rightSchema → (∀ v ∈ left.values ++ right.values, v.representable) →
      ∃ row columns, merged buf desc left right = some row ∧ mergeColumns buf desc left right = some columns ∧
        SideBySide left right row ∧ SideBySide left right (fromRawTuple columns desc row.rid) ∧
        ∀ bytes ∈ [row.rawTuple, columns], bytes.length = buf.length ∧
          bytes.drop desc.bytesPerTuple = buf.drop desc.bytesPerTuple) ∧
    ∀ t : Tuple, t.Fits desc.fields → (∀ v ∈ t.values, v.representable) →
      (∃ row, t.written buf desc = some row ∧ (∀ i, row.getValue i = t.getValue i) ∧ row.rid = t.rid ∧
        row.rawTuple.length = buf.length ∧ row.rawTuple.drop desc.bytesPerTuple = buf.drop desc.bytesPerTuple) ∧
      ∃ copied, t.deepCopy desc = some copied ∧ (∀ i, copied.getValue i = t.getValue i) ∧ copied.rid = t.rid ∧
        copied.rawTuple.length = desc.bytesPerTuple := by
  refine ⟨fun left right leftSchema rightSchema fitsLeft fitsRight layout kept => ?_, fun t fits kept => ⟨?_, ?_⟩⟩
  · obtain ⟨out, made, holds⟩ := mergeTuples_holds fitsLeft fitsRight layout room
    obtain ⟨columns, made', holds'⟩ := mergeColumns_holds fitsLeft fitsRight layout room
    rw [stored_of_representable kept] at holds holds'
    refine ⟨fromRawTuple out desc ⟨⟨0, 0⟩, 0⟩, columns, by rw [merged, made]; rfl, made',
      sideBySide_of_values holds.values, sideBySide_of_values holds'.values, ?_⟩
    simp only [forall_mem_cons, not_mem_nil, false_imp_iff, implies_true, and_true]
    exact ⟨⟨holds.length, holds.beyond⟩, holds'.length, holds'.beyond⟩
  · obtain ⟨out, made, holds⟩ := writeToBuffer_holds fits room
    rw [stored_of_representable kept] at holds
    refine ⟨fromRawTuple out desc t.rid, by rw [written, made]; rfl, fun i => ?_, rfl, holds.length, holds.beyond⟩
    rw [getValue_fromRawTuple, holds.values, getValue_eq]
  · obtain ⟨out, made, holds⟩ := writeToBuffer_holds fits (@length_replicate _ desc.bytesPerTuple (0 : Byte)).ge
    rw [stored_of_representable kept] at holds
    refine ⟨fromRawTuple out desc t.rid, by rw [deepCopy, made]; rfl, fun i => ?_, rfl, holds.length.trans length_replicate⟩
    rw [getValue_fromRawTuple, holds.values, getValue_eq]

theorem hybrid_row_kept : ∃ row columns copied, merged (replicate 20 7) .twoInts
      (fromRawTuple (replicate 8 1) .oneInt ⟨⟨1, 2⟩, 3⟩) (fromValues [.int 5]) = some row ∧
    mergeColumns (replicate 20 7) .twoInts
      (fromRawTuple (replicate 8 1) .oneInt ⟨⟨1, 2⟩, 3⟩) (fromValues [.int 5]) = some columns ∧
    row.getValue 1 = some (.int 5) ∧ row.rawTuple.drop 16 = [7, 7, 7, 7] ∧
    deepCopy ⟨some (.oneInt, replicate 8 1), [.int 5], ⟨⟨1, 2⟩, 3⟩⟩ .twoInts =
      some copied ∧ copied.getValue 1 = some (.int 5) ∧ copied.rid = ⟨⟨1, 2⟩, 3⟩ := by
  obtain ⟨merges, writes⟩ := rows_kept_in_buffer .twoInts (replicate 20 7) (by decide)
  obtain ⟨row, columns, made, made', beside, -, beyond⟩ := merges
    (fromRawTuple (replicate 8 1) .oneInt ⟨⟨1, 2⟩, 3⟩) (fromValues [.int 5]) [.int] [.int]
    ⟨rfl, by rintro _ ⟨⟩; rfl⟩ ⟨rfl, nofun⟩ rfl (by decide)
  obtain ⟨-, copied, copies, same, rid, -⟩ := writes
    ⟨some (.oneInt, replicate 8 1), [.int 5], ⟨⟨1, 2⟩, 3⟩⟩ ⟨rfl, by rintro _ ⟨⟩; rfl⟩ (by decide)
  exact ⟨row, columns, copied, made, made', beside 1, (beyond _ mem_cons_self).2, copies, same 1, rid⟩

end Tuple
end GoDB.Storage
