import GoDB.Indexing.IndexManager
import GoDB.Planner.ScanRules

/-! Values written as a key and read back. Most values survive this; the smallest
integer and a text that starts with 0xFF turn into NULL, and a text ends at its
first zero byte. -/

namespace GoDB.Common
open Lib List LittleEndian

namespace Value

def stored (v : Value) : Value := asValue v.type v.writeTo

@[simp] theorem length_writeTo (v : Value) : v.writeTo.length = v.type.size := by
  cases v with
  | int => exact length_encode ..
  | string s =>
    have fits := s.property
    simp only [writeTo, length_append, length_replicate, type, FieldType.size]
    omega
  | null t =>
    cases t with
    | int => exact length_encode ..
    | string => simp [writeTo, type, FieldType.size, stringLength]

variable {bytes : List Byte}

theorem asValue_append {t : FieldType} (full : bytes.length = t.size) (rest : List Byte) :
    asValue t (bytes ++ rest) = asValue t bytes := by
  cases t with
  | int =>
    have cut : (bytes ++ rest).take intSize = bytes := take_left' full
    have whole : bytes.take intSize = bytes := take_of_length_le full.le
    simp only [asValue, cut, whole]
  | string =>
    cases bytes with
    | nil => simp [FieldType.size, stringLength] at full
    | cons first others =>
      have cut : (first :: others ++ rest).take stringLength = first :: others := take_left' full
      have whole : (first :: others).take stringLength = first :: others := take_of_length_le full.le
      simp only [asValue, untilZero, cut, whole]
      rfl

@[simp] theorem type_asValue (t : FieldType) (source : List Byte) : (asValue t source).type = t := by
  cases t <;> simp only [asValue] <;> split <;> rfl

theorem stored_int (v : Int64) : stored (.int v) = if v = Int64.minValue then .null .int else .int v := by
  have small : v.toBitVec.toNat < 256 ^ intSize := v.toBitVec.isLt
  have full : (encode intSize v.toBitVec.toNat).take intSize = encode intSize v.toBitVec.toNat :=
    take_of_length_le (length_encode ..).le
  simp [stored, type, writeTo, asValue, full, decode_encode, Nat.mod_eq_of_lt small, Int64.ofBitVec_toBitVec]

theorem untilZero_padded (fits : bytes.length ≤ stringLength) (nonzero : ∀ byte ∈ bytes, byte ≠ 0) :
    untilZero (bytes ++ replicate (stringLength - bytes.length) 0) = ⟨bytes, fits⟩ := by
  have full : (bytes ++ replicate (stringLength - bytes.length) (0 : Byte)).take stringLength =
      bytes ++ replicate (stringLength - bytes.length) 0 := by
    apply take_of_length_le
    simp only [length_append, length_replicate]
    omega
  apply Subtype.ext
  simp only [untilZero, full]
  rw [takeWhile_append_of_pos (by simpa using nonzero)]
  cases stringLength - bytes.length <;> simp [replicate_succ]

theorem stored_asValue (t : FieldType) (source : List Byte) : stored (asValue t source) = asValue t source := by
  cases t with
  | int =>
    simp only [asValue]
    split
    · decide
    next proper => rw [stored_int, if_neg proper]
  | string =>
    simp only [asValue]
    split
    · decide
    next unmarked =>
      have nonzero : ∀ byte ∈ (untilZero source).val, byte ≠ 0 := fun byte member => by
        simpa using mem_takeWhile_imp member
      have front : (untilZero source).val <+: source :=
        (List.takeWhile_prefix _).trans (List.take_prefix ..)
      have start : (string (untilZero source)).writeTo.head? ≠ some 255 := by
        change ((untilZero source).val ++ replicate (stringLength - (untilZero source).val.length) 0).head? ≠ some 255
        cases shape : (untilZero source).val with
        | nil => decide
        | cons first others =>
          obtain ⟨rest, split⟩ := front
          have head : source.head? = some first := by
            rw [← split, shape]
            rfl
          rwa [head] at unmarked
      apply (if_neg start).trans
      exact congrArg string (untilZero_padded (untilZero source).property nonzero)

end Value
end GoDB.Common

namespace GoDB.Storage
open Common Lib List Value RawTupleDesc

theorem length_writeAll (vals : List Value) : (vals.flatMap writeTo).length = bytesOf (vals.map type) := by
  simp [bytesOf, length_flatMap, Function.comp_def]

theorem readFields_writeAll (vals : List Value) : readFields (vals.map type) (vals.flatMap writeTo) = vals.map stored := by
  induction vals with
  | nil => rfl
  | cons v rest ih =>
    simp only [map_cons, flatMap_cons, readFields, drop_left' v.length_writeTo, ih, asValue_append v.length_writeTo]
    rfl

theorem writeAll_inj {first second : List Value} (types : first.map type = second.map type)
    (kept : ∀ v ∈ first, v.stored = v) (kept' : ∀ v ∈ second, v.stored = v)
    (same : first.flatMap writeTo = second.flatMap writeTo) : first = second := by
  have read := readFields_writeAll first
  rw [types, same, readFields_writeAll, map_congr_left kept, map_congr_left kept', map_id', map_id'] at read
  exact read.symm

theorem stored_readFields (fields : List FieldType) (t : RawTuple) :
    (readFields fields t).map stored = readFields fields t := by
  induction fields generalizing t with
  | nil => rfl
  | cons type rest ih => simp [readFields, ih, stored_asValue]

theorem type_readFields (fields : List FieldType) (t : RawTuple) : (readFields fields t).map type = fields := by
  induction fields generalizing t with
  | nil => rfl
  | cons type rest ih => simp [readFields, ih]

variable {desc : RawTupleDesc} {front rest : List Byte} {fields later : List FieldType}

theorem setValue_next {v : Value}
    (layout : desc.fields = fields ++ v.type :: later) (filled : front.length = bytesOf fields) :
    desc.setValue (front ++ rest) fields.length v = some (front ++ v.writeTo ++ rest.drop v.type.size) := by
  have here : desc.fields[fields.length]? = some v.type := by
    rw [layout, getElem?_append_right le_rfl]
    simp
  have offset : desc.getFieldOffset fields.length = front.length := by
    rw [getFieldOffset, layout, take_left, filled]
  simp only [setValue, here, if_true, offset, take_left, Option.some.injEq]
  rw [drop_append, drop_eq_nil_of_le (by omega), Nat.add_sub_cancel_left, nil_append]

variable {vals : List Value}

theorem setValues_over
    (layout : desc.fields = fields ++ later) (filled : front.length = bytesOf fields) (full : vals.length = later.length) :
    (vals.zipIdx fields.length).foldlM (fun buf entry => desc.setValue buf entry.2 entry.1) (front ++ rest) =
      if vals.map type = later then some (front ++ vals.flatMap writeTo ++ rest.drop (bytesOf later))
      else none := by
  induction vals generalizing fields front rest later with
  | nil =>
    cases length_eq_zero_iff.mp full.symm
    simp [bytesOf]
  | cons v vals ih =>
    obtain ⟨type, later, rfl⟩ := exists_cons_of_length_eq_add_one full.symm
    rw [zipIdx_cons, foldlM_cons]
    by_cases fits : v.type = type
    · subst fits
      have next := @ih (front ++ v.writeTo) (rest.drop v.type.size) (fields ++ [v.type]) later (by simp [layout])
        (by simp [filled, bytesOf]) (Nat.succ.inj full)
      rw [length_append, length_singleton] at next
      rw [setValue_next layout filled, Option.bind_eq_bind, Option.bind_some, next]
      simp [bytesOf]
    · have mismatch : desc.fields[fields.length]? ≠ some v.type := by
        rw [layout, getElem?_append_right le_rfl]
        simpa using fun same => fits same.symm
      simp [setValue, mismatch, fits]

theorem setValues_eq (layout : desc.fields = fields ++ later) (filled : front.length = bytesOf fields)
    (room : rest.length = bytesOf later) (full : vals.length = later.length) :
    (vals.zipIdx fields.length).foldlM (fun buf entry => desc.setValue buf entry.2 entry.1) (front ++ rest) =
      if vals.map type = later then some (front ++ vals.flatMap writeTo) else none := by
  rw [setValues_over layout filled full, ← room, drop_length, append_nil]

end GoDB.Storage

namespace GoDB.Planner
open Common Lib Storage Indexing

theorem makeMultiColumnKey_eq_some_iff {values : List Value} {types : List FieldType} {key : Key} :
    makeMultiColumnKey values types = some key ↔
      values.map Value.type = types ∧ bytesOf types ≤ pageSize - 32 ∧ key = values.flatMap Value.writeTo := by
  unfold makeMultiColumnKey newRawTupleDesc
  by_cases same : values.length = types.length
  · by_cases fits : bytesOf types ≤ pageSize - 32
    · have filled := @setValues_eq ⟨types, fits⟩ [] (List.replicate (bytesOf types) 0) [] types values rfl rfl (by simp) same
      simp only [List.length_nil, List.nil_append] at filled
      simp only [same, if_true, fits, dif_pos, Option.bind_eq_bind, Option.bind_some, RawTupleDesc.bytesPerTuple, filled]
      by_cases agree : values.map Value.type = types
      · simp [agree, eq_comm]
      · simp [agree]
    · simp [same, fits]
  · have apart : values.map Value.type ≠ types := fun agree => same (by rw [← agree, List.length_map])
    simp [same, apart]

end GoDB.Planner
