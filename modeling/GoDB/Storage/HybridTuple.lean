import GoDB.Common.Identifiers
import GoDB.Lib.Splice
import GoDB.Storage.Tuple

/-! A row on its way through the executors: the bytes that were read from a page,
if any, followed by the values that were computed since. -/

namespace GoDB.Storage
open Common Lib

structure Tuple where
  raw : Option (RawTupleDesc × RawTuple)
  extraValues : List Value
  rid : RecordID

namespace Tuple

def fromRawTuple (rawTuple : RawTuple) (desc : RawTupleDesc) (rid : RecordID) : Tuple := ⟨some (desc, rawTuple), [], rid⟩

def fromValues (values : List Value) : Tuple := ⟨none, values, ⟨⟨0, 0⟩, 0⟩⟩

variable (t : Tuple)

def physCols : Nat :=
  match t.raw with
  | none => 0
  | some (rawDesc, _) => rawDesc.numColumns

def numColumns : Nat := t.physCols + t.extraValues.length

def getValue (i : Nat) : Option Value :=
  match t.raw with
  | none => t.extraValues[i]?
  | some (rawDesc, rawTuple) =>
    if i < rawDesc.numColumns then rawDesc.getValue rawTuple i else t.extraValues[i - rawDesc.numColumns]?

variable (buf : RawTuple) (desc : RawTupleDesc) (left right : Tuple)

/-- The buffer that is left. The bytes of a row are copied as they are, without a
look at their types. -/
def writeToBuffer : Option RawTuple :=
  if desc.bytesPerTuple ≤ buf.length ∧ t.numColumns = desc.numColumns then
    let start := match t.raw with
      | none => buf
      | some (_, rawTuple) => copy buf rawTuple
    (t.extraValues.zipIdx t.physCols).foldlM (fun buf entry => desc.setValue buf entry.2 entry.1) start
  else none

def deepCopy : Option Tuple := do
  let dest ← t.writeToBuffer (List.replicate desc.bytesPerTuple 0) desc
  return fromRawTuple dest desc t.rid

def rawTuple (t : Tuple) : RawTuple :=
  match t.raw with
  | none => []
  | some (_, rawTuple) => rawTuple

def values : List Value :=
  match t.raw with
  | none => t.extraValues
  | some (rawDesc, rawTuple) => rawDesc.values rawTuple ++ t.extraValues

theorem values_some (rawDesc : RawTupleDesc) (rawTuple : RawTuple) (extraValues : List Value) (rid : RecordID) :
    values ⟨some (rawDesc, rawTuple), extraValues, rid⟩ = rawDesc.values rawTuple ++ extraValues := rfl

/-- The buffer that is left. Two rows that are all bytes are put side by side;
otherwise the columns are written one by one. -/
def mergeTuples : Option RawTuple :=
  if desc.bytesPerTuple ≤ buf.length ∧ left.numColumns + right.numColumns = desc.numColumns then
    if left.extraValues.isEmpty && right.extraValues.isEmpty then
      let size := left.rawTuple.length
      let buf := copy buf left.rawTuple
      if size ≤ buf.length then some (buf.take size ++ copy (buf.drop size) right.rawTuple) else none
    else (left.values ++ right.values).zipIdx.foldlM (fun buf entry => desc.setValue buf entry.2 entry.1) buf
  else none

/-- The columns of both rows written one by one, whatever they are made of. The source also
comes here with a list of computed values that is empty and not nil. -/
def mergeColumns : Option RawTuple :=
  (left.values ++ right.values).zipIdx.foldlM (fun buf entry => desc.setValue buf entry.2 entry.1) buf

def written : Option Tuple :=
  (t.writeToBuffer buf desc).map (fromRawTuple · desc t.rid)

def merged : Option Tuple :=
  (mergeTuples buf desc left right).map (fromRawTuple · desc ⟨⟨0, 0⟩, 0⟩)

theorem getValue_eq (i : Nat) : t.getValue i = t.values[i]? := by
  obtain ⟨raw, extraValues, rid⟩ := t
  cases raw with
  | none => rfl
  | some raw =>
    have width : (raw.1.values raw.2).length = raw.1.numColumns := length_readFields ..
    simp only [getValue, values]
    split
    next inside => rw [RawTupleDesc.getValue_eq, List.getElem?_append_left (width ▸ inside)]
    next outside => rw [List.getElem?_append_right (by omega), width]

theorem length_values : t.values.length = t.numColumns := by
  obtain ⟨raw, extraValues, rid⟩ := t
  cases raw with
  | none => simp [values, numColumns, physCols]
  | some raw => simp [values, numColumns, physCols, RawTupleDesc.values, RawTupleDesc.numColumns]

end Tuple
end GoDB.Storage
