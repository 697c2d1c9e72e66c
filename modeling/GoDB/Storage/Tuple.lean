import GoDB.Common.Types

/-! The physical view of a row: a block of bytes and the descriptor that reads it. -/

namespace GoDB.Storage
open Common Lib

def pageSize : Nat := 4096

abbrev RawTuple := List Byte

variable (fields : List FieldType)

def bytesOf : Nat := (fields.map FieldType.size).sum

/-- The source caches the offset of each field; here it is computed. -/
structure RawTupleDesc where
  fields : List FieldType
  fits : bytesOf fields ≤ pageSize - 32
deriving DecidableEq

/-- Rows of one integer, for samples. -/
abbrev RawTupleDesc.oneInt : RawTupleDesc := ⟨[.int], by decide⟩

abbrev RawTupleDesc.twoInts : RawTupleDesc := ⟨[.int, .int], by decide⟩

/-- Fails where the source panics. Every size is a multiple of eight, so its
other assertion cannot fail. -/
def newRawTupleDesc : Option RawTupleDesc :=
  if fits : bytesOf fields ≤ pageSize - 32 then some ⟨fields, fits⟩ else none

namespace RawTupleDesc
variable (desc : RawTupleDesc)

def numColumns : Nat := desc.fields.length

def bytesPerTuple : Nat := bytesOf desc.fields

def getFieldOffset (i : Nat) : Nat := bytesOf (desc.fields.take i)

def getValue (t : RawTuple) (i : Nat) : Option Value :=
  (desc.fields[i]?).map fun type => Value.asValue type (t.drop (desc.getFieldOffset i))

/-- Fails on a type mismatch, as the source panics. -/
def setValue (t : RawTuple) (i : Nat) (val : Value) : Option RawTuple :=
  if desc.fields[i]? = some val.type then
    let offset := desc.getFieldOffset i
    some (t.take offset ++ val.writeTo ++ t.drop (offset + val.type.size))
  else none

end RawTupleDesc

def readFields : List FieldType → RawTuple → List Value
  | [], _ => []
  | type :: rest, t => Value.asValue type t :: readFields rest (t.drop type.size)

@[simp] theorem length_readFields (t : RawTuple) : (readFields fields t).length = fields.length := by
  induction fields generalizing t with
  | nil => rfl
  | cons type rest ih => simp [readFields, ih]

theorem getElem?_readFields (t : RawTuple) (i : Nat) : (readFields fields t)[i]? =
    (fields[i]?).map fun type => Value.asValue type (t.drop (bytesOf (fields.take i))) := by
  induction fields generalizing t i with
  | nil => rfl
  | cons type rest ih =>
    cases i with
    | zero => simp [readFields, bytesOf]
    | succ i => simp [readFields, ih, bytesOf, List.drop_drop]

namespace RawTupleDesc

def values (desc : RawTupleDesc) (t : RawTuple) : List Value := readFields desc.fields t

theorem getValue_eq (desc : RawTupleDesc) (t : RawTuple) (i : Nat) : desc.getValue t i = (desc.values t)[i]? :=
  (getElem?_readFields ..).symm

end RawTupleDesc
end GoDB.Storage
