import GoDB.Lib.LittleEndian
import Mathlib.Data.List.Lex
import Mathlib.Data.List.TakeWhile
import Mathlib.Data.Prod.Lex
import Mathlib.Order.Fin.Basic
import Mathlib.Data.Int.Order.Basic

/-! The values of a row and their fixed-width storage format. NULL has no flag of
its own on disk: an integer column writes the smallest integer for it and a
string column a first byte of 0xFF. -/

namespace GoDB.Common
open Lib

def intSize : Nat := 8

def stringLength : Nat := 32

/-- The types that `NewRawTupleDesc` accepts. -/
inductive FieldType where
  | int
  | string
deriving DecidableEq, Repr

def FieldType.size : FieldType → Nat
  | .int => intSize
  | .string => stringLength

/-- What `NewStringValue` accepts: at most `stringLength` bytes. -/
abbrev Text := { bytes : List Byte // bytes.length ≤ stringLength }

inductive Value where
  | int (underlyingInt : Int64)
  | string (underlyingString : Text)
  | null (t : FieldType)
deriving DecidableEq

namespace Value

def type : Value → FieldType
  | .int _ => .int
  | .string _ => .string
  | .null t => t

def isNull : Value → Bool
  | .null _ => true
  | .int _ | .string _ => false

/-- The bytes before the first zero, all of them when there is none. -/
def untilZero (source : List Byte) : Text :=
  ⟨(source.take stringLength).takeWhile (· ≠ 0), (List.takeWhile_prefix _).length_le.trans (List.length_take_le ..)⟩

/-- The callers pass at least the bytes of the type. -/
def asValue (t : FieldType) (source : List Byte) : Value :=
  match t with
  | .int =>
    let underlyingInt := Int64.ofBitVec (BitVec.ofNat 64 (LittleEndian.decode (source.take intSize)))
    if underlyingInt = Int64.minValue then .null .int else .int underlyingInt
  | .string => if source.head? = some 255 then .null .string else .string (untilZero source)

/-- The bytes that `WriteTo` leaves at the front of its buffer. -/
def writeTo : Value → List Byte
  | .null .int => LittleEndian.encode intSize 0x8000000000000000
  | .null .string => 255 :: List.replicate (stringLength - 1) 0
  | .int underlyingInt => LittleEndian.encode intSize underlyingInt.toBitVec.toNat
  | .string underlyingString => underlyingString.val ++ List.replicate (stringLength - underlyingString.val.length) 0

/-- NULL sorts below everything else. The source asserts that the types agree,
so the last two cases are never met. -/
def compare : Value → Value → Ordering
  | .null _, .null _ => .eq
  | .null _, _ => .lt
  | _, .null _ => .gt
  | .int first, .int second => if first < second then .lt else if second < first then .gt else .eq
  | .string first, .string second =>
    if first.val < second.val then .lt else if second.val < first.val then .gt else .eq
  | .int _, .string _ => .lt
  | .string _, .int _ => .gt

def rank : Value → ℕ ×ₗ ℤ ×ₗ List Byte
  | .null _ => toLex (0, toLex (0, []))
  | .int v => toLex (1, toLex (v.toInt, []))
  | .string s => toLex (2, toLex (0, s.val))

theorem compare_eq_cmp (first second : Value) : first.compare second = cmp first.rank second.rank := by
  cases first with
  | null =>
    cases second <;> simp [compare, rank, cmp, cmpUsing, Prod.Lex.lt_iff]
  | int a =>
    cases second with
    | null | string => simp [compare, rank, cmp, cmpUsing, Prod.Lex.lt_iff]
    | int b => simp [compare, rank, cmp, cmpUsing, Prod.Lex.lt_iff, Int64.lt_iff_toInt_lt]
  | string a =>
    cases second with
    | null | int => simp [compare, rank, cmp, cmpUsing, Prod.Lex.lt_iff]
    | string b => simp [compare, rank, cmp, cmpUsing, Prod.Lex.lt_iff]

end Value
end GoDB.Common
