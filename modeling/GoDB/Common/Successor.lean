import GoDB.Common.Types

/-! The next and the previous value in the order of a type. A missing result is a
failed assertion. -/

namespace GoDB.Common
open Lib

/-- Add one, with carry, to a text given from its last byte on. -/
def carry : List Byte → Option (List Byte)
  | [] => none
  | byte :: rest => if byte ≠ 255 then some ((byte + 1) :: rest) else (carry rest).map (0 :: ·)

def nextLexString (s : Text) : Option (List Byte) :=
  if s.val.length < stringLength then some (s.val ++ [0]) else (carry s.val.reverse).map List.reverse

def prevLexString (s : Text) : Option (List Byte) :=
  match s.val.getLast? with
  | none => none
  | some last =>
    if last = 0 then some s.val.dropLast
    else some (s.val.dropLast ++ [last - 1] ++ List.replicate (stringLength - s.val.length) 255)

def newStringValue (bytes : List Byte) : Option Value :=
  if fits : bytes.length ≤ stringLength then some (.string ⟨bytes, fits⟩) else none

namespace Value

def increment : Value → Option Value
  | .null _ => none
  | .int v => if v < Int64.maxValue then some (.int (v + 1)) else none
  | .string s => do newStringValue (← nextLexString s)

def decrement : Value → Option Value
  | .null _ => none
  | .int v => if Int64.minValue < v then some (.int (v - 1)) else none
  | .string s => do newStringValue (← prevLexString s)

end Value
end GoDB.Common
