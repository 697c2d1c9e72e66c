import GoDB.Lib.LittleEndian

/-! A bitmap over the bytes of a page, in words of 64 bits. The words are read
from memory in the order of a little-endian machine. -/

namespace GoDB.Storage
open Lib

def numWords (numBits : Nat) : Nat := (numBits + 63) / 64

structure Bitmap where
  words : List (BitVec 64)
  numBits : Nat
  sized : words.length = numWords numBits

namespace Bitmap

def wordsOf : Nat → List Byte → List (BitVec 64)
  | 0, _ => []
  | count + 1, data => BitVec.ofNat 64 (LittleEndian.decode (data.take 8)) :: wordsOf count (data.drop 8)

theorem length_wordsOf (count : Nat) (data : List Byte) : (wordsOf count data).length = count := by
  induction count generalizing data with
  | zero => rfl
  | succ count ih => simp [wordsOf, ih]

/-- Fails where the source panics: on its two assertions and on the address of
the first byte of an empty slice. -/
def asBitmap (data : List Byte) (numBits : Nat) : Option Bitmap :=
  if data.length % 8 = 0 ∧ numWords numBits * 8 ≤ data.length ∧ data ≠ [] then
    some ⟨wordsOf (numWords numBits) data, numBits, length_wordsOf ..⟩
  else none

variable (bitmap : Bitmap)

def bytes : List Byte := bitmap.words.flatMap fun word => LittleEndian.encode 8 word.toNat

variable (i : Int)

/-- `b.words[i/64]`, which is out of range for some `i`. -/
def board : Option (BitVec 64) :=
  if i.tdiv 64 < 0 then none else bitmap.words[(i.tdiv 64).toNat]?

/-- The remainder is negative for a negative index and the shift then clears the mask. -/
def mask : BitVec 64 := 1#64 <<< (BitVec.ofInt 64 (i.tmod 64)).toNat

def setBit (on : Bool) : Option (Bool × Bitmap) :=
  (bitmap.board i).map fun currentBoard =>
    (currentBoard &&& mask i != 0#64, { bitmap with
        words := bitmap.words.set (i.tdiv 64).toNat (if on then currentBoard ||| mask i else currentBoard &&& ~~~ mask i)
        sized := by rw [List.length_set, bitmap.sized] })

def loadBit : Option Bool :=
  (bitmap.board i).map fun currentBoard => currentBoard &&& mask i != 0#64

def trailingZeros64 (word : BitVec 64) : Nat := (List.range 64).findIdx word.getLsbD

def zeroIn (numBits index : Nat) (word : BitVec 64) : Option Nat :=
  if word = BitVec.allOnes 64 then none
  else
    let resultIdx := index * 64 + trailingZeros64 (~~~ word)
    if resultIdx < numBits then some resultIdx else none

/-- Nothing stands for -1. -/
def findFirstZero (startHint : Nat) : Option Nat :=
  if bitmap.numBits = 0 then none
  else
    let startHint := startHint % bitmap.numBits
    let boardIndex := startHint / 64
    let word := bitmap.words.getD boardIndex 0#64 ||| (1#64 <<< (startHint % 64) - 1#64)
    (zeroIn bitmap.numBits boardIndex word).or <|
      (List.range' 1 bitmap.words.length).findSome? fun i =>
        let currWordIdx := (boardIndex + i) % bitmap.words.length
        zeroIn bitmap.numBits currWordIdx (bitmap.words.getD currWordIdx 0#64)

end Bitmap
end GoDB.Storage
