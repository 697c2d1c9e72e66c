import GoDB.Lib.Splice
import GoDB.Common.Identifiers
import GoDB.Storage.Bitmap
import GoDB.Storage.Page

/-! The layout of a page of rows:
`LSN (8) | RowSize (2) | NumSlots (2) | NumUsed (2) | Padding (2) | allocation bitmap | deleted bitmap | rows`.
A result is missing where the source panics. -/

namespace GoDB.Storage
open Common Lib

namespace PageBytes
variable (page : PageBytes) (start : Nat)

def uint16 : Nat := LittleEndian.decode (slice page.val start (start + 2))

theorem uint16_lt : page.uint16 start < 65536 := by
  have bounded := LittleEndian.decode_lt (slice page.val start (start + 2))
  have short : (slice page.val start (start + 2)).length ≤ 2 := by
    simp only [slice, List.length_drop, List.length_take]
    omega
  exact bounded.trans_le (Nat.pow_le_pow_right (by omega) short)

/-- `page[start:stop]`. -/
def read (stop : Nat) : Option (List Byte) :=
  if start ≤ stop ∧ stop ≤ pageSize then some (slice page.val start stop) else none

/-- `copy(page[start:stop], source)`. -/
def write (stop : Nat) (source : List Byte) : Option PageBytes :=
  if inside : start ≤ stop ∧ stop ≤ pageSize then
    some ⟨copyInto page.val start stop source,
      (length_copyInto inside.1 (page.property.symm ▸ inside.2) source).trans page.property⟩
  else none

def putUint16 (number : Int) : Option PageBytes :=
  page.write start (start + 2) (LittleEndian.encode 2 (number % 65536).toNat)

end PageBytes

def bitmapSize (slots : Nat) : Nat := numWords slots * 8

def slotsFit (rowSize totalSlots : Nat) : Bool :=
  16 + 2 * bitmapSize totalSlots + totalSlots * rowSize ≤ pageSize

/-- The largest number of slots that the loop reaches before it breaks off. -/
def maxSlots (rowSize : Nat) : Nat := ((List.range' 1 pageSize).takeWhile (slotsFit rowSize)).length

/-- The page is cleared first, so that what the frame held before is lost. -/
def initializeHeapPage (desc : RawTupleDesc) : Option PageBytes := do
  let page ← PageBytes.zero.putUint16 8 desc.bytesPerTuple
  let page ← page.putUint16 10 (maxSlots desc.bytesPerTuple)
  page.putUint16 12 0

structure HeapPage where
  frame : PageBytes
  allocOffset : Nat
  deletedOffset : Nat
  tupleOffset : Nat

namespace HeapPage
variable (page : HeapPage)

def numUsed : Nat := page.frame.uint16 12

def numSlots : Nat := page.frame.uint16 10

def rowSize : Nat := page.frame.uint16 8

def setNumUsed (numUsed : Int) : Option HeapPage := do
  return { page with frame := ← page.frame.putUint16 12 numUsed }

def asHeapPage (frame : PageBytes) : HeapPage :=
  let size := bitmapSize (frame.uint16 10)
  ⟨frame, 16, 16 + size, 16 + 2 * size⟩

def allocMap : Option Bitmap := do
  Bitmap.asBitmap (← page.frame.read page.allocOffset page.deletedOffset) page.numSlots

def deletedMap : Option Bitmap := do
  Bitmap.asBitmap (← page.frame.read page.deletedOffset page.tupleOffset) page.numSlots

def findFreeSlot : Option (Option Nat) := do
  return (← page.allocMap).findFirstZero 0

variable (rid : RecordID)

def isAllocated : Option Bool := do
  (← page.allocMap).loadBit rid.slot

def isDeleted : Option Bool := do
  (← page.deletedMap).loadBit rid.slot

def markDeleted (deleted : Bool) : Option HeapPage := do
  let (_, changed) ← (← page.deletedMap).setBit rid.slot deleted
  return { page with frame := ← page.frame.write page.deletedOffset page.tupleOffset changed.bytes }

def countUsed (allocated wasAllocated : Bool) : Option HeapPage :=
  if allocated && !wasAllocated then page.setNumUsed (page.numUsed + 1)
  else if !allocated && wasAllocated then page.setNumUsed (page.numUsed - 1)
  else some page

/-- The deleted bit is cleared in either direction. -/
def markAllocated (allocated : Bool) : Option HeapPage := do
  let (wasAllocated, changed) ← (← page.allocMap).setBit rid.slot allocated
  let page := { page with frame := ← page.frame.write page.allocOffset page.deletedOffset changed.bytes }
  let page ← page.countUsed allocated wasAllocated
  page.markDeleted rid false

def rowStart : Int := page.tupleOffset + rid.slot * page.rowSize

def accessTuple : Option RawTuple :=
  if page.rowStart rid < 0 then none
  else page.frame.read (page.rowStart rid).toNat ((page.rowStart rid).toNat + page.rowSize)

/-- `copy(page.AccessTuple(rid), row)`. -/
def copyTuple (row : RawTuple) : Option HeapPage :=
  if page.rowStart rid < 0 then none
  else do
    let start := (page.rowStart rid).toNat
    return { page with frame := ← page.frame.write start (start + page.rowSize) row }

/-- `copy(page.AccessTuple(rid)[offset:], bytes)`. -/
def writeTuple (offset : Nat) (bytes : List Byte) : Option HeapPage :=
  if page.rowStart rid < 0 ∨ page.rowSize < offset then none
  else do
    let start := (page.rowStart rid).toNat
    return { page with frame := ← page.frame.write (start + offset) (start + page.rowSize) bytes }

end HeapPage
end GoDB.Storage
