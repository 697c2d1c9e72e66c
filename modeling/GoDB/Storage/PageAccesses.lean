import GoDB.Lib.Accesses
import GoDB.Storage.HeapPage

/-! Code that works on a heap page without its latch. A count in the header, a word of a
bitmap and a copied row are one access each. -/

namespace GoDB.Storage
open Common Lib

/-- What `AsHeapPage` computes from the header. It is kept while the page may change. -/
structure PageLayout where
  allocOffset : Nat
  deletedOffset : Nat
  tupleOffset : Nat
deriving DecidableEq

namespace PageLayout

def ofSlots (numSlots : Nat) : PageLayout := ⟨16, 16 + bitmapSize numSlots, 16 + 2 * bitmapSize numSlots⟩

def view (layout : PageLayout) (frame : PageBytes) : HeapPage :=
  ⟨frame, layout.allocOffset, layout.deletedOffset, layout.tupleOffset⟩

end PageLayout

namespace Bitmap

theorem length_setWord (bitmap : Bitmap) (index : Nat) (word : BitVec 64) :
    (bitmap.words.set index word).length = numWords bitmap.numBits := by
  rw [List.length_set, bitmap.sized]

def setWord (bitmap : Bitmap) (index : Nat) (word : BitVec 64) : Bitmap :=
  ⟨bitmap.words.set index word, bitmap.numBits, length_setWord ..⟩

def withBit (word : BitVec 64) (i : Int) (on : Bool) : BitVec 64 :=
  if on then word ||| mask i else word &&& ~~~ mask i

end Bitmap

abbrev PageAccesses := Accesses PageBytes

namespace PageAccesses

variable (start stop numBits : Nat)

def loadUint16 : PageAccesses Nat := .load fun page => .done (page.uint16 start)

def putUint16 (number : Int) : PageAccesses Unit := .store (·.putUint16 start number) (.done ())

def numUsed : PageAccesses Nat := loadUint16 12

def numSlots : PageAccesses Nat := loadUint16 10

def rowSize : PageAccesses Nat := loadUint16 8

def asHeapPage : PageAccesses PageLayout := do return .ofSlots (← numSlots)

def bitmapAt (page : PageBytes) : Option Bitmap := do
  Bitmap.asBitmap (← page.read start stop) numBits

def loadBit (i : Int) : PageAccesses Bool := .load fun page =>
  match (bitmapAt start stop numBits page).bind (·.loadBit i) with
  | some bit => .done bit
  | none => .failed

/-- `b.words[index] = word`. -/
def storeWord (index : Nat) (word : BitVec 64) (page : PageBytes) : Option PageBytes := do
  let bitmap ← bitmapAt start stop numBits page
  page.write start stop (bitmap.setWord index word).bytes

/-- The word is loaded, and later stored with the bit changed. -/
def setBit (i : Int) (on : Bool) : PageAccesses Bool := .load fun page =>
  match (bitmapAt start stop numBits page).bind (·.board i) with
  | some word => .store (storeWord start stop numBits (i.tdiv 64).toNat (Bitmap.withBit word i on))
      (.done (word &&& Bitmap.mask i != 0#64))
  | none => .failed

variable (layout : PageLayout) (rid : RecordID)

def isAllocated : PageAccesses Bool := do
  loadBit layout.allocOffset layout.deletedOffset (← numSlots) rid.slot

def isDeleted : PageAccesses Bool := do
  loadBit layout.deletedOffset layout.tupleOffset (← numSlots) rid.slot

def markDeleted (deleted : Bool) : PageAccesses Unit := do
  let _ ← setBit layout.deletedOffset layout.tupleOffset (← numSlots) rid.slot deleted

def countUsed (allocated wasAllocated : Bool) : PageAccesses Unit :=
  if allocated && !wasAllocated then do putUint16 12 ((← numUsed) + 1)
  else if !allocated && wasAllocated then do putUint16 12 ((← numUsed) - 1)
  else return

def markAllocated (allocated : Bool) : PageAccesses Unit := do
  let wasAllocated ← setBit layout.allocOffset layout.deletedOffset (← numSlots) rid.slot allocated
  countUsed allocated wasAllocated
  markDeleted layout rid false

/-- `copy(page[start:stop], row)`. -/
def copyRow (start stop : Int) (row : RawTuple) : PageAccesses Unit :=
  if start < 0 then .failed else .store (·.write start.toNat stop.toNat row) (.done ())

def copyTuple (row : RawTuple) : PageAccesses Unit := do
  let start : Int := layout.tupleOffset + rid.slot * (← rowSize)
  copyRow start (start + (← rowSize)) row

def clear : Nat → PageAccesses Unit
  | 0 => return
  | count + 1 => do
    clear count
    .store (·.write count (count + 1) [0]) (.done ())

def initializeHeapPage (desc : RawTupleDesc) : PageAccesses Unit := do
  clear pageSize
  putUint16 8 desc.bytesPerTuple
  putUint16 10 (maxSlots desc.bytesPerTuple)
  putUint16 12 0

/-- What `InsertTuple` does with a page that it has allocated. -/
def fillNewPage (desc : RawTupleDesc) (rid : RecordID) (row : RawTuple) : PageAccesses Unit := do
  initializeHeapPage desc
  let heapPage ← asHeapPage
  markAllocated heapPage rid true
  copyTuple heapPage rid row

/-- `heapPage.IsDeleted(rid) || !heapPage.IsAllocated(rid)`. -/
def isFree : PageAccesses Bool := do
  if ← isDeleted layout rid then return true else return !(← isAllocated layout rid)

def vacuumSlot : PageAccesses Unit := do
  if ← isFree layout rid then
    markDeleted layout rid false
    markAllocated layout rid false

/-- The loop of `VacuumPage` from a slot on. It ends because the number of slots has 16 bits. -/
def vacuumSlots (layout : PageLayout) (pageID : PageID) : Nat → Nat → PageAccesses Unit
  | 0, _ => return
  | turns + 1, i => do
    if i < (← numSlots) then
      vacuumSlot layout ⟨pageID, i⟩
      vacuumSlots layout pageID turns (i + 1)

def vacuumPage (pageID : PageID) : PageAccesses Unit := do
  vacuumSlots (← asHeapPage) pageID 65536 0

end PageAccesses
end GoDB.Storage
