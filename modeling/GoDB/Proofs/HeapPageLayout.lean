import GoDB.Proofs.BitmapBits
import GoDB.Storage.HeapPage

/-! A heap page as a table of slots. Every operation of the page edits one slot
and nothing else, whatever the row size. -/

namespace GoDB.Storage
open Common Lib List Option PageBytes Nat LittleEndian Bitmap

namespace PageBytes
variable {page later : PageBytes} {start stop first last : Nat} {source : List Byte}

theorem write_eq (order : start ≤ stop) (inside : stop ≤ pageSize) (source : List Byte) :
    ∃ later, page.write start stop source = some later := by
  rw [write, dif_pos ⟨order, inside⟩]
  exact ⟨_, rfl⟩

section
variable (written : page.write start stop source = some later)

include written

theorem val_of_write : start ≤ stop ∧ stop ≤ page.val.length ∧ later.val = copyInto page.val start stop source := by
  rw [write] at written
  split at written
  next inside =>
    cases written
    exact ⟨inside.1, page.property.symm ▸ inside.2, rfl⟩
  · cases written

theorem slice_write_apart (apart : last ≤ start ∨ stop ≤ first) :
    slice later.val first last = slice page.val first last := by
  obtain ⟨order, inside, result⟩ := val_of_write written
  rw [result]
  rcases apart with before | after
  · exact slice_copyInto_before order inside before
  · exact slice_copyInto_after order inside after

omit written in
theorem slice_write_end {offset : Nat} (written : page.write (start + offset) stop source = some later) :
    slice later.val start stop = copyInto (slice page.val start stop) offset (stop - start) source := by
  obtain ⟨order, inside, result⟩ := val_of_write written
  rw [result]
  exact slice_copyInto_end order inside source

theorem slice_write (fits : source.length = stop - start) : slice later.val start stop = source := by
  obtain ⟨order, inside, result⟩ := val_of_write written
  rw [result]
  exact slice_copyInto order inside fits

end

theorem read_congr (same : slice later.val start stop = slice page.val start stop) :
    later.read start stop = page.read start stop := by
  rw [read, read, same]

theorem uint16_putUint16 {number : Nat} (small : number < 65536) (written : page.putUint16 start number = some later) :
    later.uint16 start = number := by
  rw [uint16, slice_write written (by rw [length_encode]; omega), decode_encode]
  omega

end PageBytes

section Layout
variable {rowSize : Nat}

theorem maxSlots_pos (fits : rowSize ≤ pageSize - 32) : 0 < maxSlots rowSize := by
  have enough : slotsFit rowSize 1 = true := by
    apply decide_eq_true
    simp only [bitmapSize, numWords, pageSize] at fits ⊢
    omega
  have range : range' 1 pageSize = 1 :: range' 2 (pageSize - 1) := rfl
  rw [maxSlots, range, takeWhile_cons_of_pos enough]
  exact succ_pos _

theorem maxSlots_le (rowSize : Nat) : maxSlots rowSize ≤ pageSize := by
  have bounded := (List.takeWhile_prefix (l := range' 1 pageSize) (slotsFit rowSize)).length_le
  rwa [length_range'] at bounded

theorem layout_fits (fits : rowSize ≤ pageSize - 32) :
    16 + 2 * bitmapSize (maxSlots rowSize) + maxSlots rowSize * rowSize ≤ pageSize := by
  have positive := maxSlots_pos fits
  generalize kept : (range' 1 pageSize).takeWhile (slotsFit rowSize) = taken
  have size : maxSlots rowSize = taken.length := by rw [maxSlots, kept]
  have last : taken.length - 1 < taken.length := by omega
  have begins : taken <+: range' 1 pageSize := kept ▸ takeWhile_prefix _
  have value : taken[taken.length - 1] = maxSlots rowSize := by
    rw [begins.getElem last, getElem_range']
    omega
  have member : taken[taken.length - 1] ∈ taken := getElem_mem last
  rw [value, ← kept] at member
  have fitting : slotsFit rowSize (maxSlots rowSize) = true := mem_takeWhile_imp member
  exact of_decide_eq_true fitting

end Layout

structure SlotView where
  allocated : Bool
  deleted : Bool
  row : RawTuple

namespace HeapPage

def rowBytes (page : HeapPage) (i : Nat) : RawTuple :=
  slice page.frame.val (page.tupleOffset + i * page.rowSize) (page.tupleOffset + i * page.rowSize + page.rowSize)

def slotView (page : HeapPage) (i : Nat) : SlotView where
  allocated := (page.allocMap.map (·.bit i)).getD false
  deleted := (page.deletedMap.map (·.bit i)).getD false
  row := page.rowBytes i

structure Formatted (rowSize : Nat) (page : HeapPage) : Prop where
  fits : rowSize ≤ pageSize - 32
  rows : page.rowSize = rowSize
  slots : page.numSlots = maxSlots rowSize
  alloc : page.allocOffset = 16
  deleted : page.deletedOffset = 16 + bitmapSize (maxSlots rowSize)
  tuples : page.tupleOffset = 16 + 2 * bitmapSize (maxSlots rowSize)

variable {rowSize : Nat} {page later : HeapPage} {frame : PageBytes} {start stop i : Nat} {source : List Byte}

theorem Formatted.viewed (format : page.Formatted rowSize) : asHeapPage page.frame = page := by
  have slots : page.frame.uint16 10 = maxSlots rowSize := format.slots
  rw [asHeapPage, slots, ← format.deleted, ← format.tuples, ← format.alloc]

theorem Formatted.write (format : page.Formatted rowSize)
    (written : page.frame.write start stop source = some frame) (behind : 12 ≤ start) :
    { page with frame := frame }.Formatted rowSize := by
  have rows : frame.uint16 8 = page.frame.uint16 8 :=
    congrArg decode (slice_write_apart written (.inl (by omega)))
  have slots : frame.uint16 10 = page.frame.uint16 10 :=
    congrArg decode (slice_write_apart written (.inl (by omega)))
  exact ⟨format.fits, rows.trans format.rows, slots.trans format.slots, format.alloc, format.deleted,
    format.tuples⟩

structure Edits (rowSize : Nat) (page later : HeapPage) (i : Nat) (view : SlotView) : Prop where
  format : later.Formatted rowSize
  here : later.slotView i = view
  others : ∀ k < maxSlots rowSize, k ≠ i → later.slotView k = page.slotView k

variable {between : HeapPage}

theorem Edits.trans {first second : SlotView} (edits : Edits rowSize page between i first)
    (more : Edits rowSize between later i second) : Edits rowSize page later i second :=
  ⟨more.format, more.here, fun k inside apart =>
    (more.others k inside apart).trans (edits.others k inside apart)⟩

theorem Formatted.bitmap (format : page.Formatted rowSize) (high : start ≤ 16 + bitmapSize (maxSlots rowSize))
    (whole : stop = start + bitmapSize (maxSlots rowSize)) :
    ∃ bitmap, (do asBitmap (← page.frame.read start stop) page.numSlots) = some bitmap ∧
      bitmap.numBits = maxSlots rowSize := by
  have inside := layout_fits format.fits
  have positive := maxSlots_pos format.fits
  have length : (slice page.frame.val start stop).length = bitmapSize (maxSlots rowSize) := by
    rw [length_slice (by rw [page.frame.property]; omega)]
    omega
  rw [PageBytes.read, if_pos ⟨by omega, by omega⟩, bind_eq_bind, bind_some, asBitmap, format.slots, if_pos]
  · exact ⟨_, rfl, rfl⟩
  · rw [length]
    refine ⟨by rw [bitmapSize]; omega, le_refl _, ?_⟩
    apply ne_nil_of_length_pos
    rw [length, bitmapSize, numWords]
    omega

theorem Formatted.allocMap (format : page.Formatted rowSize) :
    ∃ bitmap, page.allocMap = some bitmap ∧ bitmap.numBits = maxSlots rowSize :=
  format.bitmap (by rw [format.alloc]; omega) (by rw [format.alloc, format.deleted])

theorem Formatted.deletedMap (format : page.Formatted rowSize) :
    ∃ bitmap, page.deletedMap = some bitmap ∧ bitmap.numBits = maxSlots rowSize :=
  format.bitmap (by rw [format.deleted]) (by rw [format.deleted, format.tuples]; omega)

variable {pageID : PageID}

section
variable (format : page.Formatted rowSize)

include format

theorem isAllocated_eq (inside : i < maxSlots rowSize) :
    page.isAllocated ⟨pageID, i⟩ = some (page.slotView i).allocated := by
  obtain ⟨bitmap, viewed, size⟩ := format.allocMap
  rw [isAllocated, slotView, viewed]
  exact loadBit_eq (size ▸ inside)

theorem isDeleted_eq (inside : i < maxSlots rowSize) : page.isDeleted ⟨pageID, i⟩ = some (page.slotView i).deleted := by
  obtain ⟨bitmap, viewed, size⟩ := format.deletedMap
  rw [isDeleted, slotView, viewed]
  exact loadBit_eq (size ▸ inside)

theorem findFreeSlot_eq :
    (∃ i < maxSlots rowSize, page.findFreeSlot = some (some i) ∧ (page.slotView i).allocated = false) ∨
      page.findFreeSlot = some none := by
  obtain ⟨bitmap, viewed, size⟩ := format.allocMap
  cases found : bitmap.findFirstZero 0 with
  | some i =>
    obtain ⟨inside, unset⟩ := findFirstZero_some found
    refine .inl ⟨i, size ▸ inside, ?_, ?_⟩
    · simp [findFreeSlot, viewed, found]
    · simpa [slotView, viewed] using unset
  | none => exact .inr (by simp [findFreeSlot, viewed, found])

omit format in
theorem row_inside (fits : rowSize ≤ pageSize - 32) (inside : i < maxSlots rowSize) :
    16 + 2 * bitmapSize (maxSlots rowSize) + i * rowSize + rowSize ≤ pageSize := by
  have whole := layout_fits fits
  have next : (i + 1) * rowSize ≤ maxSlots rowSize * rowSize := mul_le_mul_right _ inside
  rw [succ_mul] at next
  omega

omit format in
theorem rowStart_eq (page : HeapPage) (i : Nat) :
    page.rowStart ⟨pageID, i⟩ = (page.tupleOffset + i * page.rowSize : Nat) := by
  simp [rowStart]

theorem accessTuple_eq (inside : i < maxSlots rowSize) : page.accessTuple ⟨pageID, i⟩ = some (page.slotView i).row := by
  have bound := row_inside format.fits inside
  rw [← format.tuples, ← format.rows] at bound
  rw [accessTuple, rowStart_eq, if_neg (by omega), Int.toNat_natCast, PageBytes.read, if_pos ⟨Nat.le_add_right .., bound⟩]
  rfl

omit format in
theorem length_accessTuple {rid : RecordID} {row : RawTuple} (read : page.accessTuple rid = some row) :
    row.length = page.rowSize := by
  unfold accessTuple PageBytes.read at read
  split at read
  · cases read
  · split at read
    next inside =>
      cases read
      rw [length_slice (by rw [page.frame.property]; exact inside.2)]
      omega
    next => cases read

theorem length_row (inside : i < maxSlots rowSize) : (page.slotView i).row.length = rowSize := by
  have bound := row_inside format.fits inside
  rw [← format.tuples] at bound
  have length : (page.rowBytes i).length = _ :=
    length_slice (by rw [page.frame.property, format.rows]; exact bound)
  rw [slotView, length, format.rows]
  omega

/-! What a write leaves of the regions that it does not meet. -/

end

section
variable (written : page.frame.write start stop source = some frame)

include written

theorem allocMap_write (format : page.Formatted rowSize) (behind : 12 ≤ start)
    (apart : stop ≤ 16 ∨ page.deletedOffset ≤ start) : { page with frame := frame }.allocMap = page.allocMap := by
  have slots : frame.uint16 10 = page.frame.uint16 10 :=
    congrArg decode (slice_write_apart written (.inl (by omega)))
  simp only [HeapPage.allocMap, numSlots, slots]
  rw [read_congr (slice_write_apart written (by rw [format.alloc]; exact apart.symm))]

theorem deletedMap_write (behind : 12 ≤ start) (apart : stop ≤ page.deletedOffset ∨ page.tupleOffset ≤ start) :
    { page with frame := frame }.deletedMap = page.deletedMap := by
  have slots : frame.uint16 10 = page.frame.uint16 10 :=
    congrArg decode (slice_write_apart written (.inl (by omega)))
  simp only [HeapPage.deletedMap, numSlots, slots]
  rw [read_congr (slice_write_apart written apart.symm)]

theorem rowBytes_write (behind : 12 ≤ start)
    (apart : stop ≤ page.tupleOffset + i * page.rowSize ∨ page.tupleOffset + i * page.rowSize + page.rowSize ≤ start) :
    { page with frame := frame }.rowBytes i = page.rowBytes i := by
  have rows : frame.uint16 8 = page.frame.uint16 8 :=
    congrArg decode (slice_write_apart written (.inl (by omega)))
  simp only [rowBytes, rowSize, rows]
  exact slice_write_apart written apart.symm

end

variable {bitmap : Bitmap}

theorem bitmap_write (format : page.Formatted rowSize)
    (written : page.frame.write start stop bitmap.bytes = some frame) (behind : 12 ≤ start)
    (whole : stop = start + bitmapSize (maxSlots rowSize)) (size : bitmap.numBits = maxSlots rowSize) :
    (do asBitmap (← frame.read start stop) { page with frame := frame }.numSlots) = some bitmap := by
  have slots := (format.write written behind).slots
  have positive := maxSlots_pos format.fits
  have length : bitmap.bytes.length = stop - start := by
    rw [bitmap.length_bytes, size, whole, bitmapSize]
    omega
  have inside : start ≤ stop ∧ stop ≤ pageSize := by
    by_contra outside
    rw [write, dif_neg outside] at written
    cases written
  rw [PageBytes.read, if_pos inside, PageBytes.slice_write written length, bind_eq_bind, bind_some, slots, ← size]
  exact asBitmap_bytes (by omega)

theorem bit_set {changed : Bitmap} {on : Bool} (bits : ∀ k, changed.bit k = if k = i then on else bitmap.bit k) :
    ((some changed).map (·.bit i)).getD false = on ∧
      ∀ k, k ≠ i → ((some changed).map (·.bit k)).getD false = ((some bitmap).map (·.bit k)).getD false := by
  simp only [map_some, getD_some]
  exact ⟨by rw [bits, if_pos rfl], fun k apart => by rw [bits, if_neg apart]⟩

section
variable (format : page.Formatted rowSize)

include format

section
variable (inside : i < maxSlots rowSize)

include inside

theorem markDeleted_edits (deleted : Bool) : ∃ later, page.markDeleted ⟨pageID, i⟩ deleted = some later ∧
      Edits rowSize page later i { page.slotView i with deleted := deleted } := by
  have whole := layout_fits format.fits
  have low := format.deleted
  have region : page.tupleOffset = page.deletedOffset + bitmapSize (maxSlots rowSize) := by
    rw [format.deleted, format.tuples]
    omega
  obtain ⟨bitmap, viewed, size⟩ := format.deletedMap
  obtain ⟨changed, set, sameSize, bits⟩ := setBit_eq (size ▸ inside) deleted
  obtain ⟨frame, written⟩ : ∃ frame, page.frame.write page.deletedOffset page.tupleOffset changed.bytes = some frame :=
    write_eq (by omega) (by omega) _
  have behind : 12 ≤ page.deletedOffset := by omega
  have allocSame := allocMap_write written format behind (.inr (le_refl _))
  have deletedNew : { page with frame := frame }.deletedMap = some changed :=
    bitmap_write format written behind region (sameSize.trans size)
  have rowsSame : ∀ k, { page with frame := frame }.rowBytes k = page.rowBytes k :=
    fun k => rowBytes_write written behind (.inl (Nat.le_add_right ..))
  obtain ⟨here, others⟩ := bit_set bits
  refine ⟨{ page with frame := frame }, ?_, format.write written behind, ?_, fun k _ apart => ?_⟩
  · simp [markDeleted, viewed, set, written]
  · simp only [slotView, allocSame, deletedNew, rowsSame, here]
  · simp only [slotView, allocSame, deletedNew, rowsSame, viewed, others k apart]

variable (allocated : Bool)

theorem setAlloc_edits : ∃ bitmap changed frame, page.allocMap = some bitmap ∧
      bitmap.setBit i allocated = some ((page.slotView i).allocated, changed) ∧
      page.frame.write page.allocOffset page.deletedOffset changed.bytes = some frame ∧
      Edits rowSize page { page with frame := frame } i { page.slotView i with allocated := allocated } := by
  have whole := layout_fits format.fits
  have low := format.alloc
  have high := format.deleted
  have region : page.deletedOffset = page.allocOffset + bitmapSize (maxSlots rowSize) := by omega
  have ordered : page.deletedOffset ≤ page.tupleOffset := by
    rw [format.tuples]
    omega
  obtain ⟨bitmap, viewed, size⟩ := format.allocMap
  obtain ⟨changed, set, sameSize, bits⟩ := setBit_eq (size ▸ inside) allocated
  obtain ⟨frame, written⟩ : ∃ frame, page.frame.write page.allocOffset page.deletedOffset changed.bytes = some frame :=
    write_eq (by omega) (by omega) _
  have behind : 12 ≤ page.allocOffset := by omega
  have allocNew : { page with frame := frame }.allocMap = some changed :=
    bitmap_write format written behind region (sameSize.trans size)
  have deletedSame := deletedMap_write written behind (.inl (le_refl _))
  have rowsSame : ∀ k, { page with frame := frame }.rowBytes k = page.rowBytes k :=
    fun k => rowBytes_write written behind (.inl (Nat.le_trans ordered (Nat.le_add_right ..)))
  obtain ⟨here, others⟩ := bit_set bits
  refine ⟨bitmap, changed, frame, viewed, ?_, written, format.write written behind, ?_, fun k _ apart => ?_⟩
  · simp [set, slotView, viewed]
  · simp only [slotView, allocNew, deletedSame, rowsSame, here]
  · simp only [slotView, allocNew, deletedSame, rowsSame, viewed, others k apart]

omit inside in
theorem setNumUsed_edits (numUsed : Int) (i : Nat) :
    ∃ later, page.setNumUsed numUsed = some later ∧ Edits rowSize page later i (page.slotView i) := by
  obtain ⟨frame, written⟩ : ∃ frame, page.frame.putUint16 12 numUsed = some frame :=
    write_eq (by omega) (by rw [pageSize]; omega) _
  have low := format.deleted
  have last := format.tuples
  have same : ∀ k, { page with frame := frame }.slotView k = page.slotView k := by
    intro k
    have allocSame := allocMap_write written format (by omega) (.inl (by omega))
    have deletedSame := deletedMap_write written (by omega) (.inl (by omega))
    have rowSame : { page with frame := frame }.rowBytes k = page.rowBytes k :=
      rowBytes_write written (by omega) (.inl (by omega))
    simp only [slotView, allocSame, deletedSame, rowSame]
  refine ⟨{ page with frame := frame }, ?_, format.write written (by omega), same i, fun k _ _ => same k⟩
  simp [setNumUsed, written]

omit inside in
theorem countUsed_edits (wasAllocated : Bool) (i : Nat) :
    ∃ later, page.countUsed allocated wasAllocated = some later ∧ Edits rowSize page later i (page.slotView i) := by
  rw [countUsed]
  split
  · exact setNumUsed_edits format _ i
  split
  · exact setNumUsed_edits format _ i
  · exact ⟨page, rfl, format, rfl, fun _ _ _ => rfl⟩

theorem markAllocated_edits : ∃ later, page.markAllocated ⟨pageID, i⟩ allocated = some later ∧
      Edits rowSize page later i { page.slotView i with allocated := allocated, deleted := false } := by
  obtain ⟨bitmap, changed, frame, viewed, set, written, edits⟩ := setAlloc_edits format inside allocated
  obtain ⟨counted, count, counts⟩ := countUsed_edits edits.format allocated (page.slotView i).allocated i
  obtain ⟨later, cleared, clears⟩ := @markDeleted_edits _ _ _ pageID counts.format inside false
  refine ⟨later, ?_, ?_⟩
  · simp only [markAllocated, viewed, set, written, count, bind_eq_bind, bind_some]
    exact cleared
  · rw [counts.here, edits.here] at clears
    exact (edits.trans counts).trans clears

theorem writeTuple_written {offset : Nat} (within : offset ≤ rowSize) (bytes : List Byte) :
    ∃ frame, page.frame.write (page.tupleOffset + i * page.rowSize + offset)
        (page.tupleOffset + i * page.rowSize + page.rowSize) bytes = some frame ∧
      page.writeTuple ⟨pageID, i⟩ offset bytes = some { page with frame := frame } := by
  have bound := row_inside format.fits inside
  rw [← format.tuples, ← format.rows] at bound
  rw [← format.rows] at within
  obtain ⟨frame, written⟩ : ∃ frame, page.frame.write (page.tupleOffset + i * page.rowSize + offset)
      (page.tupleOffset + i * page.rowSize + page.rowSize) bytes = some frame :=
    write_eq (Nat.add_le_add_left within _) bound _
  refine ⟨frame, written, ?_⟩
  simp only [writeTuple, rowStart_eq, Int.toNat_natCast, written]
  rw [if_neg (by omega)]
  rfl

theorem writeTuple_edits {offset : Nat} (within : offset ≤ rowSize) (bytes : List Byte) :
    ∃ later, page.writeTuple ⟨pageID, i⟩ offset bytes = some later ∧
      Edits rowSize page later i { page.slotView i with row := copyInto (page.slotView i).row offset rowSize bytes } := by
  have low := format.deleted
  have after : page.deletedOffset ≤ page.tupleOffset := by
    rw [format.deleted, format.tuples]
    omega
  obtain ⟨frame, written, copied⟩ := @writeTuple_written _ _ _ pageID format inside _ within bytes
  have behind : 12 ≤ page.tupleOffset + i * page.rowSize + offset := by omega
  have allocSame := allocMap_write written format behind (.inr (by omega))
  have deletedSame := deletedMap_write written behind (.inr (by omega))
  have kept := format.write written behind
  have sameSize : { page with frame := frame }.rowSize = page.rowSize := kept.rows.trans format.rows.symm
  refine ⟨{ page with frame := frame }, copied, kept, ?_, fun k _ apart => ?_⟩
  · have stored := slice_write_end written
    rw [Nat.add_sub_cancel_left, format.rows] at stored
    simp only [slotView, allocSame, deletedSame, rowBytes, sameSize, format.rows, stored]
  · have apart : page.tupleOffset + i * page.rowSize + page.rowSize ≤ page.tupleOffset + k * page.rowSize ∨
        page.tupleOffset + k * page.rowSize + page.rowSize ≤ page.tupleOffset + i * page.rowSize := by
      rcases lt_or_gt_of_ne apart with before | beyond
      · have step : (k + 1) * page.rowSize ≤ i * page.rowSize := mul_le_mul_right _ before
        rw [succ_mul] at step
        omega
      · have step : (i + 1) * page.rowSize ≤ k * page.rowSize := mul_le_mul_right _ beyond
        rw [succ_mul] at step
        omega
    have rowSame : { page with frame := frame }.rowBytes k = page.rowBytes k :=
      rowBytes_write written behind (apart.imp_right fun before => before.trans (Nat.le_add_right ..))
    simp only [slotView, allocSame, deletedSame, rowSame]

end

end

theorem copyTuple_eq (page : HeapPage) (rid : RecordID)
    (row : RawTuple) : page.copyTuple rid row = page.writeTuple rid 0 row := by
  simp [copyTuple, writeTuple]

theorem copyTuple_formatted (format : page.Formatted rowSize) (inside : i < maxSlots rowSize) (row : RawTuple) :
    ∃ later, page.copyTuple ⟨pageID, i⟩ row = some later ∧ later.Formatted rowSize := by
  obtain ⟨later, written, edits⟩ := @writeTuple_edits _ _ _ pageID format inside 0 (zero_le _) row
  exact ⟨later, (page.copyTuple_eq _ row).trans written, edits.format⟩

theorem copyTuple_edits (format : page.Formatted rowSize) (inside : i < maxSlots rowSize) {row : RawTuple}
    (length : row.length = rowSize) :
    ∃ later, page.copyTuple ⟨pageID, i⟩ row = some later ∧
      Edits rowSize page later i { page.slotView i with row := row } := by
  obtain ⟨later, written, edits⟩ := @writeTuple_edits _ _ _ pageID format inside 0 (zero_le _) row
  have whole : copyInto (page.slotView i).row 0 rowSize row = row := by
    have size := length_row format inside
    rw [← size, copyInto, slice, take_length, copy_eq (by rw [drop_zero, length, size])]
    simp
  rw [whole] at edits
  exact ⟨later, (page.copyTuple_eq _ row).trans written, edits⟩

variable (desc : RawTupleDesc)

theorem initializeHeapPage_zeros :
    ∃ frame, initializeHeapPage desc = some frame ∧ (asHeapPage frame).Formatted desc.bytesPerTuple ∧
      (asHeapPage frame).numUsed = 0 ∧ ∀ start stop, 16 ≤ start → ∀ byte ∈ slice frame.val start stop, byte = 0 := by
  have few := maxSlots_le desc.bytesPerTuple
  have small : desc.bytesPerTuple < 65536 := lt_of_le_of_lt desc.fits (by decide)
  have slotsSmall : maxSlots desc.bytesPerTuple < 65536 := lt_of_le_of_lt few (by decide)
  obtain ⟨first, sized⟩ : ∃ frame, zero.putUint16 8 desc.bytesPerTuple = some frame :=
    write_eq (by decide) (by decide) _
  obtain ⟨second, counted⟩ : ∃ frame, first.putUint16 10 (maxSlots desc.bytesPerTuple) = some frame :=
    write_eq (by decide) (by decide) _
  obtain ⟨frame, cleared⟩ : ∃ frame, second.putUint16 12 0 = some frame :=
    write_eq (by decide) (by decide) _
  have rows : frame.uint16 8 = desc.bytesPerTuple := by
    rw [uint16, slice_write_apart cleared (.inl (by decide)), slice_write_apart counted (.inl (by decide))]
    exact uint16_putUint16 small sized
  have slots : frame.uint16 10 = maxSlots desc.bytesPerTuple := by
    rw [uint16, slice_write_apart cleared (.inl (by decide))]
    exact uint16_putUint16 slotsSmall counted
  have format : (asHeapPage frame).Formatted desc.bytesPerTuple := by
    refine ⟨desc.fits, rows, slots, rfl, ?_, ?_⟩ <;> rw [← slots] <;> rfl
  refine ⟨frame, by simp [initializeHeapPage, sized, counted, cleared], format,
    uint16_putUint16 (by decide) cleared, fun start stop behind byte member => ?_⟩
  rw [slice_write_apart cleared (.inr (by omega)), slice_write_apart counted (.inr (by omega)),
    slice_write_apart sized (.inr (by omega))] at member
  exact eq_of_mem_replicate (mem_of_mem_take (mem_of_mem_drop member))

theorem bit_of_zeros {numBits : Nat} (zeros : ∀ byte ∈ slice frame.val start stop, byte = 0)
    (viewed : (do asBitmap (← frame.read start stop) numBits) = some bitmap) (i : Nat) : bitmap.bit i = false := by
  obtain ⟨data, read, viewed⟩ := bind_eq_some_iff.mp viewed
  rw [PageBytes.read] at read
  split at read
  · cases read
    exact bit_zeros zeros viewed i
  · cases read

theorem initializeHeapPage_eq :
    ∃ frame, initializeHeapPage desc = some frame ∧ (asHeapPage frame).Formatted desc.bytesPerTuple ∧
      ∀ i, ((asHeapPage frame).slotView i).allocated = false := by
  obtain ⟨frame, initialized, format, -, zeros⟩ := initializeHeapPage_zeros desc
  refine ⟨frame, initialized, format, fun i => ?_⟩
  obtain ⟨bitmap, viewed, -⟩ := format.allocMap
  simp only [slotView, viewed, map_some, getD_some]
  exact bit_of_zeros (zeros _ _ (le_refl _)) viewed i

theorem initializeHeapPage_slots :
    ∃ frame, initializeHeapPage desc = some frame ∧ (asHeapPage frame).Formatted desc.bytesPerTuple ∧
      (asHeapPage frame).numUsed = 0 ∧ ∀ i < maxSlots desc.bytesPerTuple,
        (asHeapPage frame).slotView i = ⟨false, false, replicate desc.bytesPerTuple 0⟩ := by
  obtain ⟨frame, initialized, format, used, zeros⟩ := initializeHeapPage_zeros desc
  refine ⟨frame, initialized, format, used, fun i inside => ?_⟩
  obtain ⟨allocMap, allocViewed, -⟩ := format.allocMap
  obtain ⟨deletedMap, deletedViewed, -⟩ := format.deletedMap
  have row : (asHeapPage frame).rowBytes i = replicate desc.bytesPerTuple 0 := by
    refine eq_replicate_iff.mpr ⟨length_row format inside, zeros _ _ ?_⟩
    rw [format.tuples]
    omega
  rw [slotView, row, allocViewed, deletedViewed]
  simp only [map_some, getD_some]
  rw [bit_of_zeros (zeros _ _ (Nat.le_refl _)) allocViewed, bit_of_zeros (zeros _ _ (Nat.le_add_right ..)) deletedViewed]

/-! What the operations do to the header. -/

structure Heads (page later : HeapPage) (used : Nat) : Prop where
  first : slice later.frame.val 0 12 = slice page.frame.val 0 12
  last : slice later.frame.val 14 16 = slice page.frame.val 14 16
  used : later.numUsed = used

theorem heads_write {later : HeapPage} (written : page.frame.write start stop source = some later.frame)
    (behind : 16 ≤ start) : Heads page later page.numUsed :=
  ⟨slice_write_apart written (.inl (by omega)), slice_write_apart written (.inl behind),
    congrArg decode (slice_write_apart written (.inl (by omega)))⟩

theorem Heads.trans {used more : Nat} (early : Heads page between used)
    (late : Heads between later more) : Heads page later more :=
  ⟨late.first.trans early.first, late.last.trans early.last, late.used⟩

theorem markDeleted_heads {rid : RecordID} {deleted : Bool} (format : page.Formatted rowSize)
    (marked : page.markDeleted rid deleted = some later) : Heads page later page.numUsed := by
  obtain ⟨bitmap, -, marked⟩ := bind_eq_some_iff.mp marked
  obtain ⟨changed, -, marked⟩ := bind_eq_some_iff.mp marked
  obtain ⟨frame, written, same⟩ := bind_eq_some_iff.mp marked
  cases same
  refine heads_write written ?_
  rw [format.deleted]
  omega

theorem writeTuple_heads {offset : Nat} {bytes : List Byte} (format : page.Formatted rowSize)
    (wrote : page.writeTuple ⟨pageID, i⟩ offset bytes = some later) : Heads page later page.numUsed := by
  rw [writeTuple, rowStart_eq] at wrote
  split at wrote
  · cases wrote
  obtain ⟨frame, written, same⟩ := bind_eq_some_iff.mp wrote
  cases same
  refine heads_write written ?_
  rw [Int.toNat_natCast, format.tuples]
  omega

def counted (used : Nat) (allocated wasAllocated : Bool) : Nat :=
  if allocated && !wasAllocated then used + 1 else if !allocated && wasAllocated then used - 1 else used

theorem heads_setNumUsed {used : Nat} (small : used < 65536) (set : page.setNumUsed used = some later) :
    Heads page later used := by
  obtain ⟨frame, written⟩ : ∃ frame, page.frame.putUint16 12 used = some frame :=
    write_eq (by omega) (by rw [pageSize]; omega) _
  rw [setNumUsed, written] at set
  cases set
  exact ⟨slice_write_apart written (.inl (by omega)), slice_write_apart written (.inr (by omega)),
    uint16_putUint16 small written⟩

theorem heads_countUsed {allocated wasAllocated : Bool} (room : page.numUsed + 1 < 65536)
    (consistent : wasAllocated = true → 0 < page.numUsed)
    (counts : page.countUsed allocated wasAllocated = some later) :
    Heads page later (counted page.numUsed allocated wasAllocated) := by
  rw [countUsed] at counts
  rw [counted]
  by_cases more : (allocated && !wasAllocated) = true
  · rw [if_pos more] at counts ⊢
    exact heads_setNumUsed room counts
  rw [if_neg more] at counts ⊢
  by_cases fewer : (!allocated && wasAllocated) = true
  · have positive := consistent (Bool.and_eq_true_iff.mp fewer).2
    have same : (page.numUsed : Int) - 1 = (page.numUsed - 1 : Nat) := by omega
    rw [if_pos fewer, same] at counts
    rw [if_pos fewer]
    exact heads_setNumUsed (by omega) counts
  · rw [if_neg fewer] at counts ⊢
    cases counts
    exact ⟨rfl, rfl, rfl⟩

theorem markAllocated_heads {allocated : Bool} (format : page.Formatted rowSize) (inside : i < maxSlots rowSize)
    (room : page.numUsed + 1 < 65536) (consistent : (page.slotView i).allocated = true → 0 < page.numUsed)
    (marked : page.markAllocated ⟨pageID, i⟩ allocated = some later) :
    Heads page later (counted page.numUsed allocated (page.slotView i).allocated) := by
  obtain ⟨bitmap, changed, frame, viewed, set, written, edits⟩ := setAlloc_edits format inside allocated
  simp only [markAllocated, viewed, set, written, bind_eq_bind, bind_some] at marked
  obtain ⟨between, counts, cleared⟩ := bind_eq_some_iff.mp marked
  have wrote : Heads page { page with frame := frame } page.numUsed := heads_write written format.alloc.ge
  obtain ⟨counted, count, kept⟩ := countUsed_edits edits.format allocated (page.slotView i).allocated i
  cases count.symm.trans counts
  have counts := heads_countUsed (wrote.used.symm ▸ room) (wrote.used.symm ▸ consistent) counts
  rw [wrote.used] at counts
  have clears := markDeleted_heads kept.format cleared
  rw [counts.used] at clears
  exact (wrote.trans counts).trans clears

end HeapPage
end GoDB.Storage
