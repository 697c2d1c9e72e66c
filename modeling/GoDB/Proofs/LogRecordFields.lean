import GoDB.Storage.LogRecord

/-! What the accessors of a log record return of what its constructor was given. Every
constructor leaves the fields one after the other, so each of them is read from one layout. -/

namespace GoDB.Common
open Lib LittleEndian RecordID

structure RecordID.InRange (rid : RecordID) : Prop where
  oid : rid.pageID.oid < 2 ^ 32
  pageNum : -2 ^ 31 ≤ rid.pageID.pageNum ∧ rid.pageID.pageNum < 2 ^ 31
  slot : -2 ^ 31 ≤ rid.slot ∧ rid.slot < 2 ^ 31

theorem RecordID.length_bytes (rid : RecordID) : rid.bytes.length = recordIDSize := by
  simp [bytes, recordIDSize]

theorem bmod_decode {n : Int} (low : -2 ^ 31 ≤ n) (high : n < 2 ^ 31) :
    Int.bmod (decode (encode 4 (n % 2 ^ 32).toNat)) (2 ^ 32) = n := by
  rw [decode_encode, Int.bmod_def]
  omega

theorem RecordID.ofBytes_bytes {rid : RecordID} (valid : rid.InRange) : ofBytes rid.bytes = rid := by
  obtain ⟨⟨oid, pageNum⟩, slot⟩ := rid
  have first : slice (bytes ⟨⟨oid, pageNum⟩, slot⟩) 0 4 = encode 4 oid := rfl
  have second : slice (bytes ⟨⟨oid, pageNum⟩, slot⟩) 4 8 = encode 4 (pageNum % 2 ^ 32).toNat := rfl
  have third : slice (bytes ⟨⟨oid, pageNum⟩, slot⟩) 8 12 = encode 4 (slot % 2 ^ 32).toNat := rfl
  have small : oid % 256 ^ 4 = oid := Nat.mod_eq_of_lt valid.oid
  rw [ofBytes, first, second, third, bmod_decode valid.pageNum.1 valid.pageNum.2,
    bmod_decode valid.slot.1 valid.slot.2, decode_encode, small]

end GoDB.Common

namespace GoDB.Storage.LogRecord
open Common Lib List LittleEndian LogRecordType Option Nat

def laid (head : List Byte) (type : LogRecordType) (txnID : TransactionID) (rid : RecordID) (images : List Byte) :
    LogRecord :=
  ⟨head ++ encode 2 type.code ++ encode 8 txnID ++ rid.bytes ++ images⟩

section Bytes
variable {r : LogRecord} {first middle last bytes : List Byte} {start stop : Nat}

theorem part_eq (data : r.data = first ++ middle ++ last) (starts : start = first.length)
    (stops : stop = start + middle.length) : r.part start stop = some middle := by
  subst starts stops
  rw [part, if_pos, data, slice_append]
  simp [data]

theorem put_eq (data : r.data = first ++ middle ++ last) (starts : start = first.length)
    (same : bytes.length = middle.length) : r.put start bytes = some ⟨first ++ bytes ++ last⟩ := by
  subst starts
  rw [put, same, if_pos, data, copyInto_append, copy_eq same]
  simp [data]

theorem copyAt_eq (data : r.data = first ++ middle) (starts : start = first.length) (fits : bytes.length ≤ middle.length) :
    r.copyAt start bytes = some ⟨first ++ (bytes ++ middle.drop bytes.length)⟩ := by
  have filled := copyInto_append first middle [] bytes
  rw [append_nil, append_nil, copy, take_of_length_le fits] at filled
  subst starts
  rw [copyAt, if_pos, data, length_append, filled]
  simp [data]

end Bytes

variable {buf head images : List Byte} {type : LogRecordType} {txnID : TransactionID} {rid : RecordID}

theorem exists_fields {size : Nat} (room : headerSize + 8 + recordIDSize + size ≤ buf.length) :
    ∃ head start txnBytes ridBytes rest, ofBuffer buf (headerSize + 8 + recordIDSize + size) = some start ∧
      start.putType type = some ⟨head ++ encode 2 type.code ++ (txnBytes ++ ridBytes ++ rest)⟩ ∧
      head.length = 6 ∧ txnBytes.length = 8 ∧ ridBytes.length = recordIDSize ∧ rest.length = size := by
  rw [headerSize, recordIDSize] at *
  have headLength : (slice buf 0 6).length = 6 := length_slice (by omega)
  have typeLength : (slice buf 6 8).length = 2 := length_slice (by omega)
  refine ⟨slice buf 0 6, ⟨buf.take (8 + 8 + 12 + size)⟩, slice buf 8 16, slice buf 16 28, slice buf 28 (28 + size),
    if_pos room, ?_, headLength, length_slice (by omega), length_slice (by omega), ?_⟩
  · have data : buf.take (8 + 8 + 12 + size) = slice buf 0 6 ++ slice buf 6 8 ++
        (slice buf 8 16 ++ slice buf 16 28 ++ slice buf 28 (28 + size)) := by
      rw [slice_append_slice _ (by omega) (by omega), slice_append_slice _ (by omega) (by omega),
        slice_append_slice _ (by omega) (by omega), slice_append_slice _ (by omega) (by omega)]
      rfl
    exact put_eq data headLength.symm (by simp [typeLength])
  · rw [length_slice (by omega)]
    omega

theorem newRowRecord_eq {size : Nat} (room : headerSize + 8 + recordIDSize + size ≤ buf.length) :
    ∃ head rest, head.length = 6 ∧ rest.length = size ∧
      newRowRecord type buf (headerSize + 8 + recordIDSize + size) txnID rid = some (laid head type txnID rid rest) := by
  obtain ⟨head, start, txnBytes, ridBytes, rest, made, typed, headLength, txnLength, ridLength, restLength⟩ :=
    @exists_fields buf type _ room
  refine ⟨head, rest, headLength, restLength, ?_⟩
  have txn : putTxnID ⟨head ++ encode 2 type.code ++ (txnBytes ++ ridBytes ++ rest)⟩ txnID =
      some ⟨head ++ encode 2 type.code ++ encode 8 txnID ++ (ridBytes ++ rest)⟩ :=
    @put_eq _ _ txnBytes _ _ _ (by simp) (by simp [headLength, offsetTxnID]) (by simp [txnLength])
  have place : put ⟨head ++ encode 2 type.code ++ encode 8 txnID ++ (ridBytes ++ rest)⟩
      offsetRID rid.bytes = some (laid head type txnID rid rest) :=
    @put_eq _ _ ridBytes _ _ _ (by simp) (by simp [headLength, offsetRID]) (by rw [rid.length_bytes, ridLength])
  simp only [newRowRecord, made, typed, txn, place, bind_eq_bind, bind_some]

section Accessors
variable {before after : List Byte} (length : head.length = 6)

include length

theorem recordType_laid : (laid head type txnID rid images).recordType = some type.code := by
  have read : (laid head type txnID rid images).part offsetType (offsetType + 2) = some (encode 2 type.code) :=
    @part_eq _ head _ (encode 8 txnID ++ rid.bytes ++ images) _ _ (by simp [laid]) length.symm (by simp)
  have small : type.code % 256 ^ 2 = type.code := by cases type <;> rfl
  rw [recordType, read, Option.map_eq_map, Option.map_some, decode_encode, small]

theorem txnID_laid (small : txnID < 2 ^ 64) : (laid head type txnID rid images).txnID = some txnID := by
  have read : (laid head type txnID rid images).part offsetTxnID (offsetTxnID + 8) = some (encode 8 txnID) :=
    @part_eq _ (head ++ encode 2 type.code) _ (rid.bytes ++ images) _ _ (by simp [laid])
      (by simp [length, offsetTxnID]) (by simp)
  have small : txnID % 256 ^ 8 = txnID := mod_eq_of_lt small
  rw [LogRecord.txnID, read, Option.map_eq_map, Option.map_some, decode_encode, small]

theorem length_front : (head ++ encode 2 type.code ++ encode 8 txnID ++ rid.bytes).length = offsetAfterImage := by
  simp [length, rid.length_bytes, recordIDSize, offsetAfterImage]

theorem length_laid : (laid head type txnID rid images).data.length = offsetAfterImage + images.length := by
  rw [laid, length_append, length_front length]

theorem rid_laid (valid : rid.InRange) (named : hasRID type.code = true) :
    (laid head type txnID rid images).rid = some rid := by
  have read : (laid head type txnID rid images).part offsetRID (offsetRID + recordIDSize) = some rid.bytes :=
    @part_eq _ (head ++ encode 2 type.code ++ encode 8 txnID) _ images _ _ (by simp [laid])
      (by simp [length, offsetRID]) (by rw [rid.length_bytes])
  rw [LogRecord.rid, recordType_laid length, bind_eq_bind, bind_some, if_pos named, read,
    Option.map_eq_map, Option.map_some, RecordID.ofBytes_bytes valid]

theorem images_laid {front back : List Byte} {start stop : Nat}
    (starts : start = offsetAfterImage + front.length) (stops : stop = start + images.length) :
    (laid head type txnID rid (front ++ images ++ back)).part start stop = some images := by
  refine @part_eq _ (head ++ encode 2 type.code ++ encode 8 txnID ++ rid.bytes ++ front) _ back
    _ _ (by simp [laid]) ?_ stops
  rw [starts, length_append, length_front length]

theorem half_laid (same : before.length = after.length) :
    ((laid head type txnID rid (after ++ before)).data.length - offsetAfterImage) / 2 = after.length := by
  rw [length_laid length, length_append]
  omega

theorem afterImage_laid (single : type = .logInsert ∨ type = .logUpdateCLR) :
    (laid head type txnID rid images).afterImage = some images := by
  have read := @images_laid head images type txnID rid length [] [] _ _ rfl rfl
  rw [nil_append, append_nil] at read
  rw [afterImage, recordType_laid length, length_laid length]
  rcases single with rfl | rfl
  all_goals exact read

theorem afterImage_laid_update (same : before.length = after.length) :
    (laid head .logUpdate txnID rid (after ++ before)).afterImage = some after := by
  rw [afterImage, recordType_laid length, half_laid length same]
  exact @images_laid head after .logUpdate txnID rid length [] before _ _ rfl rfl

theorem beforeImage_laid (same : before.length = after.length) :
    (laid head .logUpdate txnID rid (after ++ before)).beforeImage = some before := by
  have read := @images_laid head before .logUpdate txnID rid length after [] _ _ rfl rfl
  rw [append_nil] at read
  rw [beforeImage, recordType_laid length, half_laid length same, length_laid length, length_append, ← add_assoc]
  exact read

end Accessors

section Constructors

theorem copyAt_laid {front rest bytes : List Byte} (length : head.length = 6) (fits : bytes.length ≤ rest.length) :
    (laid head type txnID rid (front ++ rest)).copyAt (offsetAfterImage + front.length) bytes =
      some (laid head type txnID rid (front ++ (bytes ++ rest.drop bytes.length))) := by
  have copied := @copyAt_eq (laid head type txnID rid (front ++ rest))
    (head ++ encode 2 type.code ++ encode 8 txnID ++ rid.bytes ++ front) rest bytes
    (offsetAfterImage + front.length) (by simp [laid]) (by rw [length_append, length_front length]) fits
  rw [copied]
  simp [laid]

variable {row : RawTuple}

theorem newInsertRecord_eq (room : insertRecordSize row ≤ buf.length) :
    ∃ head, head.length = 6 ∧ newInsertRecord buf txnID rid row = some (laid head .logInsert txnID rid row) := by
  obtain ⟨head, rest, length, size, made⟩ := @newRowRecord_eq buf .logInsert txnID rid _ room
  have copied := @copyAt_laid head .logInsert txnID rid [] rest row length size.ge
  rw [← size, drop_length, append_nil] at copied
  refine ⟨head, length, ?_⟩
  rw [newInsertRecord, insertRecordSize, made]
  exact copied

theorem newDeleteRecord_eq (room : headerSize + 8 + recordIDSize ≤ buf.length) :
    ∃ head, head.length = 6 ∧ newDeleteRecord buf txnID rid = some (laid head .logDelete txnID rid []) := by
  obtain ⟨head, rest, length, size, made⟩ := @newRowRecord_eq buf .logDelete txnID rid 0 room
  cases length_eq_zero_iff.mp size
  exact ⟨head, length, made⟩

variable {before after : RawTuple}

theorem newUpdateRecord_eq (same : before.length = after.length)
    (room : headerSize + 8 + recordIDSize + before.length + after.length ≤ buf.length) :
    ∃ head, head.length = 6 ∧
      newUpdateRecord buf txnID rid before after = some (laid head .logUpdate txnID rid (after ++ before)) := by
  rw [add_assoc _ before.length] at room
  obtain ⟨head, rest, length, size, made⟩ := @newRowRecord_eq buf .logUpdate txnID rid _ room
  have gap : before.length = (rest.drop after.length).length := by
    rw [length_drop]
    omega
  have first := @copyAt_laid head .logUpdate txnID rid [] rest after length (by omega)
  have second := @copyAt_laid head .logUpdate txnID rid after (rest.drop after.length) before length gap.le
  rw [gap, drop_length, append_nil] at second
  refine ⟨head, length, ?_⟩
  simp only [nil_append, length_nil, add_zero] at first
  simp [newUpdateRecord, updateRecordSize, if_pos same, add_assoc _ before.length, made, first, second]

theorem part_laid (length : head.length = 6) : (laid head type txnID rid images).part offsetTxnID offsetAfterImage =
    some (encode 8 txnID ++ rid.bytes) :=
  @part_eq _ (head ++ encode 2 type.code) _ images _ _ (by simp [laid]) (by simp [length, offsetTxnID])
    (by simp [rid.length_bytes, recordIDSize, offsetTxnID, offsetAfterImage])

theorem takeOver_eq {size : Nat} (room : headerSize + 8 + recordIDSize + size ≤ buf.length) :
    ∃ head start typed rest, head.length = 6 ∧ rest.length = size ∧
      ofBuffer buf (headerSize + 8 + recordIDSize + size) = some start ∧ start.putType type = some typed ∧
      typed.copyAt offsetTxnID (encode 8 txnID ++ rid.bytes) = some (laid head type txnID rid rest) := by
  obtain ⟨head, start, txnBytes, ridBytes, rest, made, typed, headLength, txnLength, ridLength, restLength⟩ :=
    @exists_fields buf type _ room
  have size : (encode 8 txnID ++ rid.bytes).length = (txnBytes ++ ridBytes).length := by
    simp [txnLength, ridLength, rid.length_bytes]
  have copied := @copyAt_eq ⟨head ++ encode 2 type.code ++ (txnBytes ++ ridBytes ++ rest)⟩ _
    (txnBytes ++ ridBytes ++ rest) (encode 8 txnID ++ rid.bytes) offsetTxnID rfl
    (by simp [headLength, offsetTxnID]) (by rw [size]; exact (prefix_append ..).length_le)
  refine ⟨head, start, _, rest, headLength, restLength, made, typed, copied.trans ?_⟩
  rw [size, drop_left]
  simp [laid]

theorem newInsertCLR_eq (length : head.length = 6) (room : headerSize + 8 + recordIDSize ≤ buf.length) :
    ∃ front, front.length = 6 ∧
      newInsertCLR buf (laid head .logInsert txnID rid row) = some (laid front .logInsertCLR txnID rid []) := by
  obtain ⟨front, start, typed, rest, frontLength, size, made, typed', copied⟩ :=
    @takeOver_eq buf .logInsertCLR txnID rid 0 room
  cases length_eq_zero_iff.mp size
  rw [add_zero] at made
  refine ⟨front, frontLength, ?_⟩
  simp [newInsertCLR, made, typed', part_laid length, copied]

theorem newDeleteCLR_eq (length : head.length = 6) (room : headerSize + 8 + recordIDSize ≤ buf.length) :
    newDeleteCLR buf (laid head .logDelete txnID rid []) = some (laid head .logDeleteCLR txnID rid []) := by
  have made : ofBuffer buf (headerSize + 8 + recordIDSize) = some ⟨buf.take (headerSize + 8 + recordIDSize)⟩ := if_pos room
  have size : (laid head .logDelete txnID rid []).data.length = (buf.take (headerSize + 8 + recordIDSize)).length := by
    rw [length_laid length, length_take, min_eq_left room]
    rfl
  have copied := @copyAt_eq ⟨buf.take (headerSize + 8 + recordIDSize)⟩ [] _ (laid head .logDelete txnID rid []).data 0 rfl
    rfl size.le
  rw [size, drop_length, append_nil, nil_append] at copied
  have typed : (laid head .logDelete txnID rid []).putType .logDeleteCLR = some (laid head .logDeleteCLR txnID rid []) := by
    have put := @put_eq (laid head .logDelete txnID rid []) head (encode 2 logDelete.code)
      (encode 8 txnID ++ rid.bytes) (encode 2 logDeleteCLR.code) offsetType
      (by simp [laid]) length.symm (by simp)
    rw [putType, put]
    simp [laid]
  simp [newDeleteCLR, made, copied, typed]

theorem newUpdateCLR_eq (length : head.length = 6) (same : before.length = after.length)
    (room : headerSize + 8 + recordIDSize + before.length ≤ buf.length) :
    ∃ front, front.length = 6 ∧ newUpdateCLR buf (laid head .logUpdate txnID rid (after ++ before)) =
      some (laid front .logUpdateCLR txnID rid before) := by
  obtain ⟨front, start, typed, rest, frontLength, size, made, typed', copied⟩ :=
    @takeOver_eq buf .logUpdateCLR txnID rid before.length room
  have filled := @copyAt_laid front .logUpdateCLR txnID rid [] rest before frontLength size.ge
  rw [← size, drop_length, append_nil] at filled
  simp only [nil_append, length_nil, add_zero] at filled
  refine ⟨front, frontLength, ?_⟩
  simp [newUpdateCLR, updateCLRSize, beforeImage_laid length same, part_laid length, made, typed', copied, filled]

end Constructors

structure Reads (r : LogRecord) (type : LogRecordType) (txnID : TransactionID) (rid : RecordID) : Prop where
  recordType : r.recordType = some type.code
  txnID : r.txnID = some txnID
  rid : r.rid = some rid

theorem reads_laid (length : head.length = 6) (small : txnID < 2 ^ 64) (valid : rid.InRange)
    (named : hasRID type.code = true) : (laid head type txnID rid images).Reads type txnID rid :=
  ⟨recordType_laid length, txnID_laid length small, rid_laid length valid named⟩

structure Slot where
  bytes : RawTuple
  live : Bool

def Slot.row (slot : Slot) : Option RawTuple := if slot.live then some slot.bytes else none

def redo (r : LogRecord) (slot : Slot) : Option Slot := do
  let type ← r.recordType
  if type = logInsert.code ∨ type = logUpdate.code ∨ type = logUpdateCLR.code then
    return ⟨← r.afterImage, true⟩
  else if type = logDelete.code ∨ type = logInsertCLR.code then return { slot with live := false }
  else if type = logDeleteCLR.code then return { slot with live := true }
  else none

def Undoes (clr r : LogRecord) (slot : Slot) : Prop :=
  ∃ changed restored, r.redo slot = some changed ∧ clr.redo changed = some restored ∧ restored.row = slot.row

/-- Whatever the buffers held, a record gives back what it was made of, and its CLR undoes it. The
images of an update have the same length. -/
theorem records_read_back (small : txnID < 2 ^ 64) (valid : rid.InRange) (buf clrBuf : List Byte) :
    (∀ row, insertRecordSize row ≤ buf.length → headerSize + 8 + recordIDSize ≤ clrBuf.length →
      ∃ r clr, newInsertRecord buf txnID rid row = some r ∧ newInsertCLR clrBuf r = some clr ∧
        r.Reads .logInsert txnID rid ∧ r.afterImage = some row ∧ clr.Reads .logInsertCLR txnID rid ∧
        ∀ slot, slot.live = false → Undoes clr r slot) ∧
    (headerSize + 8 + recordIDSize ≤ buf.length → headerSize + 8 + recordIDSize ≤ clrBuf.length →
      ∃ r clr, newDeleteRecord buf txnID rid = some r ∧ newDeleteCLR clrBuf r = some clr ∧
        r.Reads .logDelete txnID rid ∧ clr.Reads .logDeleteCLR txnID rid ∧ ∀ slot, slot.live = true → Undoes clr r slot) ∧
    ∀ before after, before.length = after.length →
      headerSize + 8 + recordIDSize + before.length + after.length ≤ buf.length →
      headerSize + 8 + recordIDSize + before.length ≤ clrBuf.length →
      ∃ r clr, newUpdateRecord buf txnID rid before after = some r ∧ newUpdateCLR clrBuf r = some clr ∧
        r.Reads .logUpdate txnID rid ∧ r.afterImage = some after ∧ r.beforeImage = some before ∧
        clr.Reads .logUpdateCLR txnID rid ∧ clr.afterImage = some before ∧ Undoes clr r ⟨before, true⟩ := by
  refine ⟨fun row room room' => ?_, fun room room' => ?_, fun before after same room room' => ?_⟩
  · obtain ⟨head, length, made⟩ := @newInsertRecord_eq buf txnID rid row room
    obtain ⟨front, length', made'⟩ := @newInsertCLR_eq clrBuf head txnID rid row length room'
    have image := @afterImage_laid head row .logInsert txnID rid length (.inl rfl)
    refine ⟨_, _, made, made', reads_laid length small valid rfl, image, reads_laid length' small valid rfl,
      fun slot absent => ⟨⟨row, true⟩, ⟨row, false⟩, ?_, ?_, ?_⟩⟩
    · rw [redo, recordType_laid length, image]
      rfl
    · rw [redo, recordType_laid length']
      rfl
    · rw [Slot.row, Slot.row, absent]
      rfl
  · obtain ⟨head, length, made⟩ := @newDeleteRecord_eq buf txnID rid room
    have made' := @newDeleteCLR_eq clrBuf head txnID rid length room'
    refine ⟨_, _, made, made', reads_laid length small valid rfl, reads_laid length small valid rfl,
      fun slot present => ⟨⟨slot.bytes, false⟩, ⟨slot.bytes, true⟩, ?_, ?_, ?_⟩⟩
    · rw [redo, recordType_laid length]
      rfl
    · rw [redo, recordType_laid length]
      rfl
    · rw [Slot.row, Slot.row, present]
  · obtain ⟨head, length, made⟩ := @newUpdateRecord_eq buf txnID rid before after same room
    obtain ⟨front, length', made'⟩ := @newUpdateCLR_eq clrBuf head txnID rid before after length same room'
    have image := @afterImage_laid_update head txnID rid before after length same
    have image' := @afterImage_laid front before .logUpdateCLR txnID rid length' (.inr rfl)
    refine ⟨_, _, made, made', reads_laid length small valid rfl, image, beforeImage_laid length same,
      reads_laid length' small valid rfl, image', ⟨after, true⟩, ⟨before, true⟩, ?_, ?_, rfl⟩
    · rw [redo, recordType_laid length, image]
      rfl
    · rw [redo, recordType_laid length', image']
      rfl

theorem update_read_back : ∃ r clr, newUpdateRecord (replicate 40 9) 7 ⟨⟨3, 2⟩, -1⟩ [5] [6] = some r ∧
    newUpdateCLR (replicate 30 8) r = some clr ∧ r.afterImage = some [6] ∧ r.beforeImage = some [5] ∧
    clr.rid = some ⟨⟨3, 2⟩, -1⟩ ∧ clr.afterImage = some [5] ∧ Undoes clr r ⟨[5], true⟩ := by
  have valid : RecordID.InRange ⟨⟨3, 2⟩, -1⟩ := ⟨by decide, by decide, by decide⟩
  obtain ⟨-, -, updates⟩ := @records_read_back 7 ⟨⟨3, 2⟩, -1⟩ (by decide) valid (replicate 40 9) (replicate 30 8)
  obtain ⟨r, clr, made, made', -, after, before, reads, image, undoes⟩ := updates [5] [6] rfl (by decide) (by decide)
  exact ⟨r, clr, made, made', after, before, reads.rid, image, undoes⟩

/-- Images of different lengths are refused by an assertion, whatever the buffer. -/
theorem unequal_images_refused : newUpdateRecord (replicate 40 9) 7 ⟨⟨3, 2⟩, 1⟩ [5] [6, 6] = none := rfl

end GoDB.Storage.LogRecord
