import GoDB.Common.Identifiers
import GoDB.Lib.Splice
import GoDB.Storage.Tuple

/-! Log records as the bytes of a buffer that the caller provides. A constructor
writes the fields of its type and leaves the size and the checksum as they are in
the buffer. A result is missing where the source panics. -/

namespace GoDB.Common
open Lib

def recordIDSize : Nat := 12

/-- `WriteTo`: the object, the page and the slot in 32 bits each. -/
def RecordID.bytes (rid : RecordID) : List Byte :=
  LittleEndian.encode 4 rid.pageID.oid ++ LittleEndian.encode 4 (rid.pageID.pageNum % 2 ^ 32).toNat ++
    LittleEndian.encode 4 (rid.slot % 2 ^ 32).toNat

/-- `LoadFrom`: the page and the slot are signed. -/
def RecordID.ofBytes (data : List Byte) : RecordID :=
  ⟨⟨LittleEndian.decode (slice data 0 4), Int.bmod (LittleEndian.decode (slice data 4 8)) (2 ^ 32)⟩,
    Int.bmod (LittleEndian.decode (slice data 8 12)) (2 ^ 32)⟩

end GoDB.Common

namespace GoDB.Storage
open Common Lib

inductive LogRecordType where
  | invalidLogRecord
  | logBeginTransaction
  | logCommit
  | logAbort
  | logInsert
  | logUpdate
  | logDelete
  | logBeginCheckpoint
  | logEndCheckpoint
  | logInsertCLR
  | logUpdateCLR
  | logDeleteCLR
deriving DecidableEq

def LogRecordType.code (type : LogRecordType) : Nat := type.ctorIdx

structure LogRecord where
  data : List Byte
deriving DecidableEq

namespace LogRecord

def headerSize : Nat := 8

def offsetType : Nat := 6

def offsetTxnID : Nat := 8

def offsetRID : Nat := 16

def offsetAfterImage : Nat := 28

def offsetCheckpointData : Nat := 8

variable (r : LogRecord)

def isNil : Bool := r.data.isEmpty

def size : Nat := r.data.length

variable (buf : List Byte)

/-- `LogRecord{data: buf[:size]}`. The list is the whole capacity of the buffer. -/
def ofBuffer (size : Nat) : Option LogRecord :=
  if size ≤ buf.length then some ⟨buf.take size⟩ else none

/-- A number or a record id is written at the place; there must be room for it. -/
def put (start : Nat) (bytes : List Byte) : Option LogRecord :=
  if start + bytes.length ≤ r.data.length then some ⟨copyInto r.data start (start + bytes.length) bytes⟩ else none

/-- `copy(r.data[start:], bytes)`. -/
def copyAt (start : Nat) (bytes : List Byte) : Option LogRecord :=
  if start ≤ r.data.length then some ⟨copyInto r.data start r.data.length bytes⟩ else none

def putType (type : LogRecordType) : Option LogRecord :=
  r.put offsetType (LittleEndian.encode 2 type.code)

def putTxnID (txnID : TransactionID) : Option LogRecord :=
  r.put offsetTxnID (LittleEndian.encode 8 txnID)

/-- `data[start:stop]`, within the record. -/
def part (start stop : Nat) : Option (List Byte) :=
  if start ≤ stop ∧ stop ≤ r.data.length then some (slice r.data start stop) else none

def recordType : Option Nat := LittleEndian.decode <$> r.part offsetType (offsetType + 2)

def txnID : Option TransactionID := LittleEndian.decode <$> r.part offsetTxnID (offsetTxnID + 8)

def hasRID (type : Nat) : Bool :=
  type ∈ [LogRecordType.logInsertCLR.code, LogRecordType.logDeleteCLR.code, LogRecordType.logDelete.code,
    LogRecordType.logUpdate.code, LogRecordType.logUpdateCLR.code, LogRecordType.logInsert.code]

def rid : Option RecordID := do
  if hasRID (← r.recordType) then RecordID.ofBytes <$> r.part offsetRID (offsetRID + recordIDSize) else none

def beforeImage : Option RawTuple := do
  if (← r.recordType) = LogRecordType.logUpdate.code then
    r.part (offsetAfterImage + (r.data.length - offsetAfterImage) / 2) r.data.length
  else none

def afterImage : Option RawTuple := do
  let t ← r.recordType
  if t = LogRecordType.logUpdate.code then
    r.part offsetAfterImage (offsetAfterImage + (r.data.length - offsetAfterImage) / 2)
  else if t = LogRecordType.logUpdateCLR.code ∨ t = LogRecordType.logInsert.code then
    r.part offsetAfterImage r.data.length
  else none

/-- The transaction records differ in their type only. -/
def newTxnRecord (type : LogRecordType) (buf : List Byte) (txnID : TransactionID) : Option LogRecord := do
  (← (← ofBuffer buf (headerSize + 8)).putType type).putTxnID txnID

def newBeginTransactionRecord (txnID : TransactionID) : Option LogRecord :=
  newTxnRecord .logBeginTransaction buf txnID

def newCommitRecord (txnID : TransactionID) : Option LogRecord := newTxnRecord .logCommit buf txnID

def newAbortRecord (txnID : TransactionID) : Option LogRecord := newTxnRecord .logAbort buf txnID

/-- The records of a change to a row: the images follow the record id. -/
def newRowRecord (type : LogRecordType) (buf : List Byte) (size : Nat) (txnID : TransactionID) (rid : RecordID) :
    Option LogRecord := do
  (← (← (← ofBuffer buf size).putType type).putTxnID txnID).put offsetRID rid.bytes

def insertRecordSize (row : RawTuple) : Nat := headerSize + 8 + recordIDSize + row.length

def newInsertRecord (txnID : TransactionID) (rid : RecordID) (row : RawTuple) : Option LogRecord := do
  (← newRowRecord .logInsert buf (insertRecordSize row) txnID rid).copyAt offsetAfterImage row

def newInsertCLR (insertRecord : LogRecord) : Option LogRecord := do
  (← (← ofBuffer buf (headerSize + 8 + recordIDSize)).putType .logInsertCLR).copyAt offsetTxnID
    (← insertRecord.part offsetTxnID offsetAfterImage)

def newDeleteRecord (txnID : TransactionID) (rid : RecordID) : Option LogRecord :=
  newRowRecord .logDelete buf (headerSize + 8 + recordIDSize) txnID rid

def newDeleteCLR (deleteRecord : LogRecord) : Option LogRecord := do
  (← (← ofBuffer buf (headerSize + 8 + recordIDSize)).copyAt 0 deleteRecord.data).putType .logDeleteCLR

/-- The images must have the same length. -/
def updateRecordSize (before after : RawTuple) : Option Nat :=
  if before.length = after.length then some (headerSize + 8 + recordIDSize + before.length + after.length) else none

def newUpdateRecord (txnID : TransactionID) (rid : RecordID) (before after : RawTuple) :
    Option LogRecord := do
  let r ← newRowRecord .logUpdate buf (← updateRecordSize before after) txnID rid
  (← r.copyAt offsetAfterImage after).copyAt (offsetAfterImage + after.length) before

def updateCLRSize (updateRecord : LogRecord) : Option Nat := do
  return headerSize + 8 + recordIDSize + (← updateRecord.beforeImage).length

def newUpdateCLR (updateRecord : LogRecord) : Option LogRecord := do
  let beforeImage ← updateRecord.beforeImage
  let r ← (← ofBuffer buf (← updateCLRSize updateRecord)).putType .logUpdateCLR
  (← r.copyAt offsetTxnID (← updateRecord.part offsetTxnID offsetAfterImage)).copyAt offsetAfterImage beforeImage

def newBeginCheckpointRecord : Option LogRecord := do
  (← ofBuffer buf headerSize).putType .logBeginCheckpoint

def newEndCheckpointRecord (payloadSize : Nat) : Option LogRecord := do
  (← ofBuffer buf (headerSize + payloadSize)).putType .logEndCheckpoint

/-- `CheckpointData`, which the caller fills in. -/
def fillCheckpointData (payload : List Byte) : Option LogRecord := r.copyAt offsetCheckpointData payload

/-- The bytes go to the start of the buffer, the size over the first two of them. -/
def writeToLog (buffer : List Byte) : Option (List Byte) :=
  if r.size ≤ buffer.length ∧ 2 ≤ buffer.length then
    some (copyInto (copy buffer r.data) 0 2 (LittleEndian.encode 2 r.size))
  else none

end LogRecord
end GoDB.Storage
