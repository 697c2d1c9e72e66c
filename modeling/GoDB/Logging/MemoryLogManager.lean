import GoDB.Lib.Cursor
import GoDB.Storage.LogRecord

/-! A log in memory: the records one after the other in a growing buffer. -/

namespace GoDB.Logging
open Common Lib Storage

/-- `cap` is the capacity of the buffer, whose bytes beyond the length are zero. A
countdown below zero is disabled; an error is its text. -/
structure MemoryLogManager where
  buffer : List Byte
  cap : Nat
  offsets : List Nat
  flushedUntil : Int
  flushOnAppend : Bool
  appendCountdown : Int
  appendCountdownErr : Option String

def newMemoryLogManager : MemoryLogManager := ⟨[], 4096, [], 0, false, -1, none⟩

namespace MemoryLogManager
variable (m : MemoryLogManager)

/-- The place that is returned is the number of the record in the log. -/
def append (record : LogRecord) : Option ((Nat × Option String) × MemoryLogManager) :=
  if m.appendCountdown = 0 then some ((0, m.appendCountdownErr), m)
  else do
    let countdown := if 0 ≤ m.appendCountdown then m.appendCountdown - 1 else m.appendCountdown
    let lsn := m.buffer.length
    let cap := if m.cap - lsn < record.size then max (lsn + record.size) (2 * m.cap) else m.cap
    let written ← record.writeToLog (List.replicate record.size 0)
    return ((lsn, none), { m with
        buffer := m.buffer ++ written
        cap
        offsets := m.offsets ++ [lsn]
        flushedUntil := if m.flushOnAppend then lsn else m.flushedUntil
        appendCountdown := countdown })

/-- The record whose length stands at the place. A slice may reach beyond the length
of the buffer, up to its capacity. -/
def recordAt (offset : Nat) : Option LogRecord :=
  let buf := m.buffer.drop offset
  let recordLen := LittleEndian.decode (buf.take 2)
  if 2 ≤ buf.length ∧ recordLen ≤ m.cap - offset then
    some ⟨(buf ++ List.replicate (m.cap - m.buffer.length) 0).take recordLen⟩
  else none

def getRecord (i : Nat) : Option LogRecord := do m.recordAt (← m.offsets[i]?)

end MemoryLogManager

/-- The record is nil until the first call of `Next`. -/
structure MemoryLogIterator where
  currOffset : Nat
  current : LogRecord

namespace MemoryLogManager

def iterator (_ : MemoryLogManager) (startLSN : Nat) : MemoryLogIterator := ⟨startLSN, ⟨[]⟩⟩

variable (m : MemoryLogManager)

def next (it : MemoryLogIterator) : Option (Bool × MemoryLogIterator) :=
  let currOffset := if it.current.isNil then it.currOffset else it.currOffset + it.current.size
  if m.buffer.length ≤ currOffset then some (false, { it with currOffset })
  else do return (true, ⟨currOffset, ← m.recordAt currOffset⟩)

/-- `CurrentLSN` and `CurrentRecord` together; there are no errors. -/
def walk : Cursor MemoryLogIterator (Nat × LogRecord) Empty where
  init _ := some (none, m.iterator 0)
  next it := m.next it
  current it := some (it.currOffset, it.current)
  error _ := none

def appendAll (m : MemoryLogManager) : List LogRecord → Option (List (Nat × Option String) × MemoryLogManager)
  | [] => some ([], m)
  | record :: rest => do
    let (lsn, m) ← m.append record
    let (lsns, m) ← m.appendAll rest
    return (lsn :: lsns, m)

end MemoryLogManager
end GoDB.Logging
