import GoDB.Lib.GoSlice
import GoDB.Storage.LogRecord

/-! The stack of log records that a transaction keeps for its undo, in one slice. -/

namespace GoDB.Transaction
open Lib Storage

structure LogRecordBuffer where
  buffer : GoSlice
  offsets : List Nat

namespace LogRecordBuffer
variable (s : LogRecordBuffer) (memory : List (List Byte))

def newLogRecordBuffer : LogRecordBuffer × List (List Byte) :=
  (⟨⟨memory.length, 0, 0⟩, []⟩, memory ++ [List.replicate 1024 0])

/-- `spare` is what a new array has behind the buffer. -/
def allocate (totalSize : Nat) (spare : List Byte) : Option (GoSlice × LogRecordBuffer × List (List Byte)) := do
  let offset := s.buffer.len
  let (buffer, memory) := s.buffer.append memory (List.replicate totalSize 0) spare
  return (← buffer.sub memory offset buffer.len, ⟨buffer, s.offsets ++ [offset]⟩, memory)

def len : Nat := s.offsets.length

def get (i : Nat) : Option LogRecord := do
  let start ← s.offsets[i]?
  let stop := (s.offsets[i + 1]?).getD s.buffer.len
  return ⟨(← s.buffer.sub memory start stop).read memory⟩

def pop : Option LogRecordBuffer :=
  match s.offsets.getLast? with
  | none => some s
  | some offset => do return ⟨← s.buffer.sub memory 0 offset, s.offsets.dropLast⟩

def reset : Option LogRecordBuffer := do
  return ⟨← s.buffer.sub memory 0 0, []⟩

/-- A call that changes the stack; what is allocated is written to before the next call. -/
inductive Call where
  | allocate (totalSize : Nat) (spare : List Byte) (writes : List (Nat × Byte))
  | pop
  | reset

def fill (record : GoSlice) (memory : List (List Byte)) (writes : List (Nat × Byte)) : List (List Byte) :=
  writes.foldl (fun memory write => record.set memory write.1 write.2) memory

def call : LogRecordBuffer × List (List Byte) → Call → Option (LogRecordBuffer × List (List Byte))
  | (s, memory), .allocate totalSize spare writes => do
    let (record, later, memory) ← s.allocate memory totalSize spare
    return (later, fill record memory writes)
  | (s, memory), .pop => do return (← s.pop memory, memory)
  | (s, memory), .reset => do return (← s.reset memory, memory)

/-- What the buffer is for: a stack of records. -/
def pushed (stack : List (List Byte)) : Call → List (List Byte)
  | .allocate totalSize _ writes =>
    stack ++ [writes.foldl (fun record write => record.set write.1 write.2) (List.replicate totalSize 0)]
  | .pop => stack.dropLast
  | .reset => []

end LogRecordBuffer
end GoDB.Transaction
