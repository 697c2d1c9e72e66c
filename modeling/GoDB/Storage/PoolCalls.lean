import GoDB.Storage.BufferPool

/-! The calls of the buffer pool made one after the other, while the storage manager may fail at
any point of them. -/

namespace GoDB.Storage
open Common Function

/-- What goes wrong in a call of `GetPage`: getting the file of the old or of the new page, writing
the old page, which may leave other bytes on disk, or reading the new one, which may leave other
bytes in the frame. -/
structure GetFaults where
  oldFile : Bool
  oldWrite : Option PageBytes
  newFile : Bool
  newRead : Option PageBytes

def GetFaults.none : GetFaults := ⟨false, .none, false, .none⟩

structure FlushFaults where
  file : Bool
  write : Option PageBytes

def FlushFaults.none : FlushFaults := ⟨false, .none⟩

/-- `waits` stands for a call that goes round its loop without end while nobody else runs. -/
inductive GetResult (n : Nat) where
  | returned (frame : Fin n)
  | failed
  | waits
deriving DecidableEq

namespace BufferPool
variable {τ : Type} {n : Nat} (pool : BufferPool τ n)

def setFrame (frame : Fin n) (change : PageFrame τ → PageFrame τ) : BufferPool τ n :=
  { pool with frames := Function.update pool.frames frame (change (pool.frames frame)) }

def store (pageID : PageID) (entry : Option (Fin n)) : BufferPool τ n :=
  { pool with pageTable := Function.update pool.pageTable pageID entry }

def setDisk (pageID : PageID) (bytes : PageBytes) : BufferPool τ n :=
  { pool with disk := Function.update pool.disk pageID bytes }

def advanceHand : BufferPool τ n := { pool with clockHand := (pool.clockHand + 1) % n }

section Updates
variable (pool : BufferPool τ n) (frame : Fin n) (change : PageFrame τ → PageFrame τ)

@[simp] theorem frames_setFrame_self : (pool.setFrame frame change).frames frame = change (pool.frames frame) :=
  update_self ..

theorem frames_setFrame_of_ne {other : Fin n} (apart : other ≠ frame) :
    (pool.setFrame frame change).frames other = pool.frames other := update_of_ne apart ..

@[simp] theorem pageTable_setFrame : (pool.setFrame frame change).pageTable = pool.pageTable := rfl

@[simp] theorem disk_setFrame : (pool.setFrame frame change).disk = pool.disk := rfl

variable (pageID : PageID) (entry : Option (Fin n)) (bytes : PageBytes)

@[simp] theorem frames_store : (pool.store pageID entry).frames = pool.frames := rfl

@[simp] theorem pageTable_store_self : (pool.store pageID entry).pageTable pageID = entry := update_self ..

variable {other : PageID}

theorem pageTable_store_of_ne (apart : other ≠ pageID) :
    (pool.store pageID entry).pageTable other = pool.pageTable other := update_of_ne apart ..

@[simp] theorem disk_store : (pool.store pageID entry).disk = pool.disk := rfl

@[simp] theorem frames_setDisk : (pool.setDisk pageID bytes).frames = pool.frames := rfl

@[simp] theorem pageTable_setDisk : (pool.setDisk pageID bytes).pageTable = pool.pageTable := rfl

@[simp] theorem disk_setDisk_self : (pool.setDisk pageID bytes).disk pageID = bytes := update_self ..

theorem disk_setDisk_of_ne (apart : other ≠ pageID) :
    (pool.setDisk pageID bytes).disk other = pool.disk other := update_of_ne apart ..

@[simp] theorem frames_advanceHand : pool.advanceHand.frames = pool.frames := rfl

@[simp] theorem pageTable_advanceHand : pool.advanceHand.pageTable = pool.pageTable := rfl

@[simp] theorem disk_advanceHand : pool.advanceHand.disk = pool.disk := rfl

end Updates

/-- `frames[clockHand]`; the hand never leaves the frames. -/
def frameAtHand (some : 0 < n) : Fin n := ⟨pool.clockHand % n, Nat.mod_lt _ some⟩

/-- What is left of a pass over the frames. The latch of a frame that is passed over is released
again, the latch of the victim is kept. -/
def scan (thread : τ) (pass : Nat) : Nat → BufferPool τ n → Option (Fin n) × BufferPool τ n
  | 0, pool => (none, pool)
  | left + 1, pool =>
    if some' : 0 < n then
      let frame := pool.frameAtHand some'
      if (pool.frames frame).pinCount = 0 then
        if (pool.frames frame).aged n pass = 0 then
          (some frame, pool.setFrame frame fun visited => { visited with refCount := 0, metaLatch := some thread })
        else
          (pool.setFrame frame fun visited => { visited with refCount := visited.aged n pass }).advanceHand.scan
            thread pass left
      else pool.advanceHand.scan thread pass left
    else (none, pool)

def search (thread : τ) (pass : Nat) : Nat → BufferPool τ n → Option (Fin n) × BufferPool τ n
  | 0, pool => (none, pool)
  | left + 1, pool =>
    match pool.scan thread pass n with
    | (some victim, pool) => (some victim, pool)
    | (none, pool) => pool.search thread (pass + 1) left

def findVictim (thread : τ) : Option (Fin n) × BufferPool τ n :=
  pool.search thread 0 (passesAllowed n)

/-- `metaLatch.Lock()`, which waits while the latch is held. -/
def lockFrame (thread : τ) (frame : Fin n) : Option (BufferPool τ n) :=
  if (pool.frames frame).metaLatch.isNone then
    some (pool.setFrame frame fun taken => { taken with metaLatch := some thread })
  else none

def unlockFrame (frame : Fin n) : BufferPool τ n :=
  pool.setFrame frame fun taken => { taken with metaLatch := none }

/-- `scan` with each latch taken and released where the code does it; there is no result when a
latch is held or the hand is outside the frames. -/
def latchedScan (thread : τ) (pass : Nat) : Nat → BufferPool τ n → Option (Option (Fin n) × BufferPool τ n)
  | 0, pool => some (none, pool)
  | left + 1, pool =>
    if inside : pool.clockHand < n then
      let frame : Fin n := ⟨pool.clockHand, inside⟩
      if (pool.frames frame).pinCount = 0 then
        (pool.lockFrame thread frame).bind fun locked =>
          if (locked.frames frame).pinCount = 0 then
            let visited := locked.setFrame frame fun visited => { visited with refCount := visited.aged n pass }
            if (visited.frames frame).refCount = 0 then some (some frame, visited)
            else (visited.unlockFrame frame).advanceHand.latchedScan thread pass left
          else (locked.unlockFrame frame).advanceHand.latchedScan thread pass left
      else pool.advanceHand.latchedScan thread pass left
    else none

def latchedSearch (thread : τ) (pass : Nat) : Nat → BufferPool τ n → Option (Option (Fin n) × BufferPool τ n)
  | 0, pool => some (none, pool)
  | left + 1, pool => (pool.latchedScan thread pass n).bind fun
    | (some victim, pool) => some (some victim, pool)
    | (none, pool) => pool.latchedSearch thread (pass + 1) left

variable (pages : PageID → Bool)

/-- `WritePage` on a file that has these pages. -/
def writePage (pool : BufferPool τ n) (pageID : PageID) (bytes : PageBytes)
    (fault : Option PageBytes) : Bool × BufferPool τ n :=
  if pages pageID then
    match fault with
    | none => (true, pool.setDisk pageID bytes)
    | some torn => (false, pool.setDisk pageID torn)
  else (false, pool)

/-- `ReadPage` into a frame. -/
def readPage (pool : BufferPool τ n) (pageID : PageID) (frame : Fin n) (fault : Option PageBytes) : Bool × BufferPool τ n :=
  if pages pageID then
    match fault with
    | none => (true, pool.setFrame frame fun taken => { taken with bytes := pool.disk pageID })
    | some torn => (false, pool.setFrame frame fun taken => { taken with bytes := torn })
  else (false, pool)

/-- An error gives the victim up. -/
def abandon (victim : Fin n) : BufferPool τ n :=
  pool.setFrame victim fun taken => { taken with pinCount := 0, pageID := ⟨0, 0⟩, metaLatch := none }

/-- The old page of the victim is written if it is dirty. -/
def saveOld (pool : BufferPool τ n) (victim : Fin n) (oldPageID : PageID) (faults : GetFaults) : Bool × BufferPool τ n :=
  if (pool.frames victim).isDirty then
    if faults.oldFile then (false, pool)
    else
      match pool.writePage pages oldPageID (pool.frames victim).bytes faults.oldWrite with
      | (true, pool) => (true, pool.setFrame victim fun taken => { taken with isDirty := false })
      | (false, pool) => (false, pool)
  else (true, pool)

def readNew (pool : BufferPool τ n) (victim : Fin n) (pageID : PageID) (faults : GetFaults) : Bool × BufferPool τ n :=
  if faults.newFile then (false, pool) else pool.readPage pages pageID victim faults.newRead

/-- The victim is given its new name before its old page is saved. -/
def assign (victim : Fin n) (pageID : PageID) : BufferPool τ n :=
  ((pool.setFrame victim fun taken => { taken with pinCount := 1, pageID }).store pageID (some victim)).advanceHand

/-- The new page comes into the frame once the old one is saved. -/
def load (pool : BufferPool τ n) (victim : Fin n) (pageID oldPageID : PageID) (faults : GetFaults) :
    GetResult n × BufferPool τ n :=
  let pool := (pool.store oldPageID none).setFrame victim fun taken => { taken with refCount := 1 }
  match pool.readNew pages victim pageID faults with
  | (false, pool) => (.failed, (pool.store pageID none).abandon victim)
  | (true, pool) => (.returned victim, pool.setFrame victim fun taken => { taken with metaLatch := none })

def replace (pool : BufferPool τ n) (victim : Fin n) (pageID : PageID) (faults : GetFaults) :
    GetResult n × BufferPool τ n :=
  let oldPageID := (pool.frames victim).pageID
  match (pool.assign victim pageID).saveOld pages victim oldPageID faults with
  | (false, pool) => (.failed, ((pool.store pageID none).store oldPageID none).abandon victim)
  | (true, pool) => pool.load pages victim pageID oldPageID faults

def getPage (thread : τ) (pool : BufferPool τ n) (pageID : PageID) (faults : GetFaults) : GetResult n × BufferPool τ n :=
  match pool.pageTable pageID with
  | some frame =>
    if (pool.frames frame).pageID = pageID then (.returned frame, pool.setFrame frame .pin) else (.waits, pool)
  | none =>
    match pool.findVictim thread with
    | (some victim, pool) => pool.replace pages victim pageID faults
    | (none, pool) => (.waits, pool)

def content (pageID : PageID) : PageBytes :=
  match pool.pageTable pageID with
  | some frame => (pool.frames frame).bytes
  | none => pool.disk pageID

def unpinPage (frame : Fin n) (setDirty : Bool) : BufferPool τ n :=
  pool.setFrame frame (.unpin setDirty)

def flushFrame (pool : BufferPool τ n) (frame : Fin n) (faults : FlushFaults) : Bool × BufferPool τ n :=
  if (pool.frames frame).isDirty then
    if faults.file then (false, pool)
    else
      match pool.writePage pages (pool.frames frame).pageID (pool.frames frame).bytes faults.write with
      | (true, pool) => (true, pool.setFrame frame fun flushed => { flushed with isDirty := false })
      | (false, pool) => (false, pool)
  else (true, pool)

/-- The first frame that cannot be written ends the loop. -/
def flushFrames (pages : PageID → Bool) (faults : Fin n → FlushFaults) :
    List (Fin n) → BufferPool τ n → Bool × BufferPool τ n
  | [], pool => (true, pool)
  | frame :: rest, pool =>
    match pool.flushFrame pages frame (faults frame) with
    | (true, pool) => pool.flushFrames pages faults rest
    | (false, pool) => (false, pool)

def flushAllPages (pool : BufferPool τ n) (faults : Fin n → FlushFaults) : Bool × BufferPool τ n :=
  pool.flushFrames pages faults (List.finRange n)

end BufferPool

/-- What the callers do, one call after the other. Between the calls they write to the bytes of
the frames they were given. -/
inductive PoolCall (n : Nat) where
  | getPage (pageID : PageID) (faults : GetFaults)
  | unpinPage (frame : Fin n) (setDirty : Bool)
  | flushAllPages (faults : Fin n → FlushFaults)
  | modify (frame : Fin n) (bytes : PageBytes)

namespace BufferPool
variable {τ : Type} {n : Nat}

def run (pages : PageID → Bool) (thread : τ) (pool : BufferPool τ n) : PoolCall n → BufferPool τ n
  | .getPage pageID faults => (pool.getPage pages thread pageID faults).2
  | .unpinPage frame setDirty => pool.unpinPage frame setDirty
  | .flushAllPages faults => (pool.flushAllPages pages faults).2
  | .modify frame bytes => pool.setFrame frame fun pinned => { pinned with bytes }

def Called (pages : PageID → Bool) (thread : τ) (before : BufferPool τ n) (call : PoolCall n) (after : BufferPool τ n) :
    Prop := before.run pages thread call = after

end BufferPool
end GoDB.Storage
