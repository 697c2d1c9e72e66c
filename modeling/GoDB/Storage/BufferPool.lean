import GoDB.Common.Identifiers
import GoDB.Storage.Page

/-! The buffer pool under any interleaving of its callers. A step is one section
under a latch or one access to the concurrent page table; a latch that a call
keeps beyond its section is part of the state. -/

namespace GoDB.Storage
open Common

def maxRefCount : Nat := 2

/-- `τ` names the threads that can hold a latch. -/
structure PageFrame (τ : Type) where
  bytes : PageBytes
  pageID : PageID
  pinCount : Nat
  isDirty : Bool
  refCount : Nat
  metaLatch : Option τ

namespace PageFrame
variable {τ : Type}

def new : PageFrame τ := ⟨.zero, ⟨0, 0⟩, 0, false, 0, none⟩

def pin (frame : PageFrame τ) : PageFrame τ :=
  { frame with
    pinCount := frame.pinCount + 1
    refCount := if frame.refCount < maxRefCount then frame.refCount + 1 else frame.refCount }

def unpin (setDirty : Bool) (frame : PageFrame τ) : PageFrame τ :=
  { frame with
    pinCount := if frame.pinCount ≠ 0 then frame.pinCount - 1 else frame.pinCount
    isDirty := if setDirty then true else frame.isDirty }

def aged (poolSize pass : Nat) (frame : PageFrame τ) : Nat :=
  if frame.refCount = 0 then 0
  else if pass = 0 ∧ poolSize ≤ 1000 then frame.refCount - 1
  else 0

end PageFrame

def passesAllowed (poolSize : Nat) : Nat := if poolSize > 1000 then 1 else 2

/-- Where a call stands between two of its sections. -/
inductive Section (n : Nat) where
  | idle
  /-- Before the first load from the page table, without a latch. -/
  | lookup (pageID : PageID)
  /-- The page table gave this frame; its latch is to be taken. -/
  | pinning (pageID : PageID) (frame : Fin n)
  | wantPool (pageID : PageID)
  /-- Under the pool latch, before the second load. -/
  | recheck (pageID : PageID)
  | scanning (pageID : PageID) (pass i : Nat)
  /-- The frame looked unpinned; its latch is to be taken under the pool latch. -/
  | inspecting (pageID : PageID) (pass i : Nat) (frame : Fin n)
  /-- A victim was found. From here to the return its latch is held. -/
  | assigning (pageID : PageID) (victim : Fin n)
  | writingBack (pageID : PageID) (victim : Fin n) (oldPageID : PageID)
  | droppingOld (pageID : PageID) (victim : Fin n) (oldPageID : PageID)
  | reading (pageID : PageID) (victim : Fin n)
  | flushing (i : Nat)

/-- Two pages of one file, for samples. -/
def firstPage : PageID := ⟨1, 0⟩

def secondPage : PageID := ⟨1, 1⟩

structure Pin (n : Nat) where
  page : PageID
  frame : Fin n
  modified : Bool

structure BufferPool (τ : Type) (n : Nat) where
  frames : Fin n → PageFrame τ
  pageTable : PageID → Option (Fin n)
  clockHand : Nat
  poolLatch : Option τ
  disk : PageID → PageBytes

/-- The pool with the calls in progress, the pins handed out and, for each page,
the bytes last written to it. -/
structure PoolSystem (τ : Type) (n : Nat) extends BufferPool τ n where
  threads : τ → Section n
  pins : List (Pin n)
  written : PageID → PageBytes

def newBufferPool (τ : Type) (n : Nat) (disk : PageID → PageBytes) : BufferPool τ n where
  frames _ := .new
  pageTable _ := none
  clockHand := 0
  poolLatch := none
  disk := disk

inductive PoolEvent (τ : Type) (n : Nat) where
  | called (thread : τ) (pageID : PageID)
  | worked (thread : τ)
  | returned (thread : τ) (pageID : PageID) (frame : Fin n) (bytes : PageBytes)
  | failed (thread : τ)
  | modified (index : Nat) (bytes : PageBytes)
  | unpinned (index : Nat) (setDirty : Bool)

namespace PoolSystem
variable {τ : Type} [DecidableEq τ] {n : Nat}

def start (τ : Type) (n : Nat) (disk : PageID → PageBytes) : PoolSystem τ n where
  toBufferPool := newBufferPool τ n disk
  threads _ := .idle
  pins := []
  written := disk

variable (system : PoolSystem τ n)

def goto (thread : τ) (section' : Section n) : PoolSystem τ n :=
  { system with threads := Function.update system.threads thread section' }

def setFrame (frame : Fin n) (change : PageFrame τ → PageFrame τ) : PoolSystem τ n :=
  { system with frames := Function.update system.frames frame (change (system.frames frame)) }

variable (pageID : PageID)

def store (entry : Option (Fin n)) : PoolSystem τ n :=
  { system with pageTable := Function.update system.pageTable pageID entry }

def writePage (bytes : PageBytes) : PoolSystem τ n :=
  { system with disk := Function.update system.disk pageID bytes }

def setPoolLatch (holder : Option τ) : PoolSystem τ n := { system with poolLatch := holder }

def advanceHand : PoolSystem τ n :=
  { system with clockHand := (system.clockHand + 1) % n }

/-- `frames[clockHand]`; the hand never leaves the frames. -/
def frameAtHand (i : Nat) (left : i < n) : Fin n :=
  ⟨system.clockHand % n, Nat.mod_lt _ (Nat.zero_lt_of_lt left)⟩

def addPin (frame : Fin n) : PoolSystem τ n :=
  { system with pins := system.pins ++ [⟨pageID, frame, false⟩] }

/-- `flushFrame` when nothing fails. -/
def flushFrame (frame : Fin n) : PoolSystem τ n :=
  if (system.frames frame).isDirty then
    (system.writePage (system.frames frame).pageID (system.frames frame).bytes).setFrame frame
      fun dirty => { dirty with isDirty := false }
  else system

/-- An I/O error gives the victim up. -/
def abandon (thread : τ) (victim : Fin n) : PoolSystem τ n :=
  (system.setFrame victim fun taken =>
    { taken with pinCount := 0, pageID := ⟨0, 0⟩, metaLatch := none }).goto thread .idle

inductive Step (system : PoolSystem τ n) : PoolEvent τ n → PoolSystem τ n → Prop where
  | getPage {thread pageID} (at' : system.threads thread = .idle) :
      Step system (.called thread pageID) (system.goto thread (.lookup pageID))
  | found {thread pageID frame} (at' : system.threads thread = .lookup pageID)
      (hit : system.pageTable pageID = some frame) :
      Step system (.worked thread) (system.goto thread (.pinning pageID frame))
  | missed {thread pageID} (at' : system.threads thread = .lookup pageID) (miss : system.pageTable pageID = none) :
      Step system (.worked thread) (system.goto thread (.wantPool pageID))
  | pinned {thread pageID frame} (at' : system.threads thread = .pinning pageID frame)
      (free : (system.frames frame).metaLatch = none) (mine : (system.frames frame).pageID = pageID) :
      Step system (.returned thread pageID frame (system.frames frame).bytes)
        (((system.setFrame frame .pin).addPin pageID frame).goto thread .idle)
  | reassigned {thread pageID frame} (at' : system.threads thread = .pinning pageID frame)
      (free : (system.frames frame).metaLatch = none) (other : (system.frames frame).pageID ≠ pageID) :
      Step system (.worked thread) (system.goto thread (.lookup pageID))
  | enterPool {thread pageID} (at' : system.threads thread = .wantPool pageID) (free : system.poolLatch = none) :
      Step system (.worked thread) ((system.setPoolLatch (some thread)).goto thread (.recheck pageID))
  | foundAgain {thread pageID frame} (at' : system.threads thread = .recheck pageID)
      (hit : system.pageTable pageID = some frame) :
      Step system (.worked thread) ((system.setPoolLatch none).goto thread (.pinning pageID frame))
  | missedAgain {thread pageID} (at' : system.threads thread = .recheck pageID)
      (miss : system.pageTable pageID = none) :
      Step system (.worked thread) (system.goto thread (.scanning pageID 0 0))
  | passedOver {thread pageID pass i} (at' : system.threads thread = .scanning pageID pass i) (left : i < n)
      (pinned : (system.frames (system.frameAtHand i left)).pinCount ≠ 0) :
      Step system (.worked thread) (system.advanceHand.goto thread (.scanning pageID pass (i + 1)))
  | approached {thread pageID pass i} (at' : system.threads thread = .scanning pageID pass i) (left : i < n)
      (unpinned : (system.frames (system.frameAtHand i left)).pinCount = 0) :
      Step system (.worked thread) (system.goto thread (.inspecting pageID pass i (system.frameAtHand i left)))
  | tooLate {thread pageID pass i frame} (at' : system.threads thread = .inspecting pageID pass i frame)
      (free : (system.frames frame).metaLatch = none) (pinned : (system.frames frame).pinCount ≠ 0) :
      Step system (.worked thread) (system.advanceHand.goto thread (.scanning pageID pass (i + 1)))
  | spared {thread pageID pass i frame} (at' : system.threads thread = .inspecting pageID pass i frame)
      (free : (system.frames frame).metaLatch = none) (unpinned : (system.frames frame).pinCount = 0)
      (recent : (system.frames frame).aged n pass ≠ 0) :
      Step system (.worked thread) ((system.setFrame frame fun visited =>
        { visited with refCount := visited.aged n pass }).advanceHand.goto thread (.scanning pageID pass (i + 1)))
  | claimed {thread pageID pass i frame} (at' : system.threads thread = .inspecting pageID pass i frame)
      (free : (system.frames frame).metaLatch = none) (unpinned : (system.frames frame).pinCount = 0)
      (stale : (system.frames frame).aged n pass = 0) :
      Step system (.worked thread) ((system.setFrame frame fun visited =>
        { visited with refCount := 0, metaLatch := some thread }).goto thread (.assigning pageID frame))
  | nextPass {thread pageID pass i} (at' : system.threads thread = .scanning pageID pass i) (done : n ≤ i)
      (more : pass + 1 < passesAllowed n) :
      Step system (.worked thread) (system.goto thread (.scanning pageID (pass + 1) 0))
  | gaveUp {thread pageID pass i} (at' : system.threads thread = .scanning pageID pass i) (done : n ≤ i)
      (last : passesAllowed n ≤ pass + 1) :
      Step system (.worked thread) ((system.setPoolLatch none).goto thread (.lookup pageID))
  | assigned {thread pageID victim} (at' : system.threads thread = .assigning pageID victim) :
      Step system (.worked thread) (((((system.setFrame victim fun taken =>
        { taken with pinCount := 1, pageID := pageID }).store pageID (some victim)).advanceHand).setPoolLatch none).goto
          thread (.writingBack pageID victim (system.frames victim).pageID))
  | clean {thread pageID victim old} (at' : system.threads thread = .writingBack pageID victim old)
      (unchanged : (system.frames victim).isDirty = false) :
      Step system (.worked thread) (system.goto thread (.droppingOld pageID victim old))
  | wroteBack {thread pageID victim old} (at' : system.threads thread = .writingBack pageID victim old)
      (dirty : (system.frames victim).isDirty = true) :
      Step system (.worked thread) (((system.writePage old (system.frames victim).bytes).setFrame victim fun taken =>
        { taken with isDirty := false }).goto thread (.droppingOld pageID victim old))
  | writeFailed {thread pageID victim old} (at' : system.threads thread = .writingBack pageID victim old)
      (dirty : (system.frames victim).isDirty = true) :
      Step system (.failed thread) (((system.store pageID none).store old none).abandon thread victim)
  | dropped {thread pageID victim old} (at' : system.threads thread = .droppingOld pageID victim old) :
      Step system (.worked thread) (((system.store old none).setFrame victim fun taken =>
        { taken with refCount := 1 }).goto thread (.reading pageID victim))
  | read {thread pageID victim} (at' : system.threads thread = .reading pageID victim) :
      Step system (.returned thread pageID victim (system.disk pageID)) (((system.setFrame victim fun taken =>
          { taken with bytes := system.disk pageID, metaLatch := none }).addPin pageID victim).goto thread .idle)
  | readFailed {thread pageID victim} (at' : system.threads thread = .reading pageID victim) :
      Step system (.failed thread) ((system.store pageID none).abandon thread victim)
  | flushAllPages {thread} (at' : system.threads thread = .idle) :
      Step system (.worked thread) (system.goto thread (.flushing 0))
  | flushed {thread i} (at' : system.threads thread = .flushing i) (left : i < n)
      (free : (system.frames ⟨i, left⟩).metaLatch = none) :
      Step system (.worked thread) ((system.flushFrame ⟨i, left⟩).goto thread (.flushing (i + 1)))
  | flushFailed {thread i} (at' : system.threads thread = .flushing i) (left : i < n)
      (free : (system.frames ⟨i, left⟩).metaLatch = none) (dirty : (system.frames ⟨i, left⟩).isDirty = true) :
      Step system (.failed thread) (system.goto thread .idle)
  | flushedAll {thread i} (at' : system.threads thread = .flushing i) (done : n ≤ i) :
      Step system (.worked thread) (system.goto thread .idle)
  | modify {index pin bytes} (held : system.pins[index]? = some pin) :
      Step system (.modified index bytes) { system.setFrame pin.frame fun frame => { frame with bytes := bytes } with
          pins := system.pins.set index { pin with modified := true }
          written := Function.update system.written pin.page bytes }
  | unpinPage {index pin setDirty} (held : system.pins[index]? = some pin)
      (free : (system.frames pin.frame).metaLatch = none) :
      Step system (.unpinned index setDirty)
        { system.setFrame pin.frame (.unpin setDirty) with pins := system.pins.eraseIdx index }

end PoolSystem
end GoDB.Storage
