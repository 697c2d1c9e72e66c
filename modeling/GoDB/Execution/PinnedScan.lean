import GoDB.Lib.Partial
import GoDB.Lib.Run

/-! A sequential scan with the page pins and the read latches that it takes. To
release what is not held has no result. -/

namespace GoDB.Execution

inductive Hold where
  | pin (pageNum : Nat)
  | latch (pageNum : Nat)
deriving DecidableEq

def Hold.release (hold : Hold) (held : List Hold) : Option (List Hold) :=
  if hold ∈ held then some (held.erase hold) else none

/-- The table during a call: the pages that `GetPage` returns, and the slots of each that hold a row. -/
structure PagesNow where
  fetched : Nat → Bool
  numSlots : Nat → UInt16
  occupied : Nat → Nat → Bool

/-- The iterator of a `SeqScanExecutor`, and what it has taken and not released. -/
structure PinnedScan where
  numPages : Nat
  currentPageNum : Nat
  currentSlot : Int
  currentFrame : Option Nat
  hasLock : Bool
  failed : Bool
  held : List Hold

inductive SeqScanCall where
  /-- There is no number of pages where `Iterator` fails. -/
  | init (numPages : Option Nat)
  | next (pages : PagesNow)
  | close

namespace PinnedScan

/-- Before the first `Init` the iterator has the zero value of its type. -/
def new : PinnedScan := ⟨0, 0, 0, none, false, false, []⟩

variable (s : PinnedScan)

def init : Option Nat → PinnedScan
  | none => { new with held := s.held }
  | some numPages => { new with numPages, currentSlot := -1, held := s.held }

/-- `RUnlock` where the iterator has the latch. -/
def unlock : Option PinnedScan :=
  if s.hasLock then do
    let frame ← s.currentFrame
    return { s with hasLock := false, held := ← (Hold.latch frame).release s.held }
  else some s

def close : Option PinnedScan := do
  let s ← s.unlock
  match s.currentFrame with
  | some frame => return { s with currentFrame := none, held := ← (Hold.pin frame).release s.held }
  | none => return s

/-- The frame under the cursor, after `GetPage` where the iterator has none. -/
def frame (pages : PagesNow) (s : PinnedScan) : Option (Nat × List Hold) :=
  match s.currentFrame with
  | some frame => some (frame, s.held)
  | none => if pages.fetched s.currentPageNum then some (s.currentPageNum, .pin s.currentPageNum :: s.held) else none

/-- The loop of `Next`. -/
def walk (pages : PagesNow) (s : PinnedScan) : Option (Bool × PinnedScan) :=
  if s.numPages ≤ s.currentPageNum then some (false, { s with currentSlot := s.currentSlot + 1 })
  else
    match s.frame pages with
    | none => some (false, { s with currentSlot := s.currentSlot + 1, failed := true })
    | some (frame, held) =>
      if (pages.numSlots frame).toNat ≤ s.currentSlot + 1 then
        match close { s with currentFrame := some frame, held } with
        | none => none
        | some closed =>
          walk pages { s with currentPageNum := s.currentPageNum + 1, currentSlot := -1,
                              currentFrame := none, hasLock := closed.hasLock, held := closed.held }
      else if pages.occupied frame (s.currentSlot + 1).toNat then
        some (true, { s with currentSlot := s.currentSlot + 1, currentFrame := some frame, hasLock := true,
                             held := .latch frame :: held })
      -- The latch was taken for the look, and is given back.
      else walk pages { s with currentSlot := s.currentSlot + 1, currentFrame := some frame, held }
termination_by (s.numPages - s.currentPageNum, (65536 - s.currentSlot).toNat)
decreasing_by
  · apply Prod.Lex.left
    omega
  · apply Prod.Lex.right
    have bounded := (pages.numSlots frame).toNat_lt
    omega

def next (pages : PagesNow) (s : PinnedScan) : Option (Bool × PinnedScan) := do walk pages (← s.unlock)

def perform : SeqScanCall → Option PinnedScan
  | .init numPages => some (s.init numPages)
  | .next pages => do return (← s.next pages).2
  | .close => s.close

end PinnedScan
end GoDB.Execution
