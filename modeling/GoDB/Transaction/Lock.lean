import GoDB.Common.Errors
import GoDB.Common.Identifiers
import GoDB.Lib.DepthFirst
import GoDB.Lib.GoMap

/-! The lock manager. Every definition here is one critical section under its
mutex; `Lock` may end such a section asleep and take it up again in another. -/

namespace GoDB.Transaction
open Common Lib

/-- A table or a tuple, told apart by whether the page number is -1. -/
structure DBLockTag where
  recordID : RecordID
deriving DecidableEq, Repr

def newTableLockTag (oid : ObjectID) : DBLockTag := ⟨⟨⟨oid, -1⟩, -1⟩⟩

def newTupleLockTag (rid : RecordID) : DBLockTag := ⟨rid⟩

inductive DBLockMode where
  | S
  | X
  | IS
  | IX
  | SIX
deriving DecidableEq, Repr

open DBLockMode

/-- The tests of the source, in its order. -/
def isCompatible (requestedMode existingMode : DBLockMode) : Bool :=
  if requestedMode = X ∨ existingMode = X then false
  else if requestedMode = S then existingMode = S ∨ existingMode = IS ∨ existingMode = SIX
  else if existingMode = S then requestedMode = S ∨ requestedMode = IS ∨ requestedMode = SIX
  else if requestedMode = IX then existingMode = IS ∨ existingMode = IX
  else if existingMode = IX then requestedMode = IS ∨ requestedMode = IX
  else if requestedMode = SIX then existingMode = IS ∨ existingMode = S
  else if existingMode = SIX then requestedMode = IS ∨ requestedMode = S
  else true

/-- The granted locks by tag and holder, and who is queued on each tag. -/
structure LockManager where
  locks : GoMap DBLockTag (GoMap TransactionID DBLockMode)
  waitqueue : GoMap DBLockTag (List TransactionID)

def newLockManager : LockManager := ⟨∅, ∅⟩

/-- The order in which each `range` of one deadlock search visits its map. Every
expanding call sees another visited set, so an order may change from call to
call; it can never leave out or repeat an entry. -/
structure RangeOrder where
  waitqueue : List TransactionID → List (Σ _ : DBLockTag, List TransactionID) → List (Σ _ : DBLockTag, List TransactionID)
  holders : List TransactionID → DBLockTag → List (Σ _ : TransactionID, DBLockMode) → List (Σ _ : TransactionID, DBLockMode)
  waitqueue_perm : ∀ visited entries, (waitqueue visited entries).Perm entries
  holders_perm : ∀ visited tag entries, (holders visited tag entries).Perm entries

def RangeOrder.stored : RangeOrder where
  waitqueue _ entries := entries
  holders _ _ entries := entries
  waitqueue_perm _ _ := .refl _
  holders_perm _ _ _ := .refl _

/-- How far one critical section of `Lock` gets: the call returns, or it sleeps
in `cond.Wait`. -/
inductive LockOutcome where
  | returned (err : Option GoDBError)
  | waiting
deriving DecidableEq, Repr

def deadlockDetected : GoDBError := ⟨.deadlockError, "deadlock detected"⟩

def lockNotFound : GoDBError := ⟨.lockNotFoundError, "lock not found"⟩

namespace LockManager
variable (lm : LockManager) (tag : DBLockTag) (order : RangeOrder)

def holders : GoMap TransactionID DBLockMode :=
  (lm.locks.lookup tag).getD ∅

variable (tid : TransactionID)

/-- `delete(holders, tid)`; the tag goes with its last holder. -/
def dropHolder (tag : DBLockTag) : LockManager :=
  let rest := (lm.holders tag).erase tid
  { lm with locks := lm.locks.putBack tag rest rest.entries.isEmpty }

def conflict (tag : DBLockTag) (mode : DBLockMode) : Bool :=
  (lm.holders tag).entries.any fun ⟨otherTid, otherMode⟩ =>
    otherTid != tid && !isCompatible mode otherMode

def enqueue (tag : DBLockTag) : LockManager :=
  { lm with waitqueue := lm.waitqueue.insert tag ((lm.waitqueue.lookup tag).getD [] ++ [tid]) }

def removeFromWaitQueue (tag : DBLockTag) : LockManager :=
  let waiters := ((lm.waitqueue.lookup tag).getD []).erase tid
  { lm with waitqueue := lm.waitqueue.putBack tag waiters waiters.isEmpty }

def grant (tag : DBLockTag) (mode : DBLockMode) : LockManager :=
  { lm with locks := lm.locks.insert tag ((lm.holders tag).insert tid mode) }

/-- The calls that one run of the loops of `dfs` makes, in order. -/
def waitsOn (visited : List TransactionID) (currentId : TransactionID) : List TransactionID :=
  (order.waitqueue visited lm.waitqueue.entries).flatMap fun ⟨waitTag, waiters⟩ =>
    waiters.flatMap fun waitingTid =>
      if waitingTid = currentId then
        ((order.holders visited waitTag (lm.holders waitTag).entries).map Sigma.fst).filter (· ≠ currentId)
      else []

def dfs (startId : TransactionID) (fuel : Nat)
    (visited : List TransactionID) (currentId : TransactionID) : Option (Bool × List TransactionID) :=
  DepthFirst.visit (lm.waitsOn order) startId fuel visited currentId

def holderIDs : List TransactionID :=
  lm.locks.entries.flatMap fun ⟨_, holders⟩ => holders.entries.map Sigma.fst

/-- Nested calls of `dfs` mark different transactions, all of them holders but
the first, so the fuel cannot run out. -/
def hasDeadLock (startID : TransactionID) (_tag : DBLockTag) : Bool :=
  (lm.dfs order startID (lm.holderIDs.length + 2) [] startID).any Prod.fst

/-- One turn of the waiting loop: sleep, or leave the queue with the lock. -/
def retry (tag : DBLockTag) (mode : DBLockMode) : LockOutcome × LockManager :=
  if lm.conflict tid tag mode then (.waiting, lm)
  else (.returned none, (lm.removeFromWaitQueue tid tag).grant tid tag mode)

/-- `Lock` up to its return or its first sleep. A different mode that the caller
already holds is given up before the conflict test. -/
def lock (order : RangeOrder) (tid : TransactionID) (tag : DBLockTag) (mode : DBLockMode) : LockOutcome × LockManager :=
  match (lm.holders tag).lookup tid with
  | some currentMode =>
    if currentMode = mode then (.returned none, lm) else request (lm.dropHolder tid tag)
  | none => request lm
where
  request (lm : LockManager) : LockOutcome × LockManager :=
    if lm.conflict tid tag mode then
      let queued := lm.enqueue tid tag
      if queued.hasDeadLock order tid tag then
        (.returned (some deadlockDetected), queued.removeFromWaitQueue tid tag)
      else queued.retry tid tag mode
    else (.returned none, lm.grant tid tag mode)

/-- `Unlock`, with whether it broadcasts. -/
def unlock (tag : DBLockTag) : Option GoDBError × LockManager × Bool :=
  match (lm.holders tag).lookup tid with
  | none => (some lockNotFound, lm, false)
  | some _ =>
    let rest := lm.dropHolder tid tag
    (none, rest, !((rest.waitqueue.lookup tag).getD []).isEmpty)

def lockHeld : Bool := !(lm.holders tag).entries.isEmpty

end LockManager

/-- A `Lock` call asleep in `cond.Wait`, and whether a broadcast has reached it. -/
structure Sleeper where
  tid : TransactionID
  tag : DBLockTag
  mode : DBLockMode
  woken : Bool
deriving DecidableEq, Repr

structure System where
  lm : LockManager
  sleepers : List Sleeper

def System.initial : System := ⟨newLockManager, []⟩

inductive Call where
  | lock (order : RangeOrder) (tid : TransactionID) (tag : DBLockTag) (mode : DBLockMode)
  | wake (index : Nat)
  | unlock (tid : TransactionID) (tag : DBLockTag)

/-- What the section did to the call it belongs to. -/
inductive Event where
  | granted (tid : TransactionID) (tag : DBLockTag) (mode : DBLockMode)
  | refused (tid : TransactionID) (tag : DBLockTag) (mode : DBLockMode) (err : GoDBError)
  | waiting (tid : TransactionID) (tag : DBLockTag) (mode : DBLockMode)
  | unlocked (tid : TransactionID) (tag : DBLockTag) (err : Option GoDBError)
deriving DecidableEq, Repr

namespace System

def broadcast (sleepers : List Sleeper) : List Sleeper :=
  sleepers.map fun sleeper => { sleeper with woken := true }

def leave (sleepers : List Sleeper) (tid : TransactionID) (tag : DBLockTag) (mode : DBLockMode) :
    LockOutcome × LockManager → Event × System
  | (.returned none, lm) => (.granted tid tag mode, ⟨lm, sleepers⟩)
  | (.returned (some err), lm) => (.refused tid tag mode err, ⟨lm, sleepers⟩)
  | (.waiting, lm) => (.waiting tid tag mode, ⟨lm, sleepers ++ [⟨tid, tag, mode, false⟩]⟩)

/-- A sleeper can only run once a broadcast has woken it. -/
def step (system : System) : Call → Option (Event × System)
  | .lock order tid tag mode =>
    some (leave system.sleepers tid tag mode (system.lm.lock order tid tag mode))
  | .wake index =>
    match system.sleepers[index]? with
    | none => none
    | some ⟨_, _, _, false⟩ => none
    | some ⟨tid, tag, mode, true⟩ =>
      match system.lm.retry tid tag mode with
      | (.waiting, lm) =>
        some (.waiting tid tag mode, ⟨lm, system.sleepers.set index ⟨tid, tag, mode, false⟩⟩)
      | (.returned _, lm) => some (.granted tid tag mode, ⟨lm, system.sleepers.eraseIdx index⟩)
  | .unlock tid tag =>
    match system.lm.unlock tid tag with
    | (err, lm, awakens) =>
      some (.unlocked tid tag err, ⟨lm, if awakens then broadcast system.sleepers else system.sleepers⟩)

def Step (before : System) (label : Call × Event) (after : System) : Prop :=
  before.step label.1 = some (label.2, after)

end System
end GoDB.Transaction
