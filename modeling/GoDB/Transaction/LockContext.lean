import GoDB.Transaction.Lock

/-! The locks that a transaction keeps for itself, beside those that the lock
manager records. The two tables are written at different moments, and other
transactions run in between. -/

namespace GoDB.Transaction
open Common Lib DBLockMode

def covers (currentMode mode : DBLockMode) : Bool :=
  currentMode = X ∨ currentMode = SIX ∧ (mode = S ∨ mode = IS ∨ mode = IX) ∨ currentMode = S ∧ mode = IS ∨
    currentMode = IX ∧ mode = IS

/-- Where the call in progress is: asleep in `Lock`, back from it with a lock that
is not entered yet, or between two calls of `Unlock`. -/
inductive Activity where
  | idle
  | asleep (tag : DBLockTag) (mode : DBLockMode)
  | granted (tag : DBLockTag) (mode : DBLockMode)
  | releasing (tags : List DBLockTag)
deriving DecidableEq

structure LockContext where
  heldLocks : GoMap DBLockTag DBLockMode
  activity : Activity

structure Sessions where
  system : System
  contexts : TransactionID → LockContext

/-- What a transaction does next. The order in which `ReleaseAllLocks` goes
through the map is left open by Go. -/
inductive SessionCall where
  | acquireLock (order : RangeOrder) (tid : TransactionID) (tag : DBLockTag) (mode : DBLockMode)
  | wake (index : Nat)
  | enter (tid : TransactionID)
  | releaseAllLocks (tid : TransactionID) (tags : List DBLockTag)
  | unlockNext (tid : TransactionID)
  | finishRelease (tid : TransactionID)

namespace Sessions

def initial : Sessions := ⟨System.initial, fun _ => ⟨∅, .idle⟩⟩

variable (sessions : Sessions)

def setContext (tid : TransactionID) (context : LockContext) : Sessions :=
  { sessions with contexts := Function.update sessions.contexts tid context }

def setActivity (tid : TransactionID) (activity : Activity) : Sessions :=
  sessions.setContext tid { sessions.contexts tid with activity }

/-- A section of `Lock` in which the call got this far. -/
def afterLock : Event × System → Sessions
  | (.granted tid tag mode, system) => { sessions with system }.setActivity tid (.granted tag mode)
  | (.waiting tid tag mode, system) => { sessions with system }.setActivity tid (.asleep tag mode)
  | (.refused _ _ _ _, system) | (.unlocked _ _ _, system) => { sessions with system }

def step : SessionCall → Option Sessions
  | .acquireLock order tid tag mode =>
    if (sessions.contexts tid).activity = .idle then
      if ((sessions.contexts tid).heldLocks.lookup tag).any (covers · mode) then some sessions
      else (sessions.system.step (.lock order tid tag mode)).map sessions.afterLock
    else none
  | .wake index => (sessions.system.step (.wake index)).map sessions.afterLock
  | .enter tid =>
    match (sessions.contexts tid).activity with
    | .granted tag mode => some (sessions.setContext tid ⟨(sessions.contexts tid).heldLocks.insert tag mode, .idle⟩)
    | _ => none
  | .releaseAllLocks tid tags =>
    if (sessions.contexts tid).activity = .idle ∧ tags.Perm (sessions.contexts tid).heldLocks.keys then
      some (sessions.setActivity tid (.releasing tags))
    else none
  | .unlockNext tid =>
    match (sessions.contexts tid).activity with
    | .releasing (tag :: tags) => (sessions.system.step (.unlock tid tag)).map fun result =>
        { sessions with system := result.2 }.setActivity tid (.releasing tags)
    | _ => none
  | .finishRelease tid =>
    match (sessions.contexts tid).activity with
    | .releasing [] => some (sessions.setContext tid ⟨∅, .idle⟩)
    | _ => none

def Step (before : Sessions) (call : SessionCall) (after : Sessions) : Prop := before.step call = some after

end Sessions
end GoDB.Transaction
