import GoDB.Indexing.Index
import GoDB.Lib.Linearization
import GoDB.Lib.Run

/-! `MemHashIndex` under any interleaving of its callers, without transactions. A step is
one operation on the map or one section under the lock of a bucket. `DeleteEntry` also
uses the map inside its section; it keeps the lock from one step to the next then. -/

namespace GoDB.Indexing
open Common Lib Storage

structure Bucket where
  key : RawTuple
  rids : List RecordID
  removed : Bool
  /-- The call that holds the lock between two steps. -/
  lock : Option Nat

inductive HashCall where
  | insertEntry (key : Key) (rid : RecordID)
  | deleteEntry (key : Key) (rid : RecordID)
  | scanKey (key : Key) (output : List RecordID)

def HashCall.key : HashCall → Key
  | .insertEntry key _ | .deleteEntry key _ | .scanKey key _ => key

/-- All calls return a nil error; `ScanKey` also returns its output. -/
inductive HashAnswer where
  | nil
  | output (rids : List RecordID)
deriving DecidableEq

/-- Where a call stands. Buckets are known by their addresses. -/
inductive HashPhase where
  /-- Before `Load`. -/
  | loading
  /-- `Load` found nothing; before `LoadOrStore`. -/
  | missing
  /-- Before the lock of the bucket. -/
  | found (address : Nat)
  /-- The bucket has lost its last record; before `Delete`, under the lock. -/
  | emptied (address : Nat)
  | finished (answer : HashAnswer)
  | returned

structure RunningCall where
  call : HashCall
  phase : HashPhase

/-- The map, all buckets that were ever made, and all calls that were ever made. -/
structure SharedHashIndex where
  metadata : IndexMetadata
  m : GoMap Key Nat
  buckets : List Bucket
  calls : List RunningCall

inductive HashAction where
  | invoke (id : Nat) (call : HashCall)
  | load (id : Nat)
  | loadOrStore (id : Nat)
  | enter (id : Nat)
  /-- `Delete` from the map, and the end of the section. -/
  | detach (id : Nat)
  | respond (id : Nat) (answer : HashAnswer)

namespace HashAction

def id : HashAction → Nat
  | .invoke id _ | .load id | .loadOrStore id | .enter id | .detach id | .respond id _ => id

def event : HashAction → Option (Event HashCall HashAnswer)
  | .invoke id call => some (.invoke id call)
  | .respond id answer => some (.respond id answer)
  | .load _ | .loadOrStore _ | .enter _ | .detach _ => none

end HashAction

def HashCall.absent : HashCall → HashPhase
  | .insertEntry _ _ => .missing
  | .deleteEntry _ _ => .finished .nil
  | .scanKey _ output => .finished (.output output)

namespace SharedHashIndex

def new (metadata : IndexMetadata) : SharedHashIndex := ⟨metadata, ∅, [], []⟩

variable (index : SharedHashIndex)

def goto (id : Nat) (phase : HashPhase) : SharedHashIndex :=
  { index with calls := index.calls.modify id fun running => { running with phase } }

def setBucket (address : Nat) (bucket : Bucket) : SharedHashIndex :=
  { index with buckets := index.buckets.set address bucket }

def store (key : Key) : SharedHashIndex :=
  { index with
    m := index.m.insert key index.buckets.length
    buckets := index.buckets ++ [⟨key, [], false, none⟩] }

def detach (key : Key) (address : Nat) (bucket : Bucket) : SharedHashIndex :=
  { index with m := index.m.erase key }.setBucket address { bucket with lock := none }

/-- The section of each of the calls. A bucket that was removed is not checked by
`DeleteEntry`: it is empty. -/
def visit (id address : Nat) (bucket : Bucket) : HashCall → Option SharedHashIndex
  | .insertEntry _ rid =>
    if bucket.removed then some (index.goto id .loading)
    else some ((index.setBucket address { bucket with rids := bucket.rids ++ [rid] }).goto id (.finished .nil))
  | .deleteEntry _ rid => do
    let left ← MemHashIndex.removeRid rid bucket.rids
    if left.isEmpty && !bucket.rids.isEmpty then
      return (index.setBucket address { bucket with rids := left, removed := true, lock := some id }).goto id
        (.emptied address)
    else return (index.setBucket address { bucket with rids := left }).goto id (.finished .nil)
  | .scanKey _ output =>
    if bucket.removed then some (index.goto id .loading)
    else some (index.goto id (.finished (.output (output ++ bucket.rids))))

/-- A call begins with the assertion that the key has the schema of the index. -/
def step : HashAction → Option SharedHashIndex
  | .invoke id call =>
    if id = index.calls.length ∧ call.key.length = index.metadata.keySize then
      some { index with calls := index.calls ++ [⟨call, .loading⟩] }
    else none
  | .load id =>
    match index.calls[id]? with
    | some ⟨call, .loading⟩ =>
      some (index.goto id (match index.m.lookup call.key with
        | some address => .found address
        | none => call.absent))
    | _ => none
  | .loadOrStore id =>
    match index.calls[id]? with
    | some ⟨call, .missing⟩ =>
      match index.m.lookup call.key with
      | some address => some (index.goto id (.found address))
      | none => some ((index.store call.key).goto id (.found index.buckets.length))
    | _ => none
  | .enter id =>
    match index.calls[id]? with
    | some ⟨call, .found address⟩ => do
      let bucket ← index.buckets[address]?
      if bucket.lock.isSome then none else index.visit id address bucket call
    | _ => none
  | .detach id =>
    match index.calls[id]? with
    | some ⟨call, .emptied address⟩ => do
      let bucket ← index.buckets[address]?
      return (index.detach call.key address bucket).goto id (.finished .nil)
    | _ => none
  | .respond id answer =>
    match index.calls[id]? with
    | some ⟨_, .finished result⟩ => if result = answer then some (index.goto id .returned) else none
    | _ => none

abbrev Stepped (index : SharedHashIndex) (action : HashAction) (later : SharedHashIndex) : Prop :=
  index.step action = some later

def pairs : Set (Key × RecordID) :=
  { pair | ∃ address bucket, index.m.lookup pair.1 = some address ∧ index.buckets[address]? = some bucket ∧
    pair.2 ∈ bucket.rids }

/-- The step does not insert a pair that is present. -/
def Fresh (action : HashAction) : Prop :=
  ∀ id key rid address bucket, action = .enter id → index.calls[id]? = some ⟨.insertEntry key rid, .found address⟩ →
    index.buckets[address]? = some bucket → bucket.removed = false → (key, rid) ∉ index.pairs

end SharedHashIndex

/-- The calls on a set of pairs, one at a time. -/
inductive SetOfPairs : Set (Key × RecordID) → HashCall → HashAnswer → Set (Key × RecordID) → Prop where
  | insertEntry {pairs : Set (Key × RecordID)} {key : Key} {rid : RecordID} :
    SetOfPairs pairs (.insertEntry key rid) .nil (insert (key, rid) pairs)
  | deleteEntry {pairs : Set (Key × RecordID)} {key : Key} {rid : RecordID} :
    SetOfPairs pairs (.deleteEntry key rid) .nil (pairs \ {(key, rid)})
  | scanKey {pairs : Set (Key × RecordID)} {key : Key} {output rids : List RecordID} (distinct : rids.Nodup)
    (exactly : ∀ rid, rid ∈ rids ↔ (key, rid) ∈ pairs) :
    SetOfPairs pairs (.scanKey key output) (.output (output ++ rids)) pairs

end GoDB.Indexing
