import GoDB.Logging.MemoryLogManager

/-! The log gives back the records that were appended, as long as their sizes fit
into the two bytes that each of them starts with. -/

namespace GoDB.Storage.LogRecord
open Common Lib List LittleEndian Nat

/-- What the constructors make. The payload of the end of a checkpoint is filled in
by the caller. -/
inductive Built : LogRecord → Prop where
  | beginTransaction {buf txnID r} (made : newBeginTransactionRecord buf txnID = some r) : Built r
  | commit {buf txnID r} (made : newCommitRecord buf txnID = some r) : Built r
  | abort {buf txnID r} (made : newAbortRecord buf txnID = some r) : Built r
  | insert {buf txnID rid row r} (made : newInsertRecord buf txnID rid row = some r) : Built r
  | insertCLR {buf insertRecord r} (made : newInsertCLR buf insertRecord = some r) : Built r
  | delete {buf txnID rid r} (made : newDeleteRecord buf txnID rid = some r) : Built r
  | deleteCLR {buf deleteRecord r} (made : newDeleteCLR buf deleteRecord = some r) : Built r
  | update {buf txnID rid before after r} (made : newUpdateRecord buf txnID rid before after = some r) : Built r
  | updateCLR {buf updateRecord r} (made : newUpdateCLR buf updateRecord = some r) : Built r
  | beginCheckpoint {buf r} (made : newBeginCheckpointRecord buf = some r) : Built r
  | endCheckpoint {buf payload empty r} (made : newEndCheckpointRecord buf payload.length = some empty)
      (filled : empty.fillCheckpointData payload = some r) : Built r

variable {r later : LogRecord} {buf : List Byte} {size : Nat}

theorem size_ofBuffer (made : ofBuffer buf size = some r) : r.size = size := by
  unfold ofBuffer at made
  split at made
  next room =>
    cases made
    exact (length_take ..).trans (min_eq_left room)
  next => cases made

variable {start : Nat} {bytes : List Byte}

theorem size_put (done : r.put start bytes = some later) : later.size = r.size := by
  unfold put at done
  split at done
  next room =>
    cases done
    exact length_copyInto (by omega) room _
  next => cases done

theorem size_copyAt (done : r.copyAt start bytes = some later) : later.size = r.size := by
  unfold copyAt at done
  split at done
  next room =>
    cases done
    exact length_copyInto room (le_refl _) _
  next => cases done

variable {type : LogRecordType} {txnID : TransactionID}

theorem size_newTxnRecord (made : newTxnRecord type buf txnID = some r) : headerSize ≤ r.size := by
  simp only [newTxnRecord, bind_eq_some] at made
  obtain ⟨_, made, _, typed, txn⟩ := made
  rw [size_put txn, size_put typed, size_ofBuffer made]
  exact Nat.le_add_right ..

theorem size_newRowRecord {rid : RecordID} (made : newRowRecord type buf size txnID rid = some r) : r.size = size := by
  simp only [newRowRecord, bind_eq_some] at made
  obtain ⟨_, made, _, typed, _, txn, place⟩ := made
  rw [size_put place, size_put txn, size_put typed, size_ofBuffer made]

theorem Built.headerSize_le (built : Built r) : headerSize ≤ r.size := by
  cases built with
  | beginTransaction made | commit made | abort made => exact size_newTxnRecord made
  | insert made =>
    simp only [newInsertRecord, bind_eq_some] at made
    obtain ⟨_, made, copied⟩ := made
    rw [size_copyAt copied, size_newRowRecord made, insertRecordSize]
    omega
  | insertCLR made =>
    simp only [newInsertCLR, bind_eq_some] at made
    obtain ⟨_, made, _, typed, _, -, copied⟩ := made
    rw [size_copyAt copied, size_put typed, size_ofBuffer made]
    omega
  | delete made =>
    rw [size_newRowRecord made]
    omega
  | deleteCLR made =>
    simp only [newDeleteCLR, bind_eq_some] at made
    obtain ⟨_, made, _, copied, typed⟩ := made
    rw [size_put typed, size_copyAt copied, size_ofBuffer made]
    omega
  | update made =>
    simp only [newUpdateRecord, updateRecordSize, bind_eq_some] at made
    obtain ⟨size, sized, _, made, _, after, before⟩ := made
    split at sized
    next =>
      cases sized
      rw [size_copyAt before, size_copyAt after, size_newRowRecord made]
      omega
    next => cases sized
  | updateCLR made =>
    simp only [newUpdateCLR, updateCLRSize, bind_eq_some, Option.pure_def, Option.some.injEq] at made
    obtain ⟨_, -, _, ⟨_, -, rfl⟩, _, made, _, typed, _, -, _, copied, image⟩ := made
    rw [size_copyAt image, size_copyAt copied, size_put typed, size_ofBuffer made]
    omega
  | beginCheckpoint made =>
    simp only [newBeginCheckpointRecord, bind_eq_some] at made
    obtain ⟨_, made, typed⟩ := made
    rw [size_put typed, size_ofBuffer made]
  | endCheckpoint made filled =>
    simp only [newEndCheckpointRecord, bind_eq_some] at made
    obtain ⟨_, made, typed⟩ := made
    rw [size_copyAt filled, size_put typed, size_ofBuffer made]
    omega

theorem exists_endCheckpoint (payload : List Byte) : ∃ empty r,
    newEndCheckpointRecord (replicate (headerSize + payload.length) 0) payload.length = some empty ∧
      empty.fillCheckpointData payload = some r ∧ r.size = headerSize + payload.length := by
  have length : (replicate (headerSize + payload.length) (0 : Byte)).length = headerSize + payload.length :=
    length_replicate ..
  have made : ofBuffer (replicate (headerSize + payload.length) 0) (headerSize + payload.length) =
      some ⟨replicate (headerSize + payload.length) 0⟩ := by
    rw [ofBuffer, if_pos length.ge, take_of_length_le length.le]
  have typed : ∃ empty, putType ⟨replicate (headerSize + payload.length) 0⟩ .logEndCheckpoint = some empty := by
    refine ⟨_, if_pos ?_⟩
    rw [length_encode, length, offsetType, headerSize]
    omega
  obtain ⟨empty, typed⟩ := typed
  have size : empty.size = headerSize + payload.length := (size_put typed).trans length
  have filled : ∃ r, empty.fillCheckpointData payload = some r := by
    have room : headerSize ≤ empty.size := by omega
    exact ⟨_, if_pos room⟩
  obtain ⟨r, filled⟩ := filled
  refine ⟨empty, r, ?_, filled, (size_copyAt filled).trans size⟩
  simp [newEndCheckpointRecord, made, typed]

def logged (r : LogRecord) : List Byte := encode 2 r.size ++ r.data.drop 2

theorem length_logged (long : 2 ≤ r.size) : r.logged.length = r.size := by
  unfold size at long
  simp only [logged, length_append, length_encode, length_drop, size]
  omega

theorem writeToLog_eq (long : 2 ≤ r.size) : r.writeToLog (replicate r.size 0) = some r.logged := by
  have room : r.size ≤ (replicate r.size (0 : Byte)).length ∧ 2 ≤ (replicate r.size (0 : Byte)).length := by
    simpa using long
  have whole : copy (replicate r.size (0 : Byte)) r.data = r.data := copy_eq (by simp [size])
  have two : copy (slice r.data 0 2) (encode 2 r.size) = encode 2 r.size :=
    copy_eq (by rw [length_slice long, length_encode])
  rw [writeToLog, if_pos room, whole, copyInto, two]
  rfl

def SameButSize (r other : LogRecord) : Prop := other.size = r.size ∧ other.data.drop 2 = r.data.drop 2

theorem logged_sameButSize (long : 2 ≤ r.size) : r.SameButSize ⟨r.logged⟩ :=
  ⟨length_logged long, drop_left' (length_encode ..)⟩

end GoDB.Storage.LogRecord

namespace GoDB.Logging
open Common Lib Storage List LogRecord MemoryLogManager LittleEndian

def startOf (records : List LogRecord) (i : Nat) : Nat := ((records.take i).map size).sum

namespace MemoryLogManager

structure Holds (m : MemoryLogManager) (records : List LogRecord) : Prop where
  long : ∀ r ∈ records, 2 ≤ r.size
  buffer : m.buffer = records.flatMap logged
  room : m.buffer.length ≤ m.cap
  offsets : m.offsets = (range records.length).map (startOf records)
  countdown : m.appendCountdown = -1

theorem holds_new : newMemoryLogManager.Holds [] where
  long := forall_mem_nil _
  buffer := rfl
  room := Nat.zero_le _
  offsets := rfl
  countdown := rfl

variable {m : MemoryLogManager} {records : List LogRecord} {r : LogRecord}

theorem length_flatMap_logged (long : ∀ r ∈ records, 2 ≤ r.size) :
    (records.flatMap logged).length = (records.map size).sum := by
  rw [length_flatMap]
  exact congrArg sum (map_congr_left fun r member => length_logged (long r member))

theorem Holds.length (holds : m.Holds records) : m.buffer.length = startOf records records.length := by
  rw [holds.buffer, length_flatMap_logged holds.long, startOf, take_length]

theorem startOf_append {more : List LogRecord} {i : Nat} (inside : i ≤ records.length) :
    startOf (records ++ more) i = startOf records i := by
  rw [startOf, startOf, take_append_of_le_length inside]

theorem Holds.append (holds : m.Holds records) (long : 2 ≤ r.size) :
    ∃ later, m.append r = some ((startOf records records.length, none), later) ∧ later.Holds (records ++ [r]) := by
  have enabled : m.appendCountdown ≠ 0 := by rw [holds.countdown]; decide
  rw [MemoryLogManager.append, if_neg enabled, writeToLog_eq long, ← holds.length]
  refine ⟨_, rfl, ?_, ?_, ?_, ?_, ?_⟩
  · exact forall_mem_append.mpr ⟨holds.long, forall_mem_singleton.mpr long⟩
  · simp [holds.buffer]
  · have room := holds.room
    simp only [length_append, length_logged long]
    split <;> omega
  · have kept : (range records.length).map (startOf (records ++ [r])) =
        (range records.length).map (startOf records) :=
      map_congr_left fun i inside => startOf_append (mem_range.mp inside).le
    simp only [holds.offsets, length_append, length_singleton, range_succ, map_append, kept,
      map_singleton, startOf_append (le_refl _), holds.length]
  · simp [holds.countdown]

theorem Holds.appendAll {more : List LogRecord} (holds : m.Holds records) (long : ∀ r ∈ more, 2 ≤ r.size) :
    ∃ later, m.appendAll more = some ((range more.length).map fun i =>
        (startOf (records ++ more) (records.length + i), none), later) ∧ later.Holds (records ++ more) := by
  induction more generalizing m records with
  | nil => exact ⟨m, rfl, by simpa using holds⟩
  | cons r rest ih =>
    obtain ⟨first, others⟩ := forall_mem_cons.mp long
    obtain ⟨between, appended, holds'⟩ := holds.append first
    obtain ⟨later, done, holds''⟩ := ih holds' others
    rw [append_assoc, singleton_append] at done holds''
    refine ⟨later, ?_, holds''⟩
    simp only [appendAll, appended, done, Option.bind_eq_bind, Option.bind_some, Option.pure_def,
      length_cons, range_succ_eq_map, map_cons, map_map, add_zero,
      startOf_append (le_refl records.length), length_append, length_nil, Function.comp_def]
    simp only [zero_add, add_assoc, add_comm 1]

theorem Holds.recordAt {before after : List LogRecord} (holds : m.Holds (before ++ r :: after)) :
    m.recordAt (before.map size).sum = some ⟨r.logged.take (r.size % 65536)⟩ := by
  have long := holds.long r (mem_append_right _ mem_cons_self)
  have front : (before.flatMap logged).length = (before.map size).sum :=
    length_flatMap_logged fun other member => holds.long other (mem_append_left _ member)
  have here : m.buffer.drop (before.map size).sum = r.logged ++ after.flatMap logged := by
    rw [holds.buffer, flatMap_append, flatMap_cons, drop_left' front]
  have number : decode ((m.buffer.drop (before.map size).sum).take 2) = r.size % 65536 := by
    rw [here, logged, append_assoc, take_left' (length_encode ..), decode_encode]
    rfl
  have length := length_logged long
  have small : r.size % 65536 ≤ r.size := Nat.mod_le ..
  have enough := congrArg List.length here
  have room := holds.room
  rw [length_drop, length_append, length] at enough
  rw [MemoryLogManager.recordAt, if_pos, number, here, append_assoc, take_append_of_le_length]
  · rwa [length]
  · rw [number, length_drop]
    omega

theorem Holds.getRecord (holds : m.Holds records) {i : Nat} (found : records[i]? = some r) :
    m.getRecord i = some ⟨r.logged.take (r.size % 65536)⟩ := by
  obtain ⟨inside, same⟩ := List.getElem?_eq_some_iff.mp found
  have parts : records = records.take i ++ r :: records.drop (i + 1) := by
    rw [← same, ← drop_eq_getElem_cons inside, take_append_drop]
  have read := holds
  rw [parts] at read
  have offset : m.offsets[i]? = some (startOf records i) := by
    rw [holds.offsets, getElem?_map, getElem?_range inside]
    rfl
  rw [MemoryLogManager.getRecord, offset]
  exact read.recordAt

def placed (offset : Nat) : List LogRecord → List (Nat × LogRecord)
  | [] => []
  | r :: rest => (offset, ⟨r.logged⟩) :: placed (offset + r.size) rest

theorem getElem?_placed (offset i : Nat) (records : List LogRecord) :
    (placed offset records)[i]? = records[i]?.map fun r => (offset + startOf records i, ⟨r.logged⟩) := by
  induction records generalizing offset i with
  | nil => rfl
  | cons r rest ih =>
    cases i with
    | zero => simp [placed, startOf]
    | succ i =>
      simp only [placed, getElem?_cons_succ, ih, startOf, take_succ_cons, map_cons, sum_cons, add_assoc]

theorem length_placed (offset : Nat) (records : List LogRecord) : (placed offset records).length = records.length := by
  induction records generalizing offset with
  | nil => rfl
  | cons r rest ih => simp only [placed, length_cons, ih]

theorem next_at {it : MemoryLogIterator} {offset : Nat} (here : it.currOffset + it.current.size = offset) :
    m.next it = if m.buffer.length ≤ offset then some (false, { it with currOffset := offset })
      else (m.recordAt offset).map fun current => (true, ⟨offset, current⟩) := by
  have moved : (if it.current.isNil then it.currOffset else it.currOffset + it.current.size) = offset := by
    split
    next nil =>
      have empty : it.current.size = 0 := length_eq_zero_iff.mpr (isEmpty_iff.mp nil)
      omega
    next => exact here
  rw [next, moved]
  split
  next => rfl
  next => cases m.recordAt offset <;> rfl

theorem Holds.walk {before after : List LogRecord} (holds : m.Holds (before ++ after)) (small : ∀ r ∈ after, r.size < 65536)
    {it : MemoryLogIterator} (here : it.currOffset + it.current.size = (before.map size).sum) :
    m.walk.Yields it (placed (before.map size).sum after) := by
  induction after generalizing before it with
  | nil =>
    have length := holds.length
    rw [startOf, append_nil, take_length] at length
    have finished := @next_at m it _ here
    rw [if_pos length.le] at finished
    exact .done finished
  | cons r rest ih =>
    obtain ⟨fits, others⟩ := forall_mem_cons.mp small
    have long := holds.long r (mem_append_right _ mem_cons_self)
    have length := holds.length
    rw [startOf, take_length, map_append, sum_append, map_cons, sum_cons] at length
    have read := holds.recordAt
    rw [Nat.mod_eq_of_lt fits, take_of_length_le (length_logged long).le] at read
    have advanced := @next_at m it _ here
    rw [if_neg (by omega), read] at advanced
    have total : ((before ++ [r]).map size).sum = (before.map size).sum + r.size := by simp
    rw [placed, ← total]
    refine .more advanced rfl (ih (by rwa [append_assoc]) others ?_)
    rw [total]
    exact congrArg _ (length_logged long)

end MemoryLogManager

/-- Appending the records to a new log returns the places where they start, a walk
from the first place returns the records in order with these places, and so does
reading each of them by its number. -/
def RoundTrip (records : List LogRecord) : Prop :=
  ∃ m, newMemoryLogManager.appendAll records = some ((range records.length).map fun i => (startOf records i, none), m) ∧
    (∃ items, m.walk.Yields (m.iterator 0) items ∧ items.length = records.length ∧
      ∀ i r, records[i]? = some r → ∃ read, items[i]? = some (startOf records i, read) ∧ r.SameButSize read) ∧
    ∀ i r, records[i]? = some r → ∃ read, m.getRecord i = some read ∧ r.SameButSize read

theorem round_trip_iff {records : List LogRecord} (built : ∀ r ∈ records, r.Built) :
    RoundTrip records ↔ ∀ r ∈ records, r.size < 65536 := by
  have long : ∀ r ∈ records, 2 ≤ r.size := fun r member =>
    le_trans (by decide) (built r member).headerSize_le
  obtain ⟨m, appended, holds⟩ := holds_new.appendAll long
  simp only [nil_append, length_nil, zero_add] at appended holds
  constructor
  · rintro ⟨m', appended', -, readBack⟩ r member
    cases appended.symm.trans appended'
    obtain ⟨i, found⟩ := mem_iff_getElem?.mp member
    obtain ⟨read, gotten, same⟩ := readBack i r found
    cases (holds.getRecord found).symm.trans gotten
    -- The bytes that are read are as many as the number at the start says.
    have cut := same.1
    rw [size, length_take, length_logged (long r member)] at cut
    have below := Nat.mod_lt r.size (show 0 < 65536 by decide)
    omega
  · intro small
    have whole : ∀ r ∈ records, r.logged.take (r.size % 65536) = r.logged := fun r member => by
      rw [Nat.mod_eq_of_lt (small r member), take_of_length_le (length_logged (long r member)).le]
    refine ⟨m, appended, ⟨placed 0 records, ?_, ?_, fun i r found => ?_⟩, fun i r found => ?_⟩
    · exact @MemoryLogManager.Holds.walk m [] records holds small (m.iterator 0) rfl
    · exact length_placed 0 records
    · refine ⟨⟨r.logged⟩, ?_, logged_sameButSize (long r (mem_of_getElem? found))⟩
      rw [getElem?_placed, found, zero_add]
      rfl
    · have member := mem_of_getElem? found
      refine ⟨⟨r.logged⟩, ?_, logged_sameButSize (long r member)⟩
      rw [holds.getRecord found, whole r member]

theorem begin_and_commit_read_back : ∃ first last, newBeginTransactionRecord (replicate 16 0) 7 = some first ∧
    newCommitRecord (replicate 16 0) 7 = some last ∧ RoundTrip [first, last] := by
  have begun : newBeginTransactionRecord (replicate 16 0) 7 =
      some ⟨[0, 0, 0, 0, 0, 0, 1, 0, 7, 0, 0, 0, 0, 0, 0, 0]⟩ := by decide
  have committed : newCommitRecord (replicate 16 0) 7 = some ⟨[0, 0, 0, 0, 0, 0, 2, 0, 7, 0, 0, 0, 0, 0, 0, 0]⟩ := by decide
  refine ⟨_, _, begun, committed, (round_trip_iff ?_).mpr (by decide)⟩
  exact forall_mem_cons.mpr ⟨.beginTransaction begun, forall_mem_singleton.mpr (.commit committed)⟩

/-- A checkpoint whose record has 65536 bytes: it is read back as an empty record, and
the iterator returns that record again and again. -/
theorem large_checkpoint_lost : ∃ empty r m, newEndCheckpointRecord (replicate 65536 0) 65528 = some empty ∧
    empty.fillCheckpointData (replicate 65528 0) = some r ∧ r.size = 65536 ∧
    newMemoryLogManager.appendAll [r] = some ([(0, none)], m) ∧ m.getRecord 0 = some ⟨[]⟩ ∧
    m.next (m.iterator 0) = some (true, m.iterator 0) := by
  obtain ⟨empty, r, made, filled, size⟩ := exists_endCheckpoint (replicate 65528 0)
  rw [length_replicate] at made size
  have long : ∀ r' ∈ [r], 2 ≤ r'.size := forall_mem_singleton.mpr (by rw [size]; decide)
  obtain ⟨m, appended, holds⟩ := holds_new.appendAll long
  have none : r.logged.take (r.size % 65536) = [] := by rw [size]; rfl
  have read : m.recordAt 0 = some ⟨[]⟩ := none ▸ @MemoryLogManager.Holds.recordAt m r [] [] holds
  have length := holds.length
  refine ⟨empty, r, m, made, filled, size, appended, none ▸ @MemoryLogManager.Holds.getRecord m _ r holds 0 rfl, ?_⟩
  rw [next_at (show _ = 0 from rfl), read, if_neg]
  · rfl
  · rw [length, startOf, take_length]
    simp [size, headerSize]

end GoDB.Logging
