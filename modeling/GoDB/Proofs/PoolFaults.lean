import GoDB.Proofs.VictimSearch

/-! What the pool keeps when the storage manager fails. A victim whose old page cannot be saved is
given up with its bytes, but stays marked as dirty under no name: it can then never be written. -/

namespace GoDB.Storage.BufferPool
open Common Lib PoolSystem List

variable {τ : Type} {n : Nat}

/-- The page table and the frames name each other, and only pages that exist. -/
structure Consistent (pages : PageID → Bool) (pool : BufferPool τ n) : Prop where
  entry : ∀ page frame, pool.pageTable page = some frame → (pool.frames frame).pageID = page ∧ pages page = true
  mapped : ∀ frame, pages (pool.frames frame).pageID = true → pool.pageTable (pool.frames frame).pageID = some frame
  unnamed : ∀ frame, pages (pool.frames frame).pageID = false →
    (pool.frames frame).pageID = ⟨0, 0⟩ ∧ (pool.frames frame).pinCount = 0

/-- A frame waits to be written under no name. -/
def Poisoned (pages : PageID → Bool) (pool : BufferPool τ n) : Prop :=
  ∃ frame, pages (pool.frames frame).pageID = false ∧ (pool.frames frame).isDirty = true

section Replace

structure Replaced (before after : BufferPool τ n) (victim : Fin n) (page : PageID) (entry : Option (Fin n)) : Prop where
  unpinned : (before.frames victim).pinCount = 0
  absent : before.pageTable page = none
  others : ∀ other ≠ victim, SameFrame (before.frames other) (after.frames other)
  pageTable : ∀ other, after.pageTable other =
    if other = page then entry else if other = (before.frames victim).pageID then none else before.pageTable other
  disk : ∀ other ≠ (before.frames victim).pageID, after.disk other = before.disk other

structure Dropped (after : BufferPool τ n) (victim : Fin n) : Prop where
  name : (after.frames victim).pageID = ⟨0, 0⟩
  unpinned : (after.frames victim).pinCount = 0

structure Flawless (pages : PageID → Bool) (faults : GetFaults) (old : PageID) : Prop where
  file : faults.oldFile = false
  write : faults.oldWrite = none
  named : pages old = true

structure Saved (before after : BufferPool τ n) (victim : Fin n) : Prop where
  clean : (after.frames victim).isDirty = false
  disk : after.disk (before.frames victim).pageID =
    if (before.frames victim).isDirty then (before.frames victim).bytes else before.disk (before.frames victim).pageID

inductive Got (pages : PageID → Bool) (thread : τ) (before : BufferPool τ n) (page : PageID) (faults : GetFaults) :
    GetResult n × BufferPool τ n → Prop where
  | hit {frame} (cached : before.pageTable page = some frame) :
      Got pages thread before page faults (.returned frame, before.setFrame frame .pin)
  | stuck {after} (absent : before.pageTable page = none) (full : ∀ frame, (before.frames frame).pinCount ≠ 0)
      (aged : Aged before after) : Got pages thread before page faults (.waits, after)
  | lost {victim after} (found : (before.findVictim thread).1 = some victim) (replaced : Replaced before after victim page none)
      (dropped : Dropped after victim) (dirty : (before.frames victim).isDirty = true)
      (marked : (after.frames victim).isDirty = true)
      (cause : faults.oldFile = true ∨ faults.oldWrite.isSome = true ∨ pages (before.frames victim).pageID = false) :
      Got pages thread before page faults (.failed, after)
  | unread {victim after} (found : (before.findVictim thread).1 = some victim)
      (replaced : Replaced before after victim page none) (dropped : Dropped after victim)
      (saved : Saved before after victim)
      (flawless : (before.frames victim).isDirty = true → Flawless pages faults (before.frames victim).pageID)
      (cause : faults.newFile = true ∨ faults.newRead.isSome = true ∨ pages page = false) :
      Got pages thread before page faults (.failed, after)
  | read {victim after} (found : (before.findVictim thread).1 = some victim)
      (replaced : Replaced before after victim page (some victim)) (saved : Saved before after victim)
      (flawless : (before.frames victim).isDirty = true → Flawless pages faults (before.frames victim).pageID)
      (name : (after.frames victim).pageID = page) (named : pages page = true)
      (bytes : (after.frames victim).bytes = before.disk page) :
      Got pages thread before page faults (.returned victim, after)

variable {pages : PageID → Bool} {thread : τ} {pool middle : BufferPool τ n} {victim : Fin n} {page old : PageID}
  {faults : GetFaults}

inductive Saving (pages : PageID → Bool) (pool : BufferPool τ n) (victim : Fin n) (old : PageID) (faults : GetFaults) :
    Bool × BufferPool τ n → Prop where
  | failed {after} (dirty : (pool.frames victim).isDirty = true) (frames : after.frames = pool.frames)
      (pageTable : after.pageTable = pool.pageTable) (disk : ∀ other ≠ old, after.disk other = pool.disk other)
      (cause : faults.oldFile = true ∨ faults.oldWrite.isSome = true ∨ pages old = false) :
      Saving pages pool victim old faults (false, after)
  | done {after} (others : ∀ other ≠ victim, after.frames other = pool.frames other)
      (cleaned : after.frames victim = { pool.frames victim with isDirty := false })
      (pageTable : after.pageTable = pool.pageTable) (disk : ∀ other ≠ old, after.disk other = pool.disk other)
      (saved : after.disk old = if (pool.frames victim).isDirty then (pool.frames victim).bytes else pool.disk old)
      (flawless : (pool.frames victim).isDirty = true → Flawless pages faults old) :
      Saving pages pool victim old faults (true, after)

theorem saving (pages : PageID → Bool) (pool : BufferPool τ n) (victim : Fin n) (old : PageID) (faults : GetFaults) :
    Saving pages pool victim old faults (pool.saveOld pages victim old faults) := by
  unfold saveOld writePage
  split
  next dirty =>
    split
    next file => exact .failed dirty rfl rfl (fun _ _ => rfl) (.inl file)
    next opened =>
      by_cases present : pages old = true
      · rw [if_pos present]
        cases written : faults.oldWrite with
        | none =>
          refine .done (fun other apart => ?_) ?_ rfl (fun other apart => ?_) ?_ ?_
          · rw [frames_setFrame_of_ne _ _ _ apart]
            rfl
          · rw [frames_setFrame_self]
            rfl
          · exact disk_setDisk_of_ne _ _ _ apart
          · rw [if_pos dirty]
            exact disk_setDisk_self ..
          · exact fun _ => ⟨Bool.eq_false_iff.mpr opened, written, present⟩
        | some torn =>
          refine .failed dirty rfl rfl (fun other apart => disk_setDisk_of_ne _ _ _ apart) ?_
          exact .inr (.inl (by rw [written]; rfl))
      · rw [if_neg present]
        exact .failed dirty rfl rfl (fun _ _ => rfl) (.inr (.inr (Bool.eq_false_iff.mpr present)))
  next clean =>
    refine .done (fun _ _ => rfl) ?_ rfl (fun _ _ => rfl) ?_ ?_
    · rw [← Bool.eq_false_iff.mpr clean]
    · rw [if_neg clean]
    · exact fun dirty => absurd dirty clean

inductive Reading (pages : PageID → Bool) (pool : BufferPool τ n) (victim : Fin n) (page : PageID) (faults : GetFaults) :
    Bool × BufferPool τ n → Prop where
  | failed {bytes} (cause : faults.newFile = true ∨ faults.newRead.isSome = true ∨ pages page = false) :
      Reading pages pool victim page faults (false, pool.setFrame victim fun taken => { taken with bytes })
  | done (named : pages page = true) :
      Reading pages pool victim page faults (true, pool.setFrame victim fun taken => { taken with bytes := pool.disk page })

theorem setFrame_same (pool : BufferPool τ n) (frame : Fin n) :
    (pool.setFrame frame fun taken => { taken with bytes := (pool.frames frame).bytes }) = pool := by
  unfold setFrame
  rw [Function.update_eq_self]

theorem reading (pages : PageID → Bool) (pool : BufferPool τ n) (victim : Fin n) (page : PageID)
    (faults : GetFaults) : Reading pages pool victim page faults (pool.readNew pages victim page faults) := by
  have unread (cause : faults.newFile = true ∨ faults.newRead.isSome = true ∨ pages page = false) :
      Reading pages pool victim page faults (false, pool) := by
    have failed := @Reading.failed τ n pages pool victim page faults (pool.frames victim).bytes cause
    rwa [setFrame_same] at failed
  unfold readNew readPage
  split
  next file => exact unread (.inl file)
  next =>
    by_cases present : pages page = true
    · rw [if_pos present]
      cases read : faults.newRead with
      | none => exact .done present
      | some torn => exact .failed (.inr (.inl (by rw [read]; rfl)))
    · rw [if_neg present]
      exact unread (.inr (.inr (Bool.eq_false_iff.mpr present)))

structure Assigned (pool taken : BufferPool τ n) (victim : Fin n) (page : PageID) : Prop where
  others : ∀ other ≠ victim, SameFrame (pool.frames other) (taken.frames other)
  bytes : (taken.frames victim).bytes = (pool.frames victim).bytes
  isDirty : (taken.frames victim).isDirty = (pool.frames victim).isDirty
  name : (taken.frames victim).pageID = page
  pageTable : ∀ other ≠ page, taken.pageTable other = pool.pageTable other
  entry : taken.pageTable page = some victim
  disk : taken.disk = pool.disk

theorem assigned_claim (aged : Aged pool middle) (thread : τ) (victim : Fin n) (page : PageID) :
    Assigned pool ((middle.claim thread victim).assign victim page) victim page := by
  obtain ⟨sameBytes, -, -, sameDirty, -⟩ := aged.frames victim
  refine ⟨fun other apart => ?_, ?_, ?_, ?_, fun other apart => ?_, ?_, aged.disk⟩
  · have same : ((middle.claim thread victim).assign victim page).frames other = middle.frames other := by
      simp [assign, claim, frames_setFrame_of_ne _ _ _ apart]
    rw [same]
    exact aged.frames other
  · simpa [assign, claim] using sameBytes
  · simpa [assign, claim] using sameDirty
  · simp [assign]
  · rw [assign, pageTable_advanceHand, pageTable_store_of_ne _ _ _ apart]
    exact congrFun aged.pageTable other
  · simp [assign]

variable {taken after : BufferPool τ n}

theorem replaced_abandon (assigned : Assigned pool taken victim page) (unpinned : (pool.frames victim).pinCount = 0)
    (absent : pool.pageTable page = none) (others : ∀ other ≠ victim, after.frames other = taken.frames other)
    (pageTable : ∀ other, other ≠ page → other ≠ (pool.frames victim).pageID →
      after.pageTable other = taken.pageTable other)
    (gone : after.pageTable page = none ∧ after.pageTable (pool.frames victim).pageID = none)
    (disk : ∀ other ≠ (pool.frames victim).pageID, after.disk other = taken.disk other) :
    Replaced pool (after.abandon victim) victim page none := by
  refine ⟨unpinned, absent, fun other apart => ?_, fun other => ?_, fun other apart => ?_⟩
  · rw [abandon, frames_setFrame_of_ne _ _ _ apart, others other apart]
    exact assigned.others other apart
  · rw [abandon, pageTable_setFrame]
    split
    next here => rw [here, gone.1]
    next elsewhere =>
      split
      next here => rw [here, gone.2]
      next apart => rw [pageTable other elsewhere apart, assigned.pageTable other elsewhere]
  · rw [abandon, disk_setFrame, disk other apart, assigned.disk]

theorem dropped_abandon (after : BufferPool τ n) (victim : Fin n) : Dropped (after.abandon victim) victim :=
  ⟨by simp [abandon], by simp [abandon]⟩

section
variable (agrees : Consistent pages pool)

include agrees

theorem got_load (found : (pool.findVictim thread).1 = some victim) (absent : pool.pageTable page = none)
    (unpinned : (pool.frames victim).pinCount = 0) (assigned : Assigned pool taken victim page)
    (others : ∀ other ≠ victim, after.frames other = taken.frames other)
    (cleaned : after.frames victim = { taken.frames victim with isDirty := false })
    (pageTable : after.pageTable = taken.pageTable)
    (disk : ∀ other ≠ (pool.frames victim).pageID, after.disk other = taken.disk other)
    (saved : after.disk (pool.frames victim).pageID =
      if (taken.frames victim).isDirty then (taken.frames victim).bytes else taken.disk (pool.frames victim).pageID)
    (flawless : (taken.frames victim).isDirty = true → Flawless pages faults (pool.frames victim).pageID) :
    Got pages thread pool page faults (after.load pages victim page (pool.frames victim).pageID faults) := by
  rw [assigned.isDirty, assigned.bytes, assigned.disk] at saved
  rw [assigned.isDirty] at flawless
  have reads := reading pages ((after.store (pool.frames victim).pageID none).setFrame victim fun taken =>
    { taken with refCount := 1 }) victim page faults
  unfold load
  dsimp only
  generalize readNew pages _ victim page faults = result at reads ⊢
  cases reads with
  | @failed bytes cause =>
    refine .unread found ?_ (dropped_abandon ..) ⟨?_, ?_⟩ flawless cause
    · refine replaced_abandon assigned unpinned absent (fun other apart => ?_) (fun other elsewhere apart => ?_) ?_ disk
      · simp only [frames_store, frames_setFrame_of_ne _ _ _ apart, others other apart]
      · rw [pageTable_store_of_ne _ _ _ elsewhere, pageTable_setFrame, pageTable_setFrame,
          pageTable_store_of_ne _ _ _ apart, pageTable]
      · refine ⟨pageTable_store_self .., ?_⟩
        by_cases same : (pool.frames victim).pageID = page
        · rw [same, pageTable_store_self]
        · rw [pageTable_store_of_ne _ _ _ same, pageTable_setFrame, pageTable_setFrame, pageTable_store_self]
    · simp [abandon, cleaned]
    · exact saved
  | done named =>
    -- The page has a name of its own, so it is not the one that was saved.
    have apart : page ≠ (pool.frames victim).pageID := by
      rintro rfl
      rw [agrees.mapped victim named] at absent
      cases absent
    refine .read found ⟨unpinned, absent, fun other apart => ?_, fun other => ?_, fun other apart => ?_⟩ ⟨?_, ?_⟩
      flawless ?_ named ?_
    · simp only [frames_store, frames_setFrame_of_ne _ _ _ apart, others other apart]
      exact assigned.others other apart
    · simp only [pageTable_setFrame]
      split
      next here =>
        rw [here, pageTable_store_of_ne _ _ _ apart, pageTable, assigned.entry]
      next elsewhere =>
        split
        next here => rw [here, pageTable_store_self]
        next other' => rw [pageTable_store_of_ne _ _ _ other', pageTable, assigned.pageTable other elsewhere]
    · rw [← assigned.disk]
      exact disk other apart
    · simp [cleaned]
    · exact saved
    · simp [cleaned, assigned.name]
    · simp only [frames_setFrame_self, disk_setFrame, disk_store, disk page apart, assigned.disk]

theorem got_replace (found : (pool.findVictim thread).1 = some victim) (absent : pool.pageTable page = none)
    (aged : Aged pool middle) (unpinned : (middle.frames victim).pinCount = 0) :
    Got pages thread pool page faults ((middle.claim thread victim).replace pages victim page faults) := by
  rw [(aged.frames victim).pinCount] at unpinned
  have name : ((middle.claim thread victim).frames victim).pageID = (pool.frames victim).pageID := by
    rw [claim, frames_setFrame_self, (aged.frames victim).pageID]
  have assigned := assigned_claim aged thread victim page
  have saves := saving pages ((middle.claim thread victim).assign victim page) victim (pool.frames victim).pageID faults
  unfold replace
  rw [name]
  dsimp only
  generalize (middle.claim thread victim).assign victim page = taken at assigned saves ⊢
  generalize taken.saveOld pages victim (pool.frames victim).pageID faults = result at saves ⊢
  cases saves with
  | @failed after dirty frames pageTable disk cause =>
    refine .lost found ?_ (dropped_abandon ..) (assigned.isDirty ▸ dirty) ?_ cause
    · refine replaced_abandon assigned unpinned absent (fun _ _ => congrFun frames _) (fun other elsewhere apart => ?_) ?_ disk
      · rw [pageTable_store_of_ne _ _ _ apart, pageTable_store_of_ne _ _ _ elsewhere, pageTable]
      · refine ⟨?_, pageTable_store_self ..⟩
        by_cases same : page = (pool.frames victim).pageID
        · rw [← same, pageTable_store_self]
        · rw [pageTable_store_of_ne _ _ _ same, pageTable_store_self]
    · rw [abandon, frames_setFrame_self, frames_store, frames_store, frames]
      exact dirty
  | @done after others cleaned pageTable disk saved flawless =>
    exact got_load agrees found absent unpinned assigned others cleaned pageTable disk saved flawless

theorem got_getPage (thread : τ) (page : PageID)
    (faults : GetFaults) : Got pages thread pool page faults (pool.getPage pages thread page faults) := by
  unfold getPage
  split
  next frame cached =>
    rw [if_pos (agrees.entry page frame cached).1]
    exact .hit cached
  next absent =>
    have searched := searched_findVictim thread pool
    have nobody := findVictim_eq_none_iff thread pool
    split
    next victim claimed found =>
      rw [found] at searched
      obtain ⟨middle, aged, unpinned, rfl⟩ := searched
      exact got_replace agrees (by rw [found]) absent aged unpinned
    next after found =>
      rw [found] at searched nobody
      exact .stuck absent (nobody.mp rfl) searched

end

end Replace

section Flush
variable {pages : PageID → Bool} {pool after : BufferPool τ n} {faults : Fin n → FlushFaults}

/-- Frames may have become clean, but not those without a name. -/
structure Flushed (pages : PageID → Bool) (before after : BufferPool τ n) : Prop where
  frames : ∀ frame, after.frames frame = { before.frames frame with isDirty := (after.frames frame).isDirty }
  cleared : ∀ frame, (after.frames frame).isDirty = true → (before.frames frame).isDirty = true
  stubborn : ∀ frame, pages (before.frames frame).pageID = false →
    (after.frames frame).isDirty = (before.frames frame).isDirty
  pageTable : after.pageTable = before.pageTable

theorem Flushed.refl (pool : BufferPool τ n) : Flushed pages pool pool :=
  ⟨fun _ => rfl, fun _ => id, fun _ _ => rfl, rfl⟩

theorem Flushed.pageID (flushed : Flushed pages pool after) (frame : Fin n) :
    (after.frames frame).pageID = (pool.frames frame).pageID := by rw [flushed.frames]

theorem Flushed.trans {middle : BufferPool τ n} (earlier : Flushed pages pool middle) (later : Flushed pages middle after) :
    Flushed pages pool after := by
  refine ⟨fun frame => ?_, fun frame dirty => earlier.cleared frame (later.cleared frame dirty), fun frame unnamed => ?_,
    later.pageTable.trans earlier.pageTable⟩
  · rw [later.frames frame, earlier.frames frame]
  · rw [later.stubborn frame (by rwa [earlier.pageID]), earlier.stubborn frame unnamed]

inductive Flushing (pages : PageID → Bool) (pool : BufferPool τ n) (frame : Fin n) (fault : FlushFaults) :
    Bool × BufferPool τ n → Prop where
  | clean (unchanged : (pool.frames frame).isDirty = false) : Flushing pages pool frame fault (true, pool)
  | written {bytes} (named : pages (pool.frames frame).pageID = true) : Flushing pages pool frame fault
      (true, (pool.setDisk (pool.frames frame).pageID bytes).setFrame frame fun flushed => { flushed with isDirty := false })
  | failed {later : BufferPool τ n} (dirty : (pool.frames frame).isDirty = true) (frames : later.frames = pool.frames)
      (pageTable : later.pageTable = pool.pageTable) (cause : fault ≠ .none ∨ pages (pool.frames frame).pageID = false) :
      Flushing pages pool frame fault (false, later)

theorem flushing (pages : PageID → Bool) (pool : BufferPool τ n) (frame : Fin n) (fault : FlushFaults) :
    Flushing pages pool frame fault (pool.flushFrame pages frame fault) := by
  unfold flushFrame writePage
  split
  next dirty =>
    split
    next file =>
      refine .failed dirty rfl rfl (.inl ?_)
      rintro rfl
      cases file
    next =>
      by_cases named : pages (pool.frames frame).pageID = true
      · rw [if_pos named]
        cases write : fault.write with
        | none => exact .written named
        | some torn =>
          refine .failed dirty rfl rfl (.inl ?_)
          rintro rfl
          cases write
      · rw [if_neg named]
        exact .failed dirty rfl rfl (.inr (Bool.eq_false_iff.mpr named))
  next clean => exact .clean (Bool.eq_false_iff.mpr clean)

theorem flushed_of_frames (frames : after.frames = pool.frames) (pageTable : after.pageTable = pool.pageTable) :
    Flushed pages pool after :=
  ⟨fun _ => by rw [frames], fun _ => by rw [frames]; exact id, fun _ _ => by rw [frames], pageTable⟩

theorem flushed_written {frame : Fin n} {bytes : PageBytes} (named : pages (pool.frames frame).pageID = true) :
    Flushed pages pool ((pool.setDisk (pool.frames frame).pageID bytes).setFrame frame
      fun flushed => { flushed with isDirty := false }) := by
  refine ⟨fun other => ?_, fun other => ?_, fun other unnamed => ?_, rfl⟩
  all_goals by_cases same : other = frame
  · rw [same, frames_setFrame_self, frames_setDisk]
  · rw [frames_setFrame_of_ne _ _ _ same, frames_setDisk]
  · rw [same, frames_setFrame_self]
    exact nofun
  · rw [frames_setFrame_of_ne _ _ _ same, frames_setDisk]
    exact id
  · rw [same, named] at unnamed
    cases unnamed
  · rw [frames_setFrame_of_ne _ _ _ same, frames_setDisk]

theorem flushed_flushFrames (pages : PageID → Bool) (faults : Fin n → FlushFaults) (frames : List (Fin n))
    (pool : BufferPool τ n) : Flushed pages pool (pool.flushFrames pages faults frames).2 := by
  induction frames generalizing pool with
  | nil => exact Flushed.refl pool
  | cons frame rest ih =>
    have flushes := flushing pages pool frame (faults frame)
    unfold flushFrames
    generalize pool.flushFrame pages frame (faults frame) = result at flushes ⊢
    cases flushes with
    | clean => exact ih pool
    | written named => exact (flushed_written named).trans (ih _)
    | failed _ frames pageTable => exact flushed_of_frames frames pageTable

theorem flushFrames_none_iff (frames : List (Fin n)) (pool : BufferPool τ n) :
    (pool.flushFrames pages (fun _ => .none) frames).1 = true ↔
      ∀ frame ∈ frames, (pool.frames frame).isDirty = true → pages (pool.frames frame).pageID = true := by
  induction frames generalizing pool with
  | nil => simp [flushFrames]
  | cons frame rest ih =>
    have flushes := flushing pages pool frame .none
    unfold flushFrames
    rw [forall_mem_cons]
    generalize pool.flushFrame pages frame .none = result at flushes ⊢
    cases flushes with
    | clean unchanged =>
      rw [ih]
      simp [unchanged]
    | @written bytes named =>
      have flushed := @flushed_written τ n pages pool frame bytes named
      rw [ih, and_iff_right fun _ => named]
      refine forall₂_congr fun other _ => ?_
      rw [flushed.pageID]
      by_cases unnamed : pages (pool.frames other).pageID = false
      · rw [flushed.stubborn other unnamed]
      · rw [Bool.not_eq_false] at unnamed
        simp [unnamed]
    | failed dirty _ _ cause =>
      rw [or_iff_right (fun other => other rfl)] at cause
      simp [dirty, cause]

theorem flushed_flushAllPages (pages : PageID → Bool) (pool : BufferPool τ n) (faults : Fin n → FlushFaults) :
    Flushed pages pool (pool.flushAllPages pages faults).2 := flushed_flushFrames ..

theorem flushAllPages_none_iff (pages : PageID → Bool) (pool : BufferPool τ n) :
    (pool.flushAllPages pages fun _ => .none).1 = true ↔ ¬ Poisoned pages pool := by
  rw [flushAllPages, flushFrames_none_iff]
  simp only [mem_finRange, forall_const, Poisoned, not_exists, not_and, Bool.not_eq_true]
  refine forall_congr' fun frame => ⟨fun writable unnamed => ?_, fun clean dirty => ?_⟩
  · by_contra dirty
    rw [writable (Bool.not_eq_false _ ▸ dirty)] at unnamed
    cases unnamed
  · by_contra unnamed
    rw [clean (Bool.not_eq_true _ ▸ unnamed)] at dirty
    cases dirty

end Flush

section Calls
variable {pages : PageID → Bool} {thread : τ} {before after : BufferPool τ n} {call : PoolCall n} {page : PageID}
  {faults : GetFaults} {victim : Fin n}

def Pinned (pool : BufferPool τ n) : PoolCall n → Prop
  | .unpinPage frame _ | .modify frame _ => (pool.frames frame).pinCount ≠ 0
  | .getPage _ _ | .flushAllPages _ => True

/-- A page is to be read into a dirty frame, and the page in that frame cannot be written. -/
def WriteBackFails (thread : τ) (pool : BufferPool τ n) (call : PoolCall n) : Prop :=
  ∃ page faults victim, call = .getPage page faults ∧ pool.pageTable page = none ∧
    (pool.findVictim thread).1 = some victim ∧ (pool.frames victim).isDirty = true ∧
    (faults.oldFile = true ∨ faults.oldWrite.isSome = true)

/-- No frame changes its page, and those without one stay as they are. -/
structure Calm (pages : PageID → Bool) (before after : BufferPool τ n) : Prop where
  names : ∀ frame, (after.frames frame).pageID = (before.frames frame).pageID
  nameless : ∀ frame, pages (before.frames frame).pageID = false →
    (after.frames frame).pinCount = (before.frames frame).pinCount ∧
      (after.frames frame).isDirty = (before.frames frame).isDirty
  pageTable : after.pageTable = before.pageTable

theorem Calm.consistent (calm : Calm pages before after) (agrees : Consistent pages before) :
    Consistent pages after := by
  refine ⟨fun page frame cached => ?_, fun frame named => ?_, fun frame unnamed => ?_⟩
  · rw [calm.names]
    exact agrees.entry page frame (calm.pageTable ▸ cached)
  · rw [calm.names] at named ⊢
    rw [calm.pageTable, agrees.mapped frame named]
  · rw [calm.names] at unnamed ⊢
    rw [(calm.nameless frame unnamed).1]
    exact agrees.unnamed frame unnamed

theorem Calm.poisoned_iff (calm : Calm pages before after) : Poisoned pages after ↔ Poisoned pages before := by
  refine exists_congr fun frame => ?_
  rw [calm.names]
  refine and_congr_right fun unnamed => ?_
  rw [(calm.nameless frame unnamed).2]

variable {frame : Fin n} {change : PageFrame τ → PageFrame τ}

theorem calm_setFrame
    (named : pages (before.frames frame).pageID = true) (keeps : ∀ framed, (change framed).pageID = framed.pageID) :
    Calm pages before (before.setFrame frame change) := by
  refine ⟨fun other => ?_, fun other unnamed => ?_, rfl⟩
  all_goals by_cases same : other = frame
  · rw [same, frames_setFrame_self, keeps]
  · rw [frames_setFrame_of_ne _ _ _ same]
  · rw [same, named] at unnamed
    cases unnamed
  · rw [frames_setFrame_of_ne _ _ _ same]
    exact ⟨rfl, rfl⟩

theorem Aged.calm (aged : Aged before after) : Calm pages before after :=
  ⟨fun frame => (aged.frames frame).pageID, fun frame _ => ⟨(aged.frames frame).pinCount, (aged.frames frame).isDirty⟩,
    aged.pageTable⟩

theorem Flushed.calm (flushed : Flushed pages before after) : Calm pages before after :=
  ⟨flushed.pageID, fun frame unnamed => ⟨by rw [flushed.frames], flushed.stubborn frame unnamed⟩, flushed.pageTable⟩

variable {entry : Option (Fin n)}

theorem Replaced.entry_of_ne (replaced : Replaced before after victim page entry)
    (agrees : Consistent pages before) (apart : frame ≠ victim)
    (named : pages (before.frames frame).pageID = true) :
    after.pageTable (before.frames frame).pageID = some frame := by
  have cached := agrees.mapped frame named
  have elsewhere : (before.frames frame).pageID ≠ page := fun same => by
    rw [same, replaced.absent] at cached
    cases cached
  have apart : (before.frames frame).pageID ≠ (before.frames victim).pageID := fun same => by
    have mine := agrees.mapped victim (same ▸ named)
    rw [same] at cached
    exact apart (Option.some.inj (cached.symm.trans mine))
  rw [replaced.pageTable, if_neg elsewhere, if_neg apart, cached]

theorem Replaced.consistent {entry : Option (Fin n)} (replaced : Replaced before after victim page entry)
    (agrees : Consistent pages before)
    (own : ∀ frame, entry = some frame → frame = victim ∧ (after.frames victim).pageID = page ∧ pages page = true)
    (mapped : pages (after.frames victim).pageID = true → after.pageTable (after.frames victim).pageID = some victim)
    (unnamed : pages (after.frames victim).pageID = false →
      (after.frames victim).pageID = ⟨0, 0⟩ ∧ (after.frames victim).pinCount = 0) : Consistent pages after := by
  refine ⟨fun other frame cached => ?_, fun frame named => ?_, fun frame nameless => ?_⟩
  · rw [replaced.pageTable] at cached
    split at cached
    next here =>
      obtain ⟨rfl, name, named⟩ := own frame cached
      exact ⟨name.trans here.symm, here ▸ named⟩
    next elsewhere =>
      split at cached
      next => cases cached
      next apart =>
        obtain ⟨name, named⟩ := agrees.entry other frame cached
        have apart : frame ≠ victim := by
          rintro rfl
          exact apart name.symm
        rw [(replaced.others frame apart).pageID]
        exact ⟨name, named⟩
  · by_cases same : frame = victim
    · subst same
      exact mapped named
    · rw [(replaced.others frame same).pageID] at named ⊢
      exact replaced.entry_of_ne agrees same named
  · by_cases same : frame = victim
    · subst same
      exact unnamed nameless
    · have kept := replaced.others frame same
      rw [kept.pageID] at nameless
      rw [kept.pageID, kept.pinCount]
      exact agrees.unnamed frame nameless

theorem Replaced.consistent_of_dropped (reserved : pages ⟨0, 0⟩ = false)
    (replaced : Replaced before after victim page none) (agrees : Consistent pages before)
    (dropped : Dropped after victim) : Consistent pages after := by
  refine replaced.consistent agrees nofun (fun named => ?_) fun _ => ⟨dropped.name, dropped.unpinned⟩
  rw [dropped.name, reserved] at named
  cases named

theorem Replaced.poisoned_iff (replaced : Replaced before after victim page entry)
    (saved : Saved before after victim)
    (flawless : (before.frames victim).isDirty = true → Flawless pages faults (before.frames victim).pageID) :
    Poisoned pages after ↔ Poisoned pages before := by
  refine exists_congr fun frame => ?_
  by_cases same : frame = victim
  · subst same
    refine iff_of_false (fun ⟨_, dirty⟩ => ?_) fun ⟨unnamed, dirty⟩ => ?_
    · rw [saved.clean] at dirty
      cases dirty
    · rw [(flawless dirty).named] at unnamed
      cases unnamed
  · rw [(replaced.others frame same).pageID, (replaced.others frame same).isDirty]

inductive Effect (pages : PageID → Bool) (thread : τ) (before : BufferPool τ n) : PoolCall n → BufferPool τ n → Prop where
  | calm {call : PoolCall n} {after : BufferPool τ n} (calm : Calm pages before after)
      (bytes : (∀ frame content, call ≠ .modify frame content) →
        ∀ frame, (after.frames frame).bytes = (before.frames frame).bytes) : Effect pages thread before call after
  | lost {call : PoolCall n} {after : BufferPool τ n} (agrees : Consistent pages after)
      (cause : WriteBackFails thread before call ∨ Poisoned pages before)
      (poisoned : Poisoned pages after) : Effect pages thread before call after
  | replaced {page : PageID} {faults : GetFaults} {victim : Fin n} {entry : Option (Fin n)} {after : BufferPool τ n}
      (agrees : Consistent pages after)
      (replaced : Replaced before after victim page entry) (saved : Saved before after victim)
      (flawless : (before.frames victim).isDirty = true → Flawless pages faults (before.frames victim).pageID) :
      Effect pages thread before (.getPage page faults) after

theorem bytes_setFrame (keeps : ∀ framed, (change framed).bytes = framed.bytes) (other : Fin n) :
    ((before.setFrame frame change).frames other).bytes = (before.frames other).bytes := by
  by_cases same : other = frame
  · rw [same, frames_setFrame_self, keeps]
  · rw [frames_setFrame_of_ne _ _ _ same]

theorem effect_run (reserved : pages ⟨0, 0⟩ = false) (agrees : Consistent pages before) (pinned : before.Pinned call) :
    Effect pages thread before call (before.run pages thread call) := by
  have named {frame : Fin n} (held : (before.frames frame).pinCount ≠ 0) : pages (before.frames frame).pageID = true := by
    by_contra unnamed
    exact held (agrees.unnamed frame (Bool.eq_false_iff.mpr unnamed)).2
  cases call with
  | unpinPage frame setDirty =>
    exact .calm (calm_setFrame (named pinned) fun _ => rfl) fun _ => bytes_setFrame fun _ => rfl
  | modify frame bytes =>
    have calm := @calm_setFrame τ n pages before frame (fun framed => { framed with bytes }) (named pinned) fun _ => rfl
    exact .calm calm fun other => absurd rfl (other frame bytes)
  | flushAllPages faults =>
    have flushed := flushed_flushAllPages pages before faults
    exact .calm flushed.calm fun _ frame => by rw [run, flushed.frames]
  | getPage page faults =>
    have got := got_getPage agrees thread page faults
    rw [run]
    generalize before.getPage pages thread page faults = result at got ⊢
    cases got with
    | hit cached =>
      obtain ⟨name, named⟩ := agrees.entry _ _ cached
      exact .calm (calm_setFrame (name ▸ named) fun _ => rfl) fun _ => bytes_setFrame fun _ => rfl
    | stuck _ _ aged => exact .calm aged.calm fun _ frame => (aged.frames frame).bytes
    | @lost victim after found replaced dropped dirty marked cause =>
      refine .lost (replaced.consistent_of_dropped reserved agrees dropped) ?_ ⟨victim, dropped.name ▸ reserved, marked⟩
      rcases cause with file | write | unnamed
      · exact .inl ⟨page, faults, victim, rfl, replaced.absent, found, dirty, .inl file⟩
      · exact .inl ⟨page, faults, victim, rfl, replaced.absent, found, dirty, .inr write⟩
      · exact .inr ⟨victim, unnamed, dirty⟩
    | unread found replaced dropped saved flawless cause =>
      exact .replaced (replaced.consistent_of_dropped reserved agrees dropped) replaced saved flawless
    | @read victim after found replaced saved flawless name named bytes =>
      refine .replaced (replaced.consistent agrees ?_ ?_ ?_) replaced saved flawless
      · rintro _ ⟨⟩
        exact ⟨rfl, name, named⟩
      · rw [name, replaced.pageTable, if_pos rfl]
        exact fun _ => rfl
      · rw [name, named]
        exact nofun

/-- The bytes of a page that is dirty or in use are in the pool or on disk after the call. -/
def Kept (before : BufferPool τ n) (call : PoolCall n) (after : BufferPool τ n) : Prop :=
  (∀ frame bytes, call ≠ .modify frame bytes) → ∀ page frame, before.pageTable page = some frame →
    (before.frames frame).isDirty = true ∨ (before.frames frame).pinCount ≠ 0 →
    after.content page = (before.frames frame).bytes

/-- Without faults every page can be had, as long as it is in the pool or a frame has no pins, and
everything can be flushed. -/
structure Usable (pages : PageID → Bool) (thread : τ) (pool : BufferPool τ n) : Prop where
  getPage : ∀ page, pages page = true → (pool.pageTable page ≠ none ∨ ∃ frame, (pool.frames frame).pinCount = 0) →
    ∃ frame after, pool.getPage pages thread page .none = (.returned frame, after) ∧
      (after.frames frame).bytes = pool.content page
  flushAllPages : (pool.flushAllPages pages fun _ => .none).1 = true

theorem Effect.kept (effect : Effect pages thread before call after) (agrees : Consistent pages before)
    (sound : ¬ Poisoned pages after) : Kept before call after := by
  intro unmodified page frame cached needed
  cases effect with
  | calm calm bytes =>
    rw [content, calm.pageTable, cached]
    exact bytes unmodified frame
  | lost _ _ poisoned => exact (sound poisoned).elim
  | @replaced wanted faults victim entry _ _ replaced saved flawless =>
    have elsewhere : page ≠ wanted := by
      rintro rfl
      rw [replaced.absent] at cached
      cases cached
    by_cases same : frame = victim
    · -- The page was in the victim, so it was dirty and is on disk now.
      subst same
      have name := (agrees.entry _ _ cached).1
      have dirty := needed.resolve_right (fun held => held replaced.unpinned)
      have onDisk := saved.disk
      rw [if_pos dirty, name] at onDisk
      rw [content, replaced.pageTable, if_neg elsewhere, if_pos name.symm]
      exact onDisk
    · obtain ⟨name, named⟩ := agrees.entry _ _ cached
      have stays := replaced.entry_of_ne agrees same (name ▸ named)
      rw [name] at stays
      rw [content, stays]
      exact (replaced.others frame same).bytes

theorem usable_of_sound (agrees : Consistent pages before) (sound : ¬ Poisoned pages before) (thread : τ) :
    Usable pages thread before := by
  refine ⟨fun page named available => ?_, (flushAllPages_none_iff pages before).mpr sound⟩
  have got := got_getPage agrees thread page .none
  generalize before.getPage pages thread page .none = result at got ⊢
  cases got with
  | @hit frame cached =>
    refine ⟨frame, _, rfl, ?_⟩
    rw [frames_setFrame_self, content, cached]
    rfl
  | stuck absent full =>
    rcases available with cached | ⟨frame, unpinned⟩
    · exact (cached absent).elim
    · exact (full frame unpinned).elim
  | @lost victim _ _ _ _ dirty _ cause =>
    rcases cause with file | write | unnamed
    · cases file
    · cases write
    · exact (sound ⟨victim, unnamed, dirty⟩).elim
  | unread _ _ _ _ _ cause =>
    rcases cause with file | read | unnamed
    · cases file
    · cases read
    · rw [named] at unnamed
      cases unnamed
  | @read victim after _ replaced _ _ _ _ bytes =>
    refine ⟨victim, after, rfl, ?_⟩
    rw [bytes, content, replaced.absent]

/-- A clean page that nobody uses is as on disk. -/
def Synced (pool : BufferPool τ n) : Prop :=
  ∀ page frame, pool.pageTable page = some frame → (pool.frames frame).pinCount = 0 →
    (pool.frames frame).isDirty = false → (pool.frames frame).bytes = pool.disk page

theorem content_of_failed (agrees : Consistent pages before) (sound : ¬ Poisoned pages before)
    (synced : Synced before) (failed : (before.getPage pages thread page faults).1 = .failed)
    (written : ¬ WriteBackFails thread before (.getPage page faults)) {other : PageID} (named : pages other = true) :
    (before.getPage pages thread page faults).2.content other = before.content other := by
  have got := got_getPage agrees thread page faults
  generalize before.getPage pages thread page faults = result at got failed ⊢
  cases got with
  | hit | stuck | read => cases failed
  | @lost victim after found replaced _ dirty _ cause =>
    rcases cause with file | write | unnamed
    · exact (written ⟨page, faults, victim, rfl, replaced.absent, found, dirty, .inl file⟩).elim
    · exact (written ⟨page, faults, victim, rfl, replaced.absent, found, dirty, .inr write⟩).elim
    · exact (sound ⟨victim, unnamed, dirty⟩).elim
  | @unread victim after found replaced _ onDisk =>
    by_cases old : other = (before.frames victim).pageID
    · -- The frame is taken from this page, which is on disk now.
      have cached := agrees.mapped victim (old ▸ named)
      have gone : after.pageTable other = none := by
        rw [replaced.pageTable, if_pos old, ite_self]
      rw [content, gone, content, old, cached]
      dsimp only
      rw [onDisk.disk]
      split
      next => rfl
      next clean => exact (synced _ _ cached replaced.unpinned (Bool.eq_false_iff.mpr clean)).symm
    · have same : after.pageTable other = before.pageTable other := by
        rw [replaced.pageTable, if_neg old]
        split
        next here => rw [here, replaced.absent]
        next => rfl
      rw [content, same, content]
      cases cached : before.pageTable other with
      | none => exact replaced.disk other old
      | some frame =>
        have apart : frame ≠ victim := by
          rintro rfl
          exact old (agrees.entry _ _ cached).1.symm
        exact (replaced.others frame apart).bytes

theorem Effect.consistent (effect : Effect pages thread before call after) (agrees : Consistent pages before) :
    Consistent pages after := by
  cases effect with
  | calm calm => exact calm.consistent agrees
  | lost agrees | replaced agrees => exact agrees

section
variable (reserved : pages ⟨0, 0⟩ = false)

include reserved

theorem poisoned_of_writeBackFails (agrees : Consistent pages before)
    (fails : WriteBackFails thread before call) : Poisoned pages (before.run pages thread call) := by
  obtain ⟨page, faults, victim, rfl, absent, found, dirty, cause⟩ := fails
  have got := got_getPage agrees thread page faults
  rw [run]
  generalize before.getPage pages thread page faults = result at got ⊢
  cases got with
  | hit cached =>
    rw [absent] at cached
    cases cached
  | stuck _ full =>
    rw [(findVictim_eq_none_iff thread before).mpr full] at found
    cases found
  | @lost victim _ _ _ dropped _ marked _ => exact ⟨victim, dropped.name ▸ reserved, marked⟩
  | unread found' _ _ _ flawless | read found' _ _ flawless =>
    cases found.symm.trans found'
    obtain ⟨file, write, -⟩ := flawless dirty
    rw [file, write] at cause
    simp at cause

theorem poisoned_run_iff (agrees : Consistent pages before)
    (pinned : before.Pinned call) : Poisoned pages (before.run pages thread call) ↔
      Poisoned pages before ∨ WriteBackFails thread before call := by
  have fails : WriteBackFails thread before call → Poisoned pages (before.run pages thread call) :=
    poisoned_of_writeBackFails reserved agrees
  cases effect_run reserved agrees pinned with
  | calm calm =>
    rw [calm.poisoned_iff] at fails ⊢
    exact ⟨.inl, fun either => either.elim id fails⟩
  | lost _ cause poisoned => exact iff_of_true poisoned cause.symm
  | replaced _ replaced saved flawless =>
    rw [replaced.poisoned_iff saved flawless] at fails ⊢
    exact ⟨.inl, fun either => either.elim id fails⟩

theorem consistent_newBufferPool (disk : PageID → PageBytes) : Consistent pages (newBufferPool τ n disk) := by
  refine ⟨fun page frame => nofun, fun frame named => ?_, fun frame _ => ⟨rfl, rfl⟩⟩
  change pages ⟨0, 0⟩ = true at named
  rw [reserved] at named
  cases named

theorem run_spec (disk : PageID → PageBytes)
    {steps : List (Taken (BufferPool τ n) (PoolCall n))} {final : BufferPool τ n}
    (run : Run (Called pages thread) (newBufferPool τ n disk) steps final)
    (pinned : ∀ taken ∈ steps, taken.before.Pinned taken.label) :
    Consistent pages final ∧ (Poisoned pages final ↔ ∃ taken ∈ steps, WriteBackFails thread taken.before taken.label) := by
  induction run with
  | nil =>
    refine ⟨consistent_newBufferPool reserved disk, iff_of_false ?_ (by simp)⟩
    rintro ⟨frame, -, dirty⟩
    cases dirty
  | @snoc steps state call _ earlier taken ih =>
    obtain ⟨pinned, now⟩ := List.forall_mem_append.mp pinned
    obtain ⟨agrees, poisoned⟩ := ih pinned
    have here := now _ mem_cons_self
    cases taken
    refine ⟨(effect_run reserved agrees here).consistent agrees, ?_⟩
    rw [poisoned_run_iff reserved agrees here, poisoned]
    simp [mem_append, or_and_right, exists_or]

/-- In every run of calls in which some fail, no page that is dirty or in use loses its bytes and
the pool can be used once nothing fails any more exactly when no call of `GetPage` failed to write
the page that it takes a dirty frame from. -/
theorem faults_survived_iff (disk : PageID → PageBytes)
    {steps : List (Taken (BufferPool τ n) (PoolCall n))} {final : BufferPool τ n}
    (run : Run (Called pages thread) (newBufferPool τ n disk) steps final)
    (pinned : ∀ taken ∈ steps, taken.before.Pinned taken.label) :
    (∀ taken ∈ steps, Kept taken.before taken.label taken.after) ∧ final.Usable pages thread ↔
      ∀ taken ∈ steps, ¬ WriteBackFails thread taken.before taken.label := by
  obtain ⟨agrees, poisoned⟩ := run_spec reserved disk run pinned
  constructor
  · rintro ⟨-, usable⟩ taken member fails
    exact (flushAllPages_none_iff pages final).mp usable.flushAllPages (poisoned.mpr ⟨taken, member, fails⟩)
  · intro none
    have sound : ¬ Poisoned pages final := fun bad => by
      obtain ⟨taken, member, fails⟩ := poisoned.mp bad
      exact none taken member fails
    refine ⟨?_, usable_of_sound agrees sound thread⟩
    refine run.every_when (fun before call => before.Pinned call ∧ ¬ WriteBackFails thread before call)
      (fun pool => Consistent pages pool ∧ ¬ Poisoned pages pool) Kept ?_ ?_ ?_ fun taken member =>
        ⟨pinned taken member, none taken member⟩
    · refine ⟨consistent_newBufferPool reserved disk, ?_⟩
      rintro ⟨frame, -, dirty⟩
      cases dirty
    · rintro before call _ ⟨agrees, sound⟩ ⟨pinned, fine⟩ ⟨⟩
      refine ⟨(effect_run reserved agrees pinned).consistent agrees, ?_⟩
      rw [poisoned_run_iff reserved agrees pinned]
      exact not_or.mpr ⟨sound, fine⟩
    · rintro before call _ ⟨agrees, sound⟩ ⟨pinned, fine⟩ ⟨⟩
      refine (effect_run reserved agrees pinned).kept agrees ?_
      rw [poisoned_run_iff reserved agrees pinned]
      exact not_or.mpr ⟨sound, fine⟩

end

end Calls

section OneFrame

def fileOne (page : PageID) : Bool := page.oid = 1

def sevens : PageBytes := ⟨List.replicate pageSize 7, length_replicate⟩

theorem sevens_ne_zero : sevens ≠ .zero := by
  intro same
  have heads : (List.replicate pageSize (7 : Byte)).head? = (List.replicate pageSize (0 : Byte)).head? :=
    congrArg List.head? (congrArg Subtype.val same)
  rw [pageSize, replicate_succ, replicate_succ] at heads
  cases heads

def empty : BufferPool Unit 1 := newBufferPool Unit 1 fun _ => .zero

def loaded : BufferPool Unit 1 := empty.run fileOne () (.getPage firstPage .none)

def changed : BufferPool Unit 1 := loaded.run fileOne () (.modify 0 sevens)

def unpinned : BufferPool Unit 1 := changed.run fileOne () (.unpinPage 0 true)

def faulty : PoolCall 1 := .getPage secondPage ⟨true, none, false, none⟩

def stranded : BufferPool Unit 1 := unpinned.run fileOne () faulty

/-- A page is changed and unpinned, another one is asked for, and getting the file of the first one
fails once. From then on the change is gone, and neither `GetPage` nor `FlushAllPages` succeeds. -/
theorem failed_write_back_loses_update : ∃ steps final,
    Run (Called fileOne ()) (newBufferPool Unit 1 fun _ => .zero) steps final ∧
    (∀ taken ∈ steps, taken.before.Pinned taken.label) ∧
    (∃ taken ∈ steps, taken.before.pageTable firstPage = some 0 ∧ (taken.before.frames 0).isDirty = true ∧
      (taken.before.frames 0).bytes = sevens ∧ taken.after = final) ∧
    final.content firstPage ≠ sevens ∧ (final.getPage fileOne () firstPage .none).1 = .failed ∧
    (final.flushAllPages fileOne fun _ => .none).1 = false := by
  have run : Run (Called fileOne ()) empty [⟨empty, .getPage firstPage .none, loaded⟩, ⟨loaded, .modify 0 sevens, changed⟩,
      ⟨changed, .unpinPage 0 true, unpinned⟩, ⟨unpinned, faulty, stranded⟩] stranded :=
    .snoc (.snoc (.snoc (.snoc .nil rfl) rfl) rfl) rfl
  refine ⟨_, stranded, run, ?_, ⟨_, mem_of_getLast? rfl, rfl, rfl, rfl, rfl⟩, ?_, rfl, rfl⟩
  · simp only [forall_mem_cons, Pinned]
    exact ⟨trivial, Nat.one_ne_zero, Nat.one_ne_zero, trivial, forall_mem_nil _⟩
  · have gone : stranded.content firstPage = .zero := rfl
    rw [gone]
    exact sevens_ne_zero.symm

theorem failed_read_survived : ∃ steps final, Run (Called fileOne ()) (newBufferPool Unit 1 fun _ => .zero) steps final ∧
    (empty.getPage fileOne () firstPage ⟨false, none, false, some sevens⟩).1 = .failed ∧ steps.length = 1 ∧
    final.Usable fileOne () := by
  have run : Run (Called fileOne ()) empty [⟨empty, .getPage firstPage ⟨false, none, false, some sevens⟩,
      empty.run fileOne () (.getPage firstPage ⟨false, none, false, some sevens⟩)⟩] _ := .snoc .nil rfl
  refine ⟨_, _, run, rfl, rfl, ((faults_survived_iff rfl _ run ?_).mpr ?_).2⟩
  · simp [Pinned]
  · rw [forall_mem_singleton]
    rintro ⟨_, _, victim, ⟨⟩, -, -, dirty, -⟩
    cases dirty

end OneFrame
end GoDB.Storage.BufferPool
