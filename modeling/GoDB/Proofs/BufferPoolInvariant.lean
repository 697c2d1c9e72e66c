import GoDB.Lib.Run
import GoDB.Storage.BufferPool

/-! The invariant that links the page table, the frames, the pins and the disk.
It is stated thread by thread and frame by frame, so that a step has to be
followed up only for the thread that makes it and the frame that it changes. -/

namespace GoDB.Storage
open Common

namespace Section
variable {n : Nat}

def victim : Section n → Option (Fin n)
  | .assigning _ victim | .writingBack _ victim _ | .droppingOld _ victim _ | .reading _ victim => some victim
  | _ => none

/-- The frame is assigned to a page whose bytes are not in it yet. -/
def loads : Section n → Bool
  | .writingBack _ _ _ | .droppingOld _ _ _ | .reading _ _ => true
  | _ => false

end Section

namespace PoolSystem
variable {τ : Type} {n : Nat}

def Synced (system : PoolSystem τ n) (page : PageID) : Prop := system.disk page = system.written page

def pinsOn (system : PoolSystem τ n) (frame : Fin n) : Nat := system.pins.countP fun pin => pin.frame = frame

/-- Nothing was written to the frame that is not on disk or about to be marked. -/
def Clean (system : PoolSystem τ n) (frame : Fin n) : Prop :=
  (system.frames frame).isDirty = false ∧ ∀ pin ∈ system.pins, pin.frame = frame → pin.modified = false

def Settled (system : PoolSystem τ n) (frame : Fin n) : Prop :=
  ∀ thread, (system.frames frame).metaLatch = some thread → (system.threads thread).loads = false

structure Loading (system : PoolSystem τ n) (thread : τ) (page : PageID) (victim : Fin n) : Prop where
  named : page.isNil = false
  latched : (system.frames victim).metaLatch = some thread
  assigned : (system.frames victim).pageID = page
  once : (system.frames victim).pinCount = 1
  synced : system.Synced page

def Sound (system : PoolSystem τ n) (thread : τ) : Section n → Prop
  | .idle | .flushing _ => True
  | .lookup page | .pinning page _ | .wantPool page => page.isNil = false
  | .recheck page => page.isNil = false ∧ system.poolLatch = some thread
  | .scanning page _ _ | .inspecting page _ _ _ =>
    page.isNil = false ∧ system.poolLatch = some thread ∧ system.pageTable page = none
  | .assigning page victim => page.isNil = false ∧ system.poolLatch = some thread ∧ system.pageTable page = none ∧
    (system.frames victim).metaLatch = some thread ∧ (system.frames victim).pinCount = 0
  | .writingBack page victim old => system.Loading thread page victim ∧ old ≠ page ∧
    (old.isNil = false → system.pageTable old = some victim ∧ (system.frames victim).bytes = system.written old ∧
      ((system.frames victim).isDirty = false → system.Synced old))
  | .droppingOld page victim old => system.Loading thread page victim ∧ old ≠ page ∧
    (system.frames victim).isDirty = false ∧
    (old.isNil = false → system.pageTable old = some victim ∧ system.Synced old)
  | .reading page victim => system.Loading thread page victim ∧ (system.frames victim).isDirty = false

structure Framed (system : PoolSystem τ n) (frame : Fin n) : Prop where
  mapped : (system.frames frame).pageID.isNil = false → system.pageTable (system.frames frame).pageID = some frame
  holder : ∀ thread, (system.frames frame).metaLatch = some thread → (system.threads thread).victim = some frame
  counted : system.Settled frame → (system.frames frame).pinCount = system.pinsOn frame
  unpinned : ¬ system.Settled frame → system.pinsOn frame = 0
  current : system.Settled frame → (system.frames frame).pageID.isNil = false →
    (system.frames frame).bytes = system.written (system.frames frame).pageID ∧
      (system.Clean frame → system.Synced (system.frames frame).pageID)

structure Invariant (system : PoolSystem τ n) : Prop where
  sound : ∀ thread, system.Sound thread (system.threads thread)
  framed : ∀ frame, system.Framed frame
  pinned : ∀ pin ∈ system.pins, (system.frames pin.frame).pageID = pin.page ∧ pin.page.isNil = false
  uncached : ∀ page, page.isNil = false → system.pageTable page = none → system.Synced page

theorem invariant_start (disk : PageID → PageBytes) : Invariant (start τ n disk) := by
  refine ⟨fun _ => trivial, fun frame => ⟨?_, ?_, ?_, ?_, ?_⟩, ?_, fun _ _ _ => rfl⟩
  · intro named
    cases named
  · intro thread impossible
    cases impossible
  · intro _
    rfl
  · intro _
    rfl
  · intro _ named
    cases named
  · intro pin member
    cases member

structure SameFrame (first second : PageFrame τ) : Prop where
  bytes : second.bytes = first.bytes
  pageID : second.pageID = first.pageID
  pinCount : second.pinCount = first.pinCount
  isDirty : second.isDirty = first.isDirty
  metaLatch : second.metaLatch = first.metaLatch

theorem SameFrame.refl (frame : PageFrame τ) : SameFrame frame frame := ⟨rfl, rfl, rfl, rfl, rfl⟩

structure Calm (system later : PoolSystem τ n) (page : PageID) : Prop where
  written : later.written page = system.written page
  synced : system.Synced page → later.Synced page

variable {system later : PoolSystem τ n}

theorem Sound.latched {thread : τ} {section' : Section n} (sound : system.Sound thread section') {frame : Fin n}
    (holds : section'.victim = some frame) : (system.frames frame).metaLatch = some thread := by
  cases section' with
  | assigning page victim =>
    cases holds
    exact sound.2.2.2.1
  | writingBack page victim old | droppingOld page victim old | reading page victim =>
    cases holds
    exact sound.1.latched
  | _ => cases holds

/-- The pages that belong to no frame but perhaps one of the untouched. -/
def Elsewhere (system : PoolSystem τ n) (touched : Option (Fin n)) (page : PageID) : Prop :=
  ∀ frame, touched = some frame → system.pageTable page ≠ some frame

/-- What a step leaves alone: all threads but the mover, all frames but the one
it touches, and the pages that are not in that frame. -/
structure Spares (system later : PoolSystem τ n) (mover : Option τ) (touched : Option (Fin n)) : Prop where
  threads : ∀ thread, mover ≠ some thread → later.threads thread = system.threads thread
  frames : ∀ frame, touched ≠ some frame → SameFrame (system.frames frame) (later.frames frame)
  latches : ∀ thread frame, (system.frames frame).metaLatch = some thread → (mover = some thread ↔ touched = some frame)
  pool : ∀ thread, mover ≠ some thread → system.poolLatch = some thread → later.poolLatch = some thread
  absent : ∀ page, system.pageTable page = none →
    later.pageTable page = none ∨ ∃ thread, mover = some thread ∧ system.poolLatch = some thread
  kept : ∀ frame page, touched ≠ some frame → page.isNil = false →
    system.pageTable page = some frame → later.pageTable page = some frame
  pages : ∀ page, page.isNil = false → system.Elsewhere touched page → Calm system later page
  counts : ∀ frame, touched ≠ some frame → later.pinsOn frame = system.pinsOn frame
  cleans : ∀ frame, touched ≠ some frame → later.Clean frame → system.Clean frame

variable {mover : Option τ} {touched : Option (Fin n)}

section
variable (spares : Spares system later mover touched)

include spares

theorem Spares.loading {thread : τ} {page : PageID}
    {victim : Fin n} (framed : system.Framed victim) (untouched : touched ≠ some victim)
    (loading : system.Loading thread page victim) : later.Loading thread page victim := by
  have same := spares.frames victim untouched
  have mapped : system.pageTable page = some victim := by
    rw [← loading.assigned]
    exact framed.mapped (loading.assigned ▸ loading.named)
  refine ⟨loading.named, same.metaLatch.trans loading.latched, same.pageID.trans loading.assigned,
    same.pinCount.trans loading.once, (spares.pages page loading.named ?_).synced loading.synced⟩
  intro frame touch entry
  cases mapped.symm.trans entry
  exact untouched touch

omit spares in
theorem Spares.elsewhere {victim : Fin n} {page : PageID} (untouched : touched ≠ some victim)
    (mapped : system.pageTable page = some victim) : system.Elsewhere touched page := by
  intro frame touch entry
  cases mapped.symm.trans entry
  exact untouched touch

theorem Spares.sound (framed : ∀ frame, system.Framed frame)
    {thread : τ} (other : mover ≠ some thread) {section' : Section n} (sound : system.Sound thread section') :
    later.Sound thread section' := by
  have untouched : ∀ frame, section'.victim = some frame → touched ≠ some frame := by
    intro frame holds touch
    exact other ((spares.latches thread frame (sound.latched holds)).mpr touch)
  have absent : ∀ page, system.poolLatch = some thread → system.pageTable page = none → later.pageTable page = none := by
    intro page holds miss
    rcases spares.absent page miss with miss | ⟨holder, moves, held⟩
    · exact miss
    · cases held.symm.trans holds
      exact absurd moves other
  cases section' with
  | idle | flushing => trivial
  | lookup | pinning | wantPool => exact sound
  | recheck page => exact ⟨sound.1, spares.pool thread other sound.2⟩
  | scanning page pass i | inspecting page pass i frame =>
    obtain ⟨named, held, miss⟩ := sound
    exact ⟨named, spares.pool thread other held, absent page held miss⟩
  | assigning page victim =>
    obtain ⟨named, held, miss, latched, unpinned⟩ := sound
    have same := spares.frames victim (untouched victim rfl)
    exact ⟨named, spares.pool thread other held, absent page held miss, same.metaLatch.trans latched,
      same.pinCount.trans unpinned⟩
  | writingBack page victim old =>
    obtain ⟨loading, different, content⟩ := sound
    have apart := untouched victim rfl
    have same := spares.frames victim apart
    refine ⟨spares.loading (framed victim) apart loading, different, fun named => ?_⟩
    obtain ⟨mapped, bytes, synced⟩ := content named
    have calm := spares.pages old named (Spares.elsewhere apart mapped)
    refine ⟨spares.kept victim old apart named mapped, ?_, fun clean => ?_⟩
    · rw [same.bytes, bytes, calm.written]
    · exact calm.synced (synced (same.isDirty.symm.trans clean))
  | droppingOld page victim old =>
    obtain ⟨loading, different, clean, content⟩ := sound
    have apart := untouched victim rfl
    have same := spares.frames victim apart
    refine ⟨spares.loading (framed victim) apart loading, different, same.isDirty.trans clean, fun named => ?_⟩
    obtain ⟨mapped, synced⟩ := content named
    exact ⟨spares.kept victim old apart named mapped, (spares.pages old named (Spares.elsewhere apart mapped)).synced synced⟩
  | reading page victim =>
    obtain ⟨loading, clean⟩ := sound
    have apart := untouched victim rfl
    exact ⟨spares.loading (framed victim) apart loading, (spares.frames victim apart).isDirty.trans clean⟩

theorem Spares.framed {frame : Fin n}
    (untouched : touched ≠ some frame) (framed : system.Framed frame) : later.Framed frame := by
  have same := spares.frames frame untouched
  have threads : ∀ thread, (system.frames frame).metaLatch = some thread →
      later.threads thread = system.threads thread := by
    intro thread latched
    apply spares.threads
    intro moves
    exact untouched ((spares.latches thread frame latched).mp moves)
  have settled : later.Settled frame ↔ system.Settled frame := by
    unfold Settled
    rw [same.metaLatch]
    refine forall_congr' fun thread => ?_
    constructor
    · intro settled latched
      rw [← threads thread latched]
      exact settled latched
    · intro settled latched
      rw [threads thread latched]
      exact settled latched
  refine ⟨?_, ?_, ?_, ?_, ?_⟩
  · rw [same.pageID]
    intro named
    exact spares.kept frame _ untouched named (framed.mapped named)
  · intro thread latched
    rw [same.metaLatch] at latched
    rw [threads thread latched]
    exact framed.holder thread latched
  · rw [settled, same.pinCount, spares.counts frame untouched]
    exact framed.counted
  · rw [settled, spares.counts frame untouched]
    exact framed.unpinned
  · rw [settled, same.pageID, same.bytes]
    intro still named
    obtain ⟨bytes, synced⟩ := framed.current still named
    have calm := spares.pages _ named (Spares.elsewhere untouched (framed.mapped named))
    refine ⟨bytes.trans calm.written.symm, fun clean => ?_⟩
    exact calm.synced (synced (spares.cleans frame untouched clean))

end

/-- To keep the invariant, a step has to answer for its mover and for the frame
it touches. -/
theorem Invariant.carry (invariant : system.Invariant) (spares : Spares system later mover touched)
    (sound : ∀ thread, mover = some thread → later.Sound thread (later.threads thread))
    (framed : ∀ frame, touched = some frame → later.Framed frame)
    (pinned : ∀ pin ∈ later.pins, (later.frames pin.frame).pageID = pin.page ∧ pin.page.isNil = false)
    (dropped : ∀ page frame, page.isNil = false → system.pageTable page = some frame →
      later.pageTable page = none → later.Synced page) : later.Invariant := by
  refine ⟨fun thread => ?_, fun frame => ?_, pinned, fun page named miss => ?_⟩
  · by_cases moves : mover = some thread
    · exact sound thread moves
    · rw [spares.threads thread moves]
      exact spares.sound invariant.framed moves (invariant.sound thread)
  · by_cases touch : touched = some frame
    · exact framed frame touch
    · exact spares.framed touch (invariant.framed frame)
  · cases before : system.pageTable page with
    | none =>
      refine (spares.pages page named ?_).synced (invariant.uncached page named before)
      intro frame _ entry
      cases before.symm.trans entry
    | some frame => exact dropped page frame named before miss

end PoolSystem
end GoDB.Storage
