import GoDB.Proofs.BufferPoolInvariant
import GoDB.Storage.PoolCalls

/-! The clock's search for a victim, made while nobody else changes the pool. -/

namespace GoDB.Storage.BufferPool
open Common PoolSystem Nat

variable {τ : Type} {n : Nat} {pool after : BufferPool τ n} {thread : τ} {pass left : Nat}

/-- Nothing but reference counts of frames without pins and the hand has changed. -/
structure Aged (before after : BufferPool τ n) : Prop where
  frames : ∀ frame, SameFrame (before.frames frame) (after.frames frame)
  pinned : ∀ frame, (before.frames frame).pinCount ≠ 0 → after.frames frame = before.frames frame
  pageTable : after.pageTable = before.pageTable
  poolLatch : after.poolLatch = before.poolLatch
  disk : after.disk = before.disk
  hand : before.clockHand < n → after.clockHand < n

theorem Aged.refl (pool : BufferPool τ n) : Aged pool pool :=
  ⟨fun _ => SameFrame.refl _, fun _ _ => rfl, rfl, rfl, rfl, id⟩

theorem Aged.trans {first second third : BufferPool τ n} (earlier : Aged first second) (later : Aged second third) :
    Aged first third := by
  refine ⟨fun frame => ?_, fun frame pinned => ?_, later.pageTable.trans earlier.pageTable,
    later.poolLatch.trans earlier.poolLatch, later.disk.trans earlier.disk, later.hand ∘ earlier.hand⟩
  · obtain ⟨bytes, pageID, pinCount, isDirty, metaLatch⟩ := earlier.frames frame
    obtain ⟨bytes', pageID', pinCount', isDirty', metaLatch'⟩ := later.frames frame
    exact ⟨bytes'.trans bytes, pageID'.trans pageID, pinCount'.trans pinCount, isDirty'.trans isDirty,
      metaLatch'.trans metaLatch⟩
  · have same := earlier.pinned frame pinned
    rw [later.pinned frame (by rwa [same]), same]

theorem aged_advanceHand (pool : BufferPool τ n) : Aged pool pool.advanceHand :=
  ⟨fun _ => SameFrame.refl _, fun _ _ => rfl, rfl, rfl, rfl, fun inside => mod_lt _ (zero_lt_of_lt inside)⟩

theorem aged_setFrame {frame : Fin n} (unpinned : (pool.frames frame).pinCount = 0) (refCount : Nat) :
    Aged pool (pool.setFrame frame fun visited => { visited with refCount }) := by
  refine ⟨fun other => ?_, fun other pinned => ?_, rfl, rfl, rfl, id⟩
  · by_cases same : other = frame
    · subst same
      rw [frames_setFrame_self]
      exact ⟨rfl, rfl, rfl, rfl, rfl⟩
    · rw [frames_setFrame_of_ne _ _ _ same]
      exact SameFrame.refl _
  · refine frames_setFrame_of_ne _ _ _ ?_
    rintro rfl
    exact pinned unpinned

def claim (thread : τ) (pool : BufferPool τ n) (victim : Fin n) : BufferPool τ n :=
  pool.setFrame victim fun visited => { visited with refCount := 0, metaLatch := some thread }

def Searched (thread : τ) (pool : BufferPool τ n) : Option (Fin n) × BufferPool τ n → Prop
  | (none, after) => Aged pool after
  | (some victim, after) => ∃ middle : BufferPool τ n, Aged pool middle ∧ (middle.frames victim).pinCount = 0 ∧
      after = middle.claim thread victim

theorem Searched.before {middle : BufferPool τ n} {result : Option (Fin n) × BufferPool τ n} (earlier : Aged pool middle)
    (searched : Searched thread middle result) : Searched thread pool result := by
  obtain ⟨victim, after⟩ := result
  cases victim with
  | none => exact earlier.trans searched
  | some victim =>
    obtain ⟨last, aged, unpinned, rfl⟩ := searched
    exact ⟨last, earlier.trans aged, unpinned, rfl⟩

theorem searched_scan (thread : τ) (pass left : Nat) (pool : BufferPool τ n) :
    Searched thread pool (pool.scan thread pass left) := by
  induction left generalizing pool with
  | zero => exact Aged.refl pool
  | succ left ih =>
    unfold scan
    split
    next some' =>
      dsimp only
      split
      next unpinned =>
        split
        next stale => exact ⟨pool, Aged.refl pool, unpinned, rfl⟩
        next recent => exact (ih _).before ((aged_setFrame unpinned _).trans (aged_advanceHand _))
      next pinned => exact (ih _).before (aged_advanceHand _)
    next => exact Aged.refl pool

theorem searched_search (thread : τ) (pass left : Nat) (pool : BufferPool τ n) :
    Searched thread pool (pool.search thread pass left) := by
  induction left generalizing pass pool with
  | zero => exact Aged.refl pool
  | succ left ih =>
    unfold search
    have searched := searched_scan thread pass n pool
    split
    next scanned =>
      rw [scanned] at searched
      exact searched
    next scanned =>
      rw [scanned] at searched
      exact (ih _ _).before searched

theorem searched_findVictim (thread : τ) (pool : BufferPool τ n) : Searched thread pool (pool.findVictim thread) :=
  searched_search ..

theorem pinned_of_scan (merciless : ∀ frame : PageFrame τ, frame.aged n pass = 0)
    (scanned : pool.scan thread pass left = (none, after)) (some' : 0 < n) :
    ∀ k < left, (pool.frames ⟨(pool.clockHand + k) % n, mod_lt _ some'⟩).pinCount ≠ 0 := by
  induction left generalizing pool with
  | zero => exact fun k inside => absurd inside (not_lt_zero k)
  | succ left ih =>
    rw [scan, dif_pos some'] at scanned
    dsimp only at scanned
    split at scanned
    next => simp [merciless] at scanned
    next pinned =>
      intro k inside
      cases k with
      | zero => exact pinned
      | succ k =>
        have rest := ih scanned k (by omega)
        have place : (pool.advanceHand.clockHand + k) % n = (pool.clockHand + (k + 1)) % n := by
          rw [advanceHand, mod_add_mod, add_assoc, add_comm 1]
        simp only [place] at rest
        exact rest

theorem all_pinned_of_scan (merciless : ∀ frame : PageFrame τ, frame.aged n pass = 0)
    (scanned : pool.scan thread pass n = (none, after)) (frame : Fin n) : (pool.frames frame).pinCount ≠ 0 := by
  have some' := frame.pos
  have hand := mod_lt pool.clockHand some'
  have here := pinned_of_scan merciless scanned some' ((frame.val + n - pool.clockHand % n) % n) (mod_lt _ some')
  have place : (pool.clockHand + (frame.val + n - pool.clockHand % n) % n) % n = frame.val := by
    rw [add_mod_mod, ← mod_add_mod, show pool.clockHand % n + (frame.val + n - pool.clockHand % n) = frame.val + n by omega,
      add_mod_right, mod_eq_of_lt frame.isLt]
  simpa only [place] using here

theorem findVictim_eq_none_iff (thread : τ) (pool : BufferPool τ n) :
    (pool.findVictim thread).1 = none ↔ ∀ frame, (pool.frames frame).pinCount ≠ 0 := by
  constructor
  · intro nobody
    unfold findVictim passesAllowed at nobody
    split at nobody
    next large =>
      unfold search at nobody
      split at nobody
      next => cases nobody
      next scanned => exact all_pinned_of_scan (fun frame => by simp [PageFrame.aged]; omega) scanned
    next small =>
      unfold search at nobody
      split at nobody
      next => cases nobody
      next between scanned =>
        unfold search at nobody
        split at nobody
        next => cases nobody
        next scanned' =>
          intro frame
          have aged : Aged pool between := by
            have searched := searched_scan thread 0 n pool
            rwa [scanned] at searched
          rw [← (aged.frames frame).pinCount]
          exact all_pinned_of_scan (fun frame => by simp [PageFrame.aged]) scanned' frame
  · intro pinned
    have searched := searched_findVictim thread pool
    cases found : pool.findVictim thread with
    | mk victim after =>
      rw [found] at searched
      cases victim with
      | none => rfl
      | some victim =>
        obtain ⟨middle, aged, unpinned, -⟩ := searched
        rw [(aged.frames victim).pinCount] at unpinned
        exact (pinned victim unpinned).elim

structure Unlatched (pool : BufferPool τ n) : Prop where
  inside : pool.clockHand < n
  free : ∀ frame, (pool.frames frame).metaLatch = none

section
variable (unlatched : Unlatched pool)

include unlatched

theorem Unlatched.aged (aged : Aged pool after) : Unlatched after :=
  ⟨aged.hand unlatched.inside, fun frame => (aged.frames frame).metaLatch.trans (unlatched.free frame)⟩

theorem latchedScan_eq : pool.latchedScan thread pass left = some (pool.scan thread pass left) := by
  induction left generalizing pool with
  | zero => rfl
  | succ left ih =>
    have some' : 0 < n := zero_lt_of_lt unlatched.inside
    have place : (⟨pool.clockHand, unlatched.inside⟩ : Fin n) = pool.frameAtHand some' :=
      Fin.ext (mod_eq_of_lt unlatched.inside).symm
    have free := unlatched.free (pool.frameAtHand some')
    have same (holder : Option τ) (frame : PageFrame τ) : { frame with metaLatch := holder }.aged n pass =
      frame.aged n pass := rfl
    rw [latchedScan, dif_pos unlatched.inside, scan, dif_pos some']
    simp only [place, lockFrame, unlockFrame, free, same, Option.isNone_none, if_true, Option.bind_some, frames_setFrame_self]
    split
    next unpinned =>
      split
      next stale => simp [setFrame, same, stale]
      next recent =>
        refine .trans ?_ (ih (unlatched.aged ((aged_setFrame unpinned _).trans (aged_advanceHand _))))
        simp [setFrame, same, ← free]
    next pinned => exact ih (unlatched.aged (aged_advanceHand pool))

theorem latchedSearch_eq : pool.latchedSearch thread pass left = some (pool.search thread pass left) := by
  induction left generalizing pass pool with
  | zero => rfl
  | succ left ih =>
    rw [latchedSearch, search, latchedScan_eq unlatched, Option.bind_some]
    have searched := searched_scan thread pass n pool
    split
    next => rfl
    next scanned =>
      rw [scanned] at searched
      exact ih (unlatched.aged searched)

/-- The search ends with an unpinned frame as long as there is one, leaves pinned frames alone and
keeps no latch but the victim's. -/
theorem latchedSearch_spec : ∃ victim after, pool.latchedSearch thread 0 (passesAllowed n) = some (victim, after) ∧
    (victim = none ↔ ∀ frame, (pool.frames frame).pinCount ≠ 0) ∧
    (∀ frame, victim = some frame → (pool.frames frame).pinCount = 0) ∧
    (∀ frame, (pool.frames frame).pinCount ≠ 0 → after.frames frame = pool.frames frame) ∧
    after.clockHand < n ∧
    ∀ frame, (after.frames frame).metaLatch = if victim = some frame then some thread else none := by
  have nobody := findVictim_eq_none_iff thread pool
  have searched := searched_findVictim thread pool
  refine ⟨_, _, latchedSearch_eq unlatched, nobody, ?_⟩
  unfold findVictim at searched
  generalize pool.search thread 0 (passesAllowed n) = result at searched
  obtain ⟨victim, after⟩ := result
  cases victim with
  | none =>
    have left := unlatched.aged searched
    exact ⟨nofun, searched.pinned, left.inside, left.free⟩
  | some victim =>
    obtain ⟨middle, aged, unpinned, rfl⟩ := searched
    have left := unlatched.aged aged
    rw [(aged.frames victim).pinCount] at unpinned
    refine ⟨?_, ?_, left.inside, ?_⟩
    · rintro _ ⟨⟩
      exact unpinned
    · intro frame pinned
      rw [claim, frames_setFrame_of_ne]
      · exact aged.pinned frame pinned
      · rintro rfl
        exact pinned unpinned
    · intro frame
      by_cases same : frame = victim
      · subst same
        simp [claim]
      · rw [claim, frames_setFrame_of_ne _ _ _ same, if_neg (by simpa [eq_comm] using same)]
        exact left.free frame

end

/-- The page in the first frame is in use, and the other two were used not long ago. -/
def usedPool : BufferPool Unit 3 :=
  { newBufferPool Unit 3 fun _ => .zero with
    frames := fun frame => ⟨.zero, ⟨1, frame.val⟩, if frame = 0 then 1 else 0, false, if frame = 1 then 2 else 1, none⟩
    clockHand := 1 }

theorem used_pool_searched : ∃ after, usedPool.latchedSearch () 0 (passesAllowed 3) = some (some 2, after) ∧
    after.clockHand < 3 ∧ after.frames 0 = usedPool.frames 0 ∧ (after.frames 2).metaLatch = some () := by
  obtain ⟨victim, after, searched, -, -, kept, inside, latches⟩ :=
    @latchedSearch_spec Unit 3 usedPool () ⟨by decide, fun _ => rfl⟩
  have found : (usedPool.latchedSearch () 0 (passesAllowed 3)).map Prod.fst = some (some 2) := by decide
  rw [searched] at found
  cases found
  exact ⟨after, searched, inside, kept 0 Nat.one_ne_zero, latches 2⟩

end GoDB.Storage.BufferPool
