import Mathlib.Data.List.Perm.Basic
import GoDB.Proofs.BufferPoolInvariant

/-! Every step of the pool keeps its invariant, if its callers are disciplined. -/

namespace GoDB.Storage.PoolSystem
open Common Lib List
open Function (update update_self update_of_ne)

variable {τ : Type} {n : Nat} {system later : PoolSystem τ n} {thread : τ} {page old : PageID} {frame victim : Fin n}

/-- What the callers and the storage are trusted with: no call is for the
reserved object id, no read or write fails, and who has modified a page says so. -/
def Disciplined (system : PoolSystem τ n) : PoolEvent τ n → Prop
  | .called _ pageID => pageID.isNil = false
  | .failed _ => False
  | .unpinned index setDirty => ∀ pin, system.pins[index]? = some pin → pin.modified = true → setDirty = true
  | .worked _ | .returned _ _ _ _ | .modified _ _ => True

theorem calm_refl (disk : later.disk = system.disk) (written : later.written = system.written) :
    Calm system later page := by
  refine ⟨by rw [written], ?_⟩
  unfold Synced
  rw [disk, written]
  exact id

theorem Invariant.latches_free (invariant : system.Invariant) {mover : Option τ}
    (free : (system.frames frame).metaLatch = none)
    (holdsNone : ∀ thread, mover = some thread → (system.threads thread).victim = none) :
    ∀ thread other, (system.frames other).metaLatch = some thread → (mover = some thread ↔ some frame = some other) := by
  intro thread other latched
  constructor
  · intro moves
    cases (holdsNone thread moves).symm.trans ((invariant.framed other).holder thread latched)
  · intro same
    cases same
    cases free.symm.trans latched

theorem Invariant.latches_held (invariant : system.Invariant)
    (holds : (system.threads thread).victim = some frame) :
    ∀ other other', (system.frames other').metaLatch = some other → (some thread = some other ↔ some frame = some other') := by
  intro other other' latched
  constructor
  · intro same
    cases same
    exact holds.symm.trans ((invariant.framed other').holder thread latched)
  · intro same
    cases same
    exact ((invariant.sound thread).latched holds).symm.trans latched

theorem Invariant.latches_idle (invariant : system.Invariant) (free : (system.frames frame).metaLatch = none) :
    ∀ thread other, (system.frames other).metaLatch = some thread →
      ((none : Option τ) = some thread ↔ some frame = some other) :=
  invariant.latches_free free nofun

structure Repins (system later : PoolSystem τ n) (frame : Fin n) (gone new rest : List (Pin n)) : Prop where
  before : system.pins.Perm (gone ++ rest)
  after : later.pins.Perm (new ++ rest)
  gone : ∀ pin ∈ gone, pin.frame = frame
  new : ∀ pin ∈ new, pin.frame = frame

section Repins
variable {gone new rest : List (Pin n)}

theorem repins_same (pins : later.pins = system.pins) (frame : Fin n) : Repins system later frame [] [] system.pins :=
  ⟨.refl _, pins ▸ .refl _, nofun, nofun⟩

theorem Repins.added (pins : later.pins = system.pins ++ [⟨page, frame, false⟩]) :
    Repins system later frame [] [⟨page, frame, false⟩] system.pins :=
  ⟨.refl _, pins ▸ perm_append_comm, nofun, by simp⟩

theorem pinsOn_of_perm {pins : List (Pin n)} (perm : system.pins.Perm (pins ++ rest))
    (here : ∀ pin ∈ pins, pin.frame = frame) (other : Fin n) :
    system.pinsOn other = (if frame = other then pins.length else 0) + rest.countP fun pin => pin.frame = other := by
  rw [pinsOn, perm.countP_eq, countP_append]
  congr 1
  split
  next same => exact countP_eq_length.mpr fun pin member => by simpa [same] using here pin member
  next different => exact countP_eq_zero.mpr fun pin member => by simpa [here pin member] using different

section
variable (repins : Repins system later frame gone new rest)

include repins

theorem Repins.counts (other : Fin n)
    (different : some frame ≠ some other) : later.pinsOn other = system.pinsOn other := by
  have apart : frame ≠ other := fun same => different (congrArg some same)
  rw [pinsOn_of_perm repins.after repins.new, pinsOn_of_perm repins.before repins.gone, if_neg apart, if_neg apart]

theorem Repins.counts_here : later.pinsOn frame + gone.length = system.pinsOn frame + new.length := by
  rw [pinsOn_of_perm repins.after repins.new, pinsOn_of_perm repins.before repins.gone, if_pos rfl, if_pos rfl]
  omega

theorem Repins.cleans (other : Fin n) (dirty : (later.frames other).isDirty = (system.frames other).isDirty)
    (unmodified : ∀ pin ∈ gone, frame = other → pin.modified = false) (clean : later.Clean other) : system.Clean other := by
  refine ⟨dirty.symm.trans clean.1, fun pin member on => ?_⟩
  rcases mem_append.mp (repins.before.mem_iff.mp member) with taken | kept
  · exact unmodified pin taken ((repins.gone pin taken).symm.trans on)
  · exact clean.2 pin (repins.after.mem_iff.mpr (mem_append_right _ kept)) on

end

end Repins

variable {changed : PageFrame τ}

theorem frames_touch (frames : later.frames = update system.frames frame changed)
    (other : Fin n) (different : some frame ≠ some other) : SameFrame (system.frames other) (later.frames other) := by
  rw [frames, update_of_ne (fun same => different (congrArg some same.symm))]
  exact .refl _

theorem pageID_touch (frames : later.frames = update system.frames frame changed)
    (same : changed.pageID = (system.frames frame).pageID) (other : Fin n) :
    (later.frames other).pageID = (system.frames other).pageID := by
  rw [frames]
  by_cases equal : other = frame
  · subst equal
    rw [update_self, same]
  · rw [update_of_ne equal]

variable {section' : Section n}

theorem Invariant.at (invariant : system.Invariant)
    (at' : system.threads thread = section') : system.Sound thread section' :=
  at' ▸ invariant.sound thread

theorem settled_of_free (free : (system.frames frame).metaLatch = none) : system.Settled frame := by
  intro thread latched
  cases free.symm.trans latched

theorem settled_of_holder (holder : (system.frames frame).metaLatch = some thread) :
    system.Settled frame ↔ (system.threads thread).loads = false := by
  constructor
  · intro settled
    exact settled thread holder
  · intro loads other latched
    cases holder.symm.trans latched
    exact loads

theorem pinsOn_pos {pin : Pin n} (member : pin ∈ system.pins) : 0 < system.pinsOn pin.frame := by
  rw [pinsOn, countP_pos_iff]
  exact ⟨pin, member, decide_eq_true rfl⟩

theorem framed_of_free (unlatched : (later.frames frame).metaLatch = none)
    (mapped : (later.frames frame).pageID.isNil = false → later.pageTable (later.frames frame).pageID = some frame)
    (counted : (later.frames frame).pinCount = later.pinsOn frame)
    (current : (later.frames frame).pageID.isNil = false →
      (later.frames frame).bytes = later.written (later.frames frame).pageID ∧
        (later.Clean frame → later.Synced (later.frames frame).pageID)) : later.Framed frame := by
  refine ⟨mapped, ?_, fun _ => counted, fun busy => absurd (settled_of_free unlatched) busy, fun _ => current⟩
  intro other latched
  cases unlatched.symm.trans latched

theorem framed_loading (loading : later.Loading thread page victim)
    (at' : later.threads thread = section') (holds : section'.victim = some victim) (loads : section'.loads = true)
    (mapped : later.pageTable page = some victim) (unpinned : later.pinsOn victim = 0) : later.Framed victim := by
  have busy : ¬ later.Settled victim := by
    simp [settled_of_holder loading.latched, at', loads]
  refine ⟨?_, ?_, fun settled => absurd settled busy, fun _ => unpinned, fun settled => absurd settled busy⟩
  · intro _
    rw [loading.assigned]
    exact mapped
  · intro other latched
    cases loading.latched.symm.trans latched
    rw [at']
    exact holds

section
variable (invariant : system.Invariant)

include invariant

theorem Invariant.unpinned (holds : (system.threads thread).victim = some victim)
    (loads : (system.threads thread).loads = true) : system.pinsOn victim = 0 := by
  apply (invariant.framed victim).unpinned
  simp [settled_of_holder ((invariant.sound thread).latched holds), loads]

theorem Invariant.mapped (loading : system.Loading thread page victim) : system.pageTable page = some victim := by
  rw [← loading.assigned]
  exact (invariant.framed victim).mapped (loading.assigned ▸ loading.named)

variable {pin : Pin n}

theorem Invariant.free_of_pinned (member : pin ∈ system.pins) : (system.frames pin.frame).metaLatch = none := by
  have framed := invariant.framed pin.frame
  have positive := pinsOn_pos member
  by_contra latched
  obtain ⟨thread, latched⟩ := Option.ne_none_iff_exists'.mp latched
  have holds := framed.holder thread latched
  have sound := invariant.sound thread
  have settled := settled_of_holder latched
  generalize system.threads thread = section' at holds sound settled
  cases section' with
  | assigning page victim =>
    cases holds
    have counted := framed.counted (settled.mpr rfl)
    have unpinned := sound.2.2.2.2
    omega
  | writingBack | droppingOld | reading =>
    have unpinned := framed.unpinned (by simp [settled, Section.loads])
    omega
  | _ => cases holds

theorem Invariant.touches {mover : Option τ} {changed : PageFrame τ} {gone new rest : List (Pin n)}
    (latches : ∀ thread other, (system.frames other).metaLatch = some thread →
      (mover = some thread ↔ some frame = some other))
    (threads : ∀ thread, mover ≠ some thread → later.threads thread = system.threads thread)
    (frames : later.frames = update system.frames frame changed)
    (same : changed.pageID = (system.frames frame).pageID) (repins : Repins system later frame gone new rest)
    (table : later.pageTable = system.pageTable) (pool : later.poolLatch = system.poolLatch)
    (pages : ∀ page, page.isNil = false → system.Elsewhere (some frame) page → Calm system later page)
    (sound : ∀ thread, mover = some thread → later.Sound thread (later.threads thread)) (framed : later.Framed frame)
    (handed : ∀ pin ∈ new, (system.frames pin.frame).pageID = pin.page ∧ pin.page.isNil = false) : later.Invariant := by
  have spares : Spares system later mover (some frame) := by
    refine ⟨threads, frames_touch frames, latches, fun _ _ => pool.trans, fun _ miss => .inl (table ▸ miss),
      fun _ _ _ _ entry => table ▸ entry, pages, repins.counts, fun other different => ?_⟩
    exact repins.cleans other (frames_touch frames other different).isDirty fun _ _ on => absurd (congrArg some on) different
  apply invariant.carry spares sound
  · rintro _ ⟨⟩
    exact framed
  · intro pin member
    rw [pageID_touch frames same]
    rcases mem_append.mp (repins.after.mem_iff.mp member) with given | kept
    · exact handed pin given
    · exact invariant.pinned pin (repins.before.mem_iff.mpr (mem_append_right _ kept))
  · intro other _ _ entry miss
    rw [table] at miss
    cases entry.symm.trans miss

theorem invariant_modify {index : Nat} {bytes : PageBytes}
    (held : system.pins[index]? = some pin) (threads : later.threads = system.threads)
    (frames : later.frames = update system.frames pin.frame { system.frames pin.frame with bytes := bytes })
    (pins : later.pins = system.pins.set index { pin with modified := true })
    (table : later.pageTable = system.pageTable) (disk : later.disk = system.disk)
    (written : later.written = update system.written pin.page bytes)
    (pool : later.poolLatch = system.poolLatch) : later.Invariant := by
  have member := mem_of_getElem? held
  obtain ⟨bound, found⟩ := List.getElem?_eq_some_iff.mp held
  obtain ⟨mine, named⟩ := invariant.pinned pin member
  have framed := invariant.framed pin.frame
  have free := invariant.free_of_pinned member
  have here : later.frames pin.frame = { system.frames pin.frame with bytes := bytes } := by
    rw [frames, update_self]
  have repins : Repins system later pin.frame [pin] [{ pin with modified := true }] (system.pins.eraseIdx index) :=
    ⟨found ▸ (getElem_cons_eraseIdx_perm bound).symm, pins ▸ set_perm_cons_eraseIdx bound _, by simp, by simp⟩
  refine invariant.touches (invariant.latches_idle free) (fun _ _ => by rw [threads]) frames rfl repins
    table pool ?_ nofun (framed_of_free (by rw [here]; exact free) (by rw [here, table]; exact framed.mapped) ?_ ?_)
    (by simpa using ⟨mine, named⟩)
  · intro page _ elsewhere
    have apart : page ≠ pin.page := by
      rintro rfl
      exact elsewhere pin.frame rfl (mine ▸ framed.mapped (mine ▸ named))
    refine ⟨by rw [written, update_of_ne apart], ?_⟩
    unfold Synced
    rw [disk, written, update_of_ne apart]
    exact id
  · have counted := framed.counted (settled_of_free free)
    rw [here]
    exact counted.trans (Nat.add_right_cancel repins.counts_here).symm
  · intro _
    rw [here, written]
    simp only [mine, update_self]
    refine ⟨trivial, fun clean => ?_⟩
    have untouched := clean.2 { pin with modified := true } (by rw [pins]; exact mem_set bound _) rfl
    cases untouched

theorem invariant_unpinPage {index : Nat} {setDirty : Bool}
    (held : system.pins[index]? = some pin) (announced : pin.modified = true → setDirty = true)
    (threads : later.threads = system.threads)
    (frames : later.frames = update system.frames pin.frame ((system.frames pin.frame).unpin setDirty))
    (pins : later.pins = system.pins.eraseIdx index) (table : later.pageTable = system.pageTable)
    (disk : later.disk = system.disk) (written : later.written = system.written)
    (pool : later.poolLatch = system.poolLatch) : later.Invariant := by
  have member := mem_of_getElem? held
  obtain ⟨bound, found⟩ := List.getElem?_eq_some_iff.mp held
  have framed := invariant.framed pin.frame
  have free := invariant.free_of_pinned member
  have here : later.frames pin.frame = (system.frames pin.frame).unpin setDirty := by
    rw [frames, update_self]
  have repins : Repins system later pin.frame [pin] [] (system.pins.eraseIdx index) :=
    ⟨found ▸ (getElem_cons_eraseIdx_perm bound).symm, pins ▸ .refl _, by simp, nofun⟩
  refine invariant.touches (invariant.latches_idle free) (fun _ _ => by rw [threads]) frames rfl repins
    table pool (fun _ _ _ => calm_refl disk written) nofun
    (framed_of_free (by rw [here]; exact free) (by rw [here, table]; exact framed.mapped) ?_ ?_) nofun
  · have counted := framed.counted (settled_of_free free)
    have removed : later.pinsOn pin.frame + 1 = system.pinsOn pin.frame := repins.counts_here
    rw [here, PageFrame.unpin]
    dsimp only
    split <;> omega
  · rw [here]
    intro assigned
    obtain ⟨bytes, synced⟩ := framed.current (settled_of_free free) assigned
    refine ⟨by rw [written]; exact bytes, fun clean => ?_⟩
    have unmarked := clean.1
    rw [here, PageFrame.unpin] at unmarked
    rw [Synced, disk, written]
    apply synced
    cases setDirty with
    | true => cases unmarked
    | false =>
      refine repins.cleans pin.frame (by rw [here]; rfl) (fun pin' taken _ => ?_) clean
      rw [mem_singleton.mp taken]
      exact Bool.eq_false_iff.mpr fun modified => nomatch announced modified

end

variable [DecidableEq τ]

theorem threads_goto (threads : later.threads = update system.threads thread section')
    (other : τ) (different : some thread ≠ some other) : later.threads other = system.threads other := by
  rw [threads, update_of_ne (fun same => different (congrArg some same.symm))]

theorem sound_goto (threads : later.threads = update system.threads thread section')
    (sound : later.Sound thread section') (mover : τ) (moves : some thread = some mover) :
    later.Sound mover (later.threads mover) := by
  cases moves
  rw [threads, update_self]
  exact sound

structure Acts (system later : PoolSystem τ n) (thread : τ) (section' : Section n) (frame : Fin n)
    (changed : PageFrame τ) : Prop where
  threads : later.threads = update system.threads thread section'
  frames : later.frames = update system.frames frame changed
  table : later.pageTable = system.pageTable
  pool : later.poolLatch = system.poolLatch
  written : later.written = system.written

section Acts
variable {section' : Section n} {changed : PageFrame τ}

theorem Acts.here (acts : Acts system later thread section' frame changed) : later.frames frame = changed := by
  rw [acts.frames, update_self]

theorem Acts.at (acts : Acts system later thread section' frame changed) : later.threads thread = section' := by
  rw [acts.threads, update_self]

theorem Invariant.acts {gone new rest : List (Pin n)} (invariant : system.Invariant)
    (acts : Acts system later thread section' frame changed)
    (latches : ∀ other other', (system.frames other').metaLatch = some other →
      (some thread = some other ↔ some frame = some other'))
    (same : changed.pageID = (system.frames frame).pageID) (repins : Repins system later frame gone new rest)
    (pages : ∀ page, page.isNil = false → system.Elsewhere (some frame) page → Calm system later page)
    (sound : later.Sound thread section') (framed : later.Framed frame)
    (handed : ∀ pin ∈ new, (system.frames pin.frame).pageID = pin.page ∧ pin.page.isNil = false) : later.Invariant :=
  invariant.touches latches (threads_goto acts.threads) acts.frames same repins acts.table acts.pool pages
    (sound_goto acts.threads sound) framed handed

end Acts

section
variable (invariant : system.Invariant)

include invariant

variable {section' : Section n}

theorem Invariant.moved (threads : later.threads = update system.threads thread section')
    (holdsNone : (system.threads thread).victim = none)
    (frames : ∀ frame, SameFrame (system.frames frame) (later.frames frame))
    (table : later.pageTable = system.pageTable) (disk : later.disk = system.disk)
    (written : later.written = system.written) (pins : later.pins = system.pins)
    (pool : ∀ other, other ≠ thread → system.poolLatch = some other → later.poolLatch = some other)
    (sound : later.Sound thread section') : later.Invariant := by
  have spares : Spares system later (some thread) none := by
    refine ⟨threads_goto threads, fun frame _ => frames frame, ?_, ?_, fun _ miss => .inl (table ▸ miss),
      fun _ _ _ _ entry => table ▸ entry, fun _ _ _ => calm_refl disk written, fun frame _ => ?_, fun frame _ => ?_⟩
    · intro other frame latched
      have holds := (invariant.framed frame).holder other latched
      constructor
      · rintro ⟨⟩
        cases holdsNone.symm.trans holds
      · rintro ⟨⟩
    · intro other different
      exact pool other (fun same => different (congrArg some same.symm))
    · exact (repins_same pins frame).counts_here
    · exact (repins_same pins frame).cleans frame (frames frame).isDirty nofun
  apply invariant.carry spares (sound_goto threads sound)
  · rintro _ ⟨⟩
  · intro pin member
    rw [pins] at member
    rw [(frames pin.frame).pageID]
    exact invariant.pinned pin member
  · intro page frame _ entry miss
    rw [table] at miss
    cases entry.symm.trans miss

theorem invariant_claimed {pass i : Nat}
    (at' : system.threads thread = .inspecting page pass i victim) (free : (system.frames victim).metaLatch = none)
    (unpinned : (system.frames victim).pinCount = 0) (acts : Acts system later thread (.assigning page victim) victim
      { system.frames victim with refCount := 0, metaLatch := some thread })
    (pins : later.pins = system.pins) (disk : later.disk = system.disk) : later.Invariant := by
  obtain ⟨named, held, miss⟩ := invariant.at at'
  have framed := invariant.framed victim
  have settled : system.Settled victim := settled_of_free free
  have here := acts.here
  have latched : (later.frames victim).metaLatch = some thread := by rw [here]
  have repins := repins_same pins victim
  refine invariant.acts acts (invariant.latches_free free ?_) rfl repins (fun _ _ _ => calm_refl disk acts.written)
    ⟨named, acts.pool.trans held, acts.table ▸ miss, latched, ?_⟩ ?_ nofun
  · rintro _ ⟨⟩
    rw [at']
    rfl
  · rw [here]
    exact unpinned
  · have still : later.Settled victim := by
      rw [settled_of_holder latched, acts.at]
      rfl
    refine ⟨by rw [here, acts.table]; exact framed.mapped, ?_, fun _ => ?_, fun busy => absurd still busy, fun _ => ?_⟩
    · intro other other'
      cases latched.symm.trans other'
      rw [acts.at]
      rfl
    · rw [here]
      exact (framed.counted settled).trans repins.counts_here.symm
    · rw [here]
      intro named
      obtain ⟨bytes, synced⟩ := framed.current settled named
      refine ⟨by rw [acts.written]; exact bytes, fun clean => ?_⟩
      rw [Synced, disk, acts.written]
      exact synced (repins.cleans victim (by rw [here]) nofun clean)

theorem Invariant.evicts {changed : PageFrame τ} (holds : (system.threads thread).victim = some victim)
    (threads : later.threads = update system.threads thread section')
    (frames : later.frames = update system.frames victim changed) (pins : later.pins = system.pins)
    (pool : ∀ other, some thread ≠ some other → system.poolLatch = some other → later.poolLatch = some other)
    (absent : ∀ page, system.pageTable page = none → later.pageTable page = none ∨ system.poolLatch = some thread)
    (kept : ∀ other page, some victim ≠ some other → page.isNil = false →
      system.pageTable page = some other → later.pageTable page = some other)
    (calm : ∀ page, Calm system later page) (sound : later.Sound thread section') (framed : later.Framed victim)
    (unpinned : system.pinsOn victim = 0)
    (dropped : ∀ page other, page.isNil = false → system.pageTable page = some other →
      later.pageTable page = none → later.Synced page) : later.Invariant := by
  have repins := repins_same pins victim
  have spares : Spares system later (some thread) (some victim) := by
    refine ⟨threads_goto threads, frames_touch frames, invariant.latches_held holds, pool, fun page miss => ?_, kept,
      fun page _ _ => calm page, repins.counts, fun other different => ?_⟩
    · exact (absent page miss).imp_right fun held => ⟨thread, rfl, held⟩
    · exact repins.cleans other (frames_touch frames other different).isDirty nofun
  apply invariant.carry spares (sound_goto threads sound) _ _ dropped
  · rintro _ ⟨⟩
    exact framed
  · intro pin member
    rw [pins] at member
    have other : pin.frame ≠ victim := by
      rintro rfl
      exact absurd unpinned (Nat.ne_of_gt (pinsOn_pos member))
    rw [frames, update_of_ne other]
    exact invariant.pinned pin member

theorem invariant_assigned (at' : system.threads thread = .assigning page victim)
    (threads : later.threads = update system.threads thread
      (.writingBack page victim (system.frames victim).pageID)) (frames : later.frames = update system.frames victim
      { system.frames victim with pinCount := 1, pageID := page })
    (pins : later.pins = system.pins) (table : later.pageTable = update system.pageTable page (some victim))
    (disk : later.disk = system.disk) (written : later.written = system.written) : later.Invariant := by
  obtain ⟨named, held, miss, latched, unpinned⟩ := invariant.at at'
  have framed := invariant.framed victim
  have settled : system.Settled victim := by
    rw [settled_of_holder latched, at']
    rfl
  have none' : system.pinsOn victim = 0 := (framed.counted settled).symm.trans unpinned
  have here : later.frames victim = { system.frames victim with pinCount := 1, pageID := page } := by
    rw [frames, update_self]
  have calm : ∀ page, Calm system later page := fun _ => calm_refl disk written
  have loading : later.Loading thread page victim :=
    ⟨named, by rw [here]; exact latched, by rw [here], by rw [here], (calm page).synced (invariant.uncached page named miss)⟩
  have entries : ∀ {old frame}, system.pageTable old = some frame → later.pageTable old = some frame := by
    intro old frame entry
    rw [table, update_of_ne]
    · exact entry
    · rintro rfl
      cases miss.symm.trans entry
  refine invariant.evicts (by rw [at']; rfl) threads frames pins ?_ (fun _ _ => .inr held)
    (fun _ _ _ _ entry => entries entry) calm ⟨loading, ?_, ?_⟩ (framed_loading loading
      (by rw [threads, update_self]) rfl rfl (by rw [table, update_self])
      ((repins_same pins victim).counts_here.trans none')) none' ?_
  · intro other different held'
    cases held.symm.trans held'
    exact absurd rfl different
  · intro same
    have entry := framed.mapped (by rw [same]; exact named)
    rw [same, miss] at entry
    cases entry
  · intro old
    obtain ⟨bytes, synced⟩ := framed.current settled old
    rw [here, written]
    refine ⟨entries (framed.mapped old), bytes, fun clean => (calm _).synced (synced ⟨clean, ?_⟩)⟩
    rintro pin member rfl
    exact absurd none' (Nat.ne_of_gt (pinsOn_pos member))
  · intro old frame _ entry gone
    cases (entries entry).symm.trans gone

theorem invariant_wroteBack (at' : system.threads thread = .writingBack page victim old)
    (acts : Acts system later thread (.droppingOld page victim old) victim { system.frames victim with isDirty := false })
    (pins : later.pins = system.pins) (disk : later.disk = if (system.frames victim).isDirty then
      update system.disk old (system.frames victim).bytes else system.disk) : later.Invariant := by
  obtain ⟨loading, different, content⟩ := invariant.at at'
  have holds : (system.threads thread).victim = some victim := by rw [at']; rfl
  have here := acts.here
  have calm : ∀ other, other ≠ old → Calm system later other := by
    intro other apart
    refine ⟨by rw [acts.written], ?_⟩
    unfold Synced
    rw [disk, acts.written]
    split
    · rw [update_of_ne apart]
      exact id
    · exact id
  have loaded : later.Loading thread page victim := ⟨loading.named, by rw [here]; exact loading.latched,
    by rw [here]; exact loading.assigned, by rw [here]; exact loading.once, (calm page different.symm).synced loading.synced⟩
  have repins := repins_same pins victim
  refine invariant.acts acts (invariant.latches_held holds) rfl repins ?_ ⟨loaded, different, by rw [here], ?_⟩
    (framed_loading loaded acts.at rfl rfl (acts.table ▸ invariant.mapped loading)
      (repins.counts_here.trans (invariant.unpinned holds (by rw [at']; rfl)))) nofun
  · intro other named elsewhere
    apply calm
    rintro rfl
    exact elsewhere victim rfl (content named).1
  · intro named
    obtain ⟨mapped, bytes, synced⟩ := content named
    refine ⟨acts.table ▸ mapped, ?_⟩
    unfold Synced
    rw [disk, acts.written]
    split
    · rw [update_self, bytes]
    next clean => exact synced (by simpa using clean)

theorem invariant_dropped (at' : system.threads thread = .droppingOld page victim old)
    (threads : later.threads = update system.threads thread (.reading page victim))
    (frames : later.frames = update system.frames victim { system.frames victim with refCount := 1 })
    (pins : later.pins = system.pins) (table : later.pageTable = update system.pageTable old none)
    (disk : later.disk = system.disk) (written : later.written = system.written)
    (pool : later.poolLatch = system.poolLatch) : later.Invariant := by
  obtain ⟨loading, different, clean, content⟩ := invariant.at at'
  have holds : (system.threads thread).victim = some victim := by rw [at']; rfl
  have here : later.frames victim = { system.frames victim with refCount := 1 } := by
    rw [frames, update_self]
  have calm : ∀ other, Calm system later other := fun _ => calm_refl disk written
  have loaded : later.Loading thread page victim := ⟨loading.named, by rw [here]; exact loading.latched,
    by rw [here]; exact loading.assigned, by rw [here]; exact loading.once, (calm page).synced loading.synced⟩
  have unpinned := invariant.unpinned holds (by rw [at']; rfl)
  have entries : ∀ {other}, other ≠ old → later.pageTable other = system.pageTable other := by
    intro other apart
    rw [table, update_of_ne apart]
  refine invariant.evicts holds threads frames pins (fun _ _ => pool.trans) ?_ ?_ calm
    ⟨loaded, by rw [here]; exact clean⟩ (framed_loading loaded (by rw [threads, update_self]) rfl rfl
      ((entries different.symm).trans (invariant.mapped loading))
      ((repins_same pins victim).counts_here.trans unpinned)) unpinned ?_
  · intro other miss
    by_cases same : other = old
    · rw [table, same, update_self]
      exact .inl rfl
    · exact .inl ((entries same).trans miss)
  · intro frame other apart named entry
    refine (entries ?_).trans entry
    rintro rfl
    exact apart ((content named).1.symm.trans entry)
  · intro other frame named entry gone
    by_cases same : other = old
    · subst same
      exact (calm other).synced (content named).2
    · cases entry.symm.trans ((entries same).symm.trans gone)

theorem invariant_read (at' : system.threads thread = .reading page victim)
    (acts : Acts system later thread .idle victim { system.frames victim with bytes := system.disk page, metaLatch := none })
    (pins : later.pins = system.pins ++ [⟨page, victim, false⟩]) (disk : later.disk = system.disk) : later.Invariant := by
  obtain ⟨loading, -⟩ := invariant.at at'
  have holds : (system.threads thread).victim = some victim := by rw [at']; rfl
  have here := acts.here
  have repins := Repins.added pins
  refine invariant.acts acts (invariant.latches_held holds) rfl repins (fun _ _ _ => calm_refl disk acts.written) trivial
    (framed_of_free (by rw [here]) (by rw [here, acts.table]; exact (invariant.framed victim).mapped) ?_ ?_)
    (by simpa using ⟨loading.assigned, loading.named⟩)
  · have counted : later.pinsOn victim = system.pinsOn victim + 1 := repins.counts_here
    rw [counted, invariant.unpinned holds (by rw [at']; rfl), here]
    exact loading.once
  · intro _
    rw [here, acts.written]
    simp only [loading.assigned]
    exact ⟨loading.synced, fun _ => (calm_refl disk acts.written).synced loading.synced⟩

theorem invariant_flushed {i : Nat}
    (at' : system.threads thread = .flushing i) (free : (system.frames frame).metaLatch = none)
    (acts : Acts system later thread (.flushing (i + 1)) frame { system.frames frame with isDirty := false })
    (pins : later.pins = system.pins)
    (disk : later.disk = update system.disk (system.frames frame).pageID (system.frames frame).bytes) :
    later.Invariant := by
  have framed := invariant.framed frame
  have settled : system.Settled frame := settled_of_free free
  have here := acts.here
  have repins := repins_same pins frame
  refine invariant.acts acts (invariant.latches_free free ?_) rfl repins ?_ trivial (framed_of_free
    (by rw [here]; exact free) (by rw [here, acts.table]; exact framed.mapped)
      (by rw [here]; exact (framed.counted settled).trans repins.counts_here.symm) ?_) nofun
  · rintro _ ⟨⟩
    rw [at']
    rfl
  · intro page named elsewhere
    have apart : page ≠ (system.frames frame).pageID := by
      rintro rfl
      exact elsewhere frame rfl (framed.mapped named)
    refine ⟨by rw [acts.written], ?_⟩
    unfold Synced
    rw [disk, acts.written, update_of_ne apart]
    exact id
  · rw [here]
    intro named
    have bytes := (framed.current settled named).1
    refine ⟨by rw [acts.written]; exact bytes, fun _ => ?_⟩
    rw [Synced, disk, acts.written, update_self]
    exact bytes

theorem invariant_pinned (at' : system.threads thread = .pinning page frame)
    (free : (system.frames frame).metaLatch = none) (mine : (system.frames frame).pageID = page)
    (acts : Acts system later thread .idle frame (system.frames frame).pin)
    (pins : later.pins = system.pins ++ [⟨page, frame, false⟩]) (disk : later.disk = system.disk) : later.Invariant := by
  have named : page.isNil = false := invariant.at at'
  have framed := invariant.framed frame
  have settled := settled_of_free free
  have here := acts.here
  have repins := Repins.added pins
  refine invariant.acts acts (invariant.latches_free free ?_) rfl repins (fun _ _ _ => calm_refl disk acts.written) trivial
    (framed_of_free (by rw [here]; exact free) (by rw [here, acts.table]; exact framed.mapped) ?_ ?_)
    (by simpa using ⟨mine, named⟩)
  · rintro _ ⟨⟩
    rw [at']
    rfl
  · have counted : later.pinsOn frame = system.pinsOn frame + 1 := repins.counts_here
    rw [counted, here, ← framed.counted settled]
    rfl
  · rw [here]
    intro assigned
    obtain ⟨bytes, synced⟩ := framed.current settled assigned
    refine ⟨by rw [acts.written]; exact bytes, fun clean => ?_⟩
    rw [Synced, disk, acts.written]
    exact synced (repins.cleans frame (by rw [here]; rfl) nofun clean)

theorem invariant_step {event : PoolEvent τ n} (disciplined : system.Disciplined event)
    (taken : system.Step event later) : later.Invariant := by
  cases taken with
  | getPage at' =>
    exact invariant.moved rfl (by rw [at']; rfl) (fun _ => .refl _) rfl rfl rfl rfl (fun _ _ => id) disciplined
  | found at' | missed at' | reassigned at' =>
    have sound := invariant.at at'
    exact invariant.moved rfl (by rw [at']; rfl) (fun _ => .refl _) rfl rfl rfl rfl (fun _ _ => id) sound
  | enterPool at' free =>
    have sound := invariant.at at'
    refine invariant.moved rfl (by rw [at']; rfl) (fun _ => .refl _) rfl rfl rfl rfl ?_ ⟨sound, rfl⟩
    intro other _ held
    cases free.symm.trans held
  | foundAgain at' hit =>
    have sound := invariant.at at'
    refine invariant.moved rfl (by rw [at']; rfl) (fun _ => .refl _) rfl rfl rfl rfl ?_ sound.1
    intro other different held
    cases sound.2.symm.trans held
    exact absurd rfl different
  | missedAgain at' miss =>
    have sound := invariant.at at'
    exact invariant.moved rfl (by rw [at']; rfl) (fun _ => .refl _) rfl rfl rfl rfl (fun _ _ => id) ⟨sound.1, sound.2, miss⟩
  | passedOver at' | approached at' | tooLate at' | nextPass at' =>
    have sound := invariant.at at'
    exact invariant.moved rfl (by rw [at']; rfl) (fun _ => .refl _) rfl rfl rfl rfl (fun _ _ => id) sound
  | @spared thread page pass i frame at' free unpinned recent =>
    have sound := invariant.at at'
    refine invariant.moved rfl (by rw [at']; rfl) ?_ rfl rfl rfl rfl (fun _ _ => id) sound
    intro other
    change SameFrame (system.frames other) (update system.frames frame _ other)
    by_cases same : other = frame
    · subst same
      rw [update_self]
      exact ⟨rfl, rfl, rfl, rfl, rfl⟩
    · rw [update_of_ne same]
      exact .refl _
  | gaveUp at' =>
    have sound := invariant.at at'
    refine invariant.moved rfl (by rw [at']; rfl) (fun _ => .refl _) rfl rfl rfl rfl ?_ sound.1
    intro other different held
    cases sound.2.1.symm.trans held
    exact absurd rfl different
  | flushAllPages at' | flushedAll at' =>
    exact invariant.moved rfl (by rw [at']; rfl) (fun _ => .refl _) rfl rfl rfl rfl (fun _ _ => id) trivial
  | pinned at' free mine => exact invariant_pinned invariant at' free mine ⟨rfl, rfl, rfl, rfl, rfl⟩ rfl rfl
  | claimed at' free unpinned stale =>
    exact invariant_claimed invariant at' free unpinned ⟨rfl, rfl, rfl, rfl, rfl⟩ rfl rfl
  | assigned at' => exact invariant_assigned invariant at' rfl rfl rfl rfl rfl rfl
  | clean at' unchanged =>
    refine invariant_wroteBack invariant at' ⟨rfl, ?_, rfl, rfl, rfl⟩ rfl (by rw [unchanged]; rfl)
    rw [← unchanged, Function.update_eq_self]
    rfl
  | wroteBack at' dirty =>
    exact invariant_wroteBack invariant at' ⟨rfl, rfl, rfl, rfl, rfl⟩ rfl (by rw [dirty]; rfl)
  | dropped at' => exact invariant_dropped invariant at' rfl rfl rfl rfl rfl rfl rfl
  | read at' => exact invariant_read invariant at' ⟨rfl, rfl, rfl, rfl, rfl⟩ rfl rfl
  | @flushed thread i at' left free =>
    by_cases dirty : (system.frames ⟨i, left⟩).isDirty = true
    · rw [flushFrame, if_pos dirty]
      exact invariant_flushed invariant at' free ⟨rfl, rfl, rfl, rfl, rfl⟩ rfl rfl
    · rw [flushFrame, if_neg dirty]
      exact invariant.moved rfl (by rw [at']; rfl) (fun _ => .refl _) rfl rfl rfl rfl (fun _ _ => id) trivial
  | writeFailed | readFailed | flushFailed => exact disciplined.elim
  | modify held => exact invariant_modify invariant held rfl rfl rfl rfl rfl rfl rfl
  | unpinPage held free => exact invariant_unpinPage invariant held (disciplined _ held) rfl rfl rfl rfl rfl rfl rfl

end

end GoDB.Storage.PoolSystem
