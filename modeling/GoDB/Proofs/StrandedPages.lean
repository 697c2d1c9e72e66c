import GoDB.Execution.InsertFaults
import GoDB.Proofs.PoolFaults
import GoDB.Proofs.TableHeapRefinement

/-! What an insertion that fails leaves behind. A page that was allocated and could not be fetched
stays at the end of the file without a header, and the next insertion takes it for a heap page.
A fetch that cannot write the page of a dirty frame loses the rows that are only there. -/

namespace GoDB.Storage
open Lib List PageBytes

theorem PageBytes.uint16_zero (start : Nat) : zero.uint16 start = 0 :=
  LittleEndian.decode_zeros fun _ member =>
    eq_of_mem_replicate (mem_of_mem_take (mem_of_mem_drop member))

namespace HeapPage

/-- A page of zeros has no room for a bitmap, so looking at one is a panic. -/
theorem allocMap_zero : (asHeapPage .zero).allocMap = none := by
  have size : bitmapSize (zero.uint16 10) = 0 := by
    rw [uint16_zero]
    rfl
  have empty : zero.read 16 (16 + 0) = some [] := by
    rw [PageBytes.read, if_pos (by decide), slice, drop_eq_nil_of_le (length_take_le ..)]
  simp [allocMap, asHeapPage, size, empty, Bitmap.asBitmap]

end HeapPage
end GoDB.Storage

namespace GoDB.Execution
open Common Lib Storage List HeapPage TableHeap Option

namespace TableHeap
variable {n : Nat} {heap later target : TableHeap} {row : RawTuple} {fault : InsertFault n} {get : FailedGet n}
  {page : PageID}

def Full (heap : TableHeap) : Prop :=
  ∀ frame, heap.pages.getLast? = some frame → (asHeapPage frame).findFreeSlot = some none

/-- The call comes to a `GetPage` that fails, and the file has the pages of `target` then. -/
inductive Asks (heap : TableHeap) : HeapCall × InsertFault n → FailedGet n → TableHeap → PageID → Prop where
  | lastPage {row : RawTuple} {get : FailedGet n} (filled : heap.pages ≠ []) :
      Asks heap (.insertTuple row, .lastPage get) get heap ⟨heap.oid, (heap.pages.length - 1 : Nat)⟩
  | newPage {row : RawTuple} {get : FailedGet n} (full : heap.Full) (room : heap.pages.length + 1 < 2 ^ 31) :
      Asks heap (.insertTuple row, .newPage get) get heap.allocatePage ⟨heap.oid, heap.pages.length⟩

/-- A page is allocated for the row and cannot be fetched. -/
def NewPageFails (heap : TableHeap) (call : HeapCall × InsertFault n) : Prop :=
  heap.Full ∧ heap.pages.length + 1 < 2 ^ 31 ∧ ∃ row get, call = (.insertTuple row, .newPage get)

/-- A page is fetched into a dirty frame, and the page in that frame cannot be written. -/
def WriteBackFails (heap : TableHeap) (call : HeapCall × InsertFault n) : Prop :=
  ∃ get target page, heap.Asks call get target page ∧ get.pool.WriteBackFails () (.getPage page get.faults)

theorem insertTupleWith_of_asks (asks : heap.Asks (.insertTuple row, fault) get target page) :
    heap.insertTupleWith fault row = some (.error .storage, target.reload (get.call page).2) := by
  cases asks with
  | lastPage filled =>
    obtain ⟨frame, last⟩ := ne_none_iff_exists'.mp (mt getLast?_eq_none_iff.mp filled)
    simp [insertTupleWith, last]
  | newPage full room =>
    have grows : heap.insertInNewPageWith (.newPage get) row =
        some (.error .storage, heap.allocatePage.reload (get.call ⟨heap.oid, heap.pages.length⟩).2) := if_pos room
    unfold insertTupleWith
    cases last : heap.pages.getLast? with
    | none => exact grows
    | some frame => simp [full frame last, grows]

theorem insertTupleWith_cases (quiet : ∀ get target page, ¬ heap.Asks (.insertTuple row, fault) get target page) :
    heap.insertTupleWith fault row = some (.error .storage, heap) ∨
    heap.insertTupleWith fault row = heap.insertTuple row := by
  have grows (full : heap.Full) : heap.insertInNewPageWith fault row = some (.error .storage, heap) ∨
      heap.insertInNewPageWith fault row = heap.insertInNewPage row := by
    cases fault with
    | allocate => exact .inl rfl
    | newPage get => exact .inl (if_neg fun room => quiet get _ _ (.newPage full room))
    | _ => exact .inr rfl
  have goes (passed : ∀ get, fault ≠ .lastPage get) (opened : fault ≠ .file ∧ fault ≠ .numPages) :
      heap.insertTupleWith fault row = some (.error .storage, heap) ∨
      heap.insertTupleWith fault row = heap.insertTuple row := by
    unfold insertTupleWith insertTuple
    cases last : heap.pages.getLast? with
    | none =>
      have empty : heap.Full := fun frame found => by cases last.symm.trans found
      simpa [opened] using grows empty
    | some frame =>
      cases found : (asHeapPage frame).findFreeSlot with
      | none => simp [opened, found]
      | some slot =>
        cases slot with
        | some slot => simp [opened, found]
        | none =>
          have full : heap.Full := fun other same => by
            cases last.symm.trans same
            exact found
          simpa [passed, opened, found] using grows full
  cases fault with
  | file | numPages => exact .inl rfl
  | lastPage get =>
    by_cases empty : heap.pages = []
    · exact .inr (by simp [insertTupleWith, insertTuple, empty, insertInNewPageWith])
    · exact (quiet get _ _ (.lastPage empty)).elim
  | none | allocate | newPage => exact goes (fun _ => nofun) ⟨nofun, nofun⟩

def Stranded (heap : TableHeap) : Prop := heap.pages.getLast? = some .zero

theorem stranded_allocatePage (heap : TableHeap) : heap.allocatePage.Stranded := getLast?_concat

theorem contents_allocatePage (heap : TableHeap) : heap.allocatePage.contents = heap.contents := by
  have unallocated (i : Nat) : ((asHeapPage .zero).slotView i).allocated = false := by
    rw [slotView, allocMap_zero]
    rfl
  have entries (p i : Nat) : heap.allocatePage.entryAt p i = heap.entryAt p i := by
    simp only [entryAt, allocatePage]
    rcases Nat.lt_trichotomy p heap.pages.length with inside | rfl | beyond
    · rw [getElem?_append_left inside]
      rfl
    · rw [getElem?_concat_length, getElem?_eq_none (Nat.le_refl _)]
      simp [entryOf, unallocated]
    · rw [getElem?_eq_none (by rw [length_append, length_singleton]; omega),
        getElem?_eq_none (Nat.le_of_lt beyond)]
  funext rid
  simp only [contents, entries]
  rfl

variable {error : HeapError}

theorem eq_of_failed_insertInNewPage (failed : heap.insertInNewPage row = some (.error error, later)) : later = heap := by
  rw [insertInNewPage] at failed
  split at failed
  next => simp [bind_eq_some_iff] at failed
  next =>
    cases failed
    rfl

theorem eq_of_failed_insert (failed : heap.insertTuple row = some (.error error, later)) : later = heap := by
  rw [insertTuple] at failed
  split at failed
  next => exact eq_of_failed_insertInNewPage failed
  next =>
    obtain ⟨slot, -, rest⟩ := bind_eq_some_iff.mp failed
    cases slot with
    | some slot => simp [bind_eq_some_iff] at rest
    | none => exact eq_of_failed_insertInNewPage rest

section Stranded

section
variable (stranded : heap.Stranded)

include stranded

theorem Stranded.insertTuple_panics (row : RawTuple) : heap.insertTuple row = none := by
  have last : heap.pages.getLast? = some .zero := stranded
  simp [insertTuple, last, findFreeSlot, allocMap_zero]

theorem Stranded.putPage {pageID : PageID} {frame : PageBytes} {page : HeapPage}
    (fetched : heap.getPage pageID = some frame) (kept : frame = .zero → page.frame = .zero) :
    (heap.putPage pageID page).Stranded := by
  have last : heap.pages[heap.pages.length - 1]? = some .zero := by rwa [← getLast?_eq_getElem?]
  rw [getPage] at fetched
  split at fetched
  next =>
    obtain ⟨bound, -⟩ := List.getElem?_eq_some_iff.mp fetched
    change (heap.pages.set pageID.pageNum.toNat page.frame).getLast? = _
    rw [getLast?_eq_getElem?, length_set]
    by_cases same : pageID.pageNum.toNat = heap.pages.length - 1
    · rw [same] at fetched bound ⊢
      rw [getElem?_set_self bound, kept (some.inj (fetched.symm.trans last))]
    · rw [getElem?_set_ne same, last]
  next => cases fetched

theorem Stranded.onTuple {α : Type} {rid : RecordID}
    {act : HeapPage → Option (α × TableHeap)} {answer : Except HeapError α}
    (acts : ∀ frame result, heap.getPage rid.pageID = some frame → frame ≠ .zero →
      act (.asHeapPage frame) = some (result, later) → later.Stranded)
    (returned : heap.onTuple rid act = some (answer, later)) : later.Stranded := by
  rw [TableHeap.onTuple] at returned
  split at returned
  next =>
    cases returned
    exact stranded
  next frame fetched =>
    cases gone : isGone (asHeapPage frame) rid with
    | none => simp [gone] at returned
    | some dead =>
      cases dead with
      | true =>
        simp only [gone, Option.bind_eq_bind, Option.bind_some, if_true, Option.pure_def, Option.some.injEq] at returned
        cases returned
        exact stranded
      | false =>
        obtain ⟨⟨result, changed⟩, acted, same⟩ : ∃ made, act (.asHeapPage frame) = some made ∧
            (Except.ok made.1, made.2) = (answer, later) := by
          simpa [gone, bind_eq_some_iff] using returned
        cases same
        refine acts frame result fetched ?_ acted
        rintro rfl
        simp [isGone, isAllocated, allocMap_zero] at gone

theorem Stranded.vacuumPage {pageID : PageID} {answer : Except HeapError Unit}
    (returned : heap.vacuumPage pageID = some (answer, later)) : later.Stranded := by
  rw [TableHeap.vacuumPage] at returned
  split at returned
  next =>
    cases returned
    exact stranded
  next frame fetched =>
    obtain ⟨page, vacuumed, same⟩ := bind_eq_some_iff.mp returned
    cases same
    refine stranded.putPage fetched ?_
    rintro rfl
    have empty : (asHeapPage .zero).numSlots = 0 := PageBytes.uint16_zero 10
    rw [empty] at vacuumed
    cases vacuumed
    rfl

theorem Stranded.invoke {call : HeapCall} {answer : HeapReply}
    (returned : heap.invoke call = some (answer, later)) : later.Stranded := by
  have strip {α : Type} {success : α → HeapReply} {made : Option (Answer α)}
      (replied : reply success made = some (answer, later)) : ∃ result, made = some (result, later) := by
    obtain ⟨⟨result | result, changed⟩, made, same⟩ := map_eq_some_iff.mp replied
    all_goals
      cases same
      exact ⟨_, made⟩
  have edits {pageID : PageID} {edit : Option HeapPage} {frame : PageBytes} {result : Unit}
      (fetched : heap.getPage pageID = some frame) (headed : frame ≠ .zero)
      (edited : (do return ((), heap.putPage pageID (← edit))) = some (result, later)) : later.Stranded := by
    obtain ⟨page, -, same⟩ := bind_eq_some_iff.mp edited
    cases same
    exact stranded.putPage fetched fun zero => absurd zero headed
  cases call with
  | insertTuple row =>
    obtain ⟨result, inserted⟩ := strip returned
    cases (stranded.insertTuple_panics row).symm.trans inserted
  | updateTuple rid row =>
    obtain ⟨result, updated⟩ := strip returned
    exact stranded.onTuple (fun _ _ => edits) updated
  | deleteTuple rid =>
    obtain ⟨result, deleted⟩ := strip returned
    exact stranded.onTuple (fun _ _ => edits) deleted
  | readTuple rid buffer =>
    obtain ⟨result, read⟩ := strip returned
    refine stranded.onTuple (fun frame bytes fetched headed acted => ?_) read
    obtain ⟨row, -, same⟩ := bind_eq_some_iff.mp acted
    cases same
    exact stranded
  | vacuumPage pageID =>
    obtain ⟨result, vacuumed⟩ := strip returned
    exact stranded.vacuumPage vacuumed

end

end Stranded

structure Serving (heap : TableHeap) : Prop where
  inserts : ∀ row : RawTuple, row.length = heap.desc.bytesPerTuple → ∃ answer later,
    heap.insertTuple row = some (answer, later) ∧ (heap.pages.length + 1 < 2 ^ 31 → ∃ rid, answer = .ok rid)
  reads : ∀ rid row (buffer : List Byte), heap.contents rid = .live row → buffer.length = heap.desc.bytesPerTuple →
    heap.readTuple rid buffer = some (.ok row, heap)
  scans : ∃ rows, TableHeapIterator.Pass heap.iterator rows ∧ ∀ rid row, (rid, row) ∈ rows ↔ heap.contents rid = .live row

theorem WellFormed.serving (formed : heap.WellFormed) : heap.Serving where
  inserts row length := by
    rcases insertTuple_spec formed length with ⟨rid, later, answer, -⟩ | ⟨full, failed⟩
    · exact ⟨_, _, answer, fun _ => ⟨rid, rfl⟩⟩
    · exact ⟨_, _, failed, fun room => absurd room (Nat.not_lt.mpr full)⟩
  reads rid row buffer live length := by
    rcases readTuple_spec (names_of_live live) formed length with ⟨stored, same, answer⟩ | ⟨dead, -⟩
    · cases live.symm.trans same
      exact answer
    · exact absurd live (dead row)
  scans := by
    obtain ⟨rows, pass, -, members⟩ := iterator_pass formed
    exact ⟨rows, pass, members⟩

theorem Stranded.not_serving (stranded : heap.Stranded) : ¬ heap.Serving := by
  intro serving
  obtain ⟨answer, later, returned, -⟩ :=
    serving.inserts (replicate heap.desc.bytesPerTuple 0) (length_replicate ..)
  cases (stranded.insertTuple_panics _).symm.trans returned

/-- What a call does as long as the pages of dirty frames can be written. -/
inductive Effect (heap : TableHeap) : HeapCall × InsertFault n → HeapReply → TableHeap → Prop where
  | served {call : HeapCall} {fault : InsertFault n} {answer : HeapReply} {later : TableHeap}
      (kept : ¬ heap.NewPageFails (call, fault))
      (invoked : heap.invoke call = some (answer, later)) : Effect heap (call, fault) answer later
  | stopped {row : RawTuple} {fault : InsertFault n} (kept : ¬ heap.NewPageFails (.insertTuple row, fault)) :
      Effect heap (.insertTuple row, fault) (.failed .storage) heap
  | stranded {row : RawTuple} {fault : InsertFault n} (fails : heap.NewPageFails (.insertTuple row, fault)) :
      Effect heap (.insertTuple row, fault) (.failed .storage) heap.allocatePage

variable {call : HeapCall × InsertFault n} {answer : HeapReply}

theorem Effect.stranded_iff (effect : heap.Effect call answer later) (stranded : heap.Stranded ∨ heap.NewPageFails call) :
    later.Stranded := by
  cases effect with
  | served kept invoked => exact (stranded.resolve_right kept).invoke invoked
  | stopped kept => exact stranded.resolve_right kept
  | stranded => exact stranded_allocatePage heap

theorem Effect.contents {error : HeapError} (effect : heap.Effect call (.failed error) later)
    (inserts : call.1 = .insertTuple row) : later.contents = heap.contents := by
  cases effect with
  | served _ invoked =>
    cases inserts
    obtain ⟨⟨result | rid, changed⟩, returned, same⟩ := map_eq_some_iff.mp invoked <;> cases same
    rw [eq_of_failed_insert returned]
  | stopped => rfl
  | stranded => exact contents_allocatePage heap

structure Backs (pages : PageID → Bool) (pool : BufferPool Unit n) (heap : TableHeap) : Prop where
  reserved : pages ⟨0, 0⟩ = false
  consistent : pool.Consistent pages
  synced : pool.Synced
  holds : ∀ (p : Nat) frame, heap.pages[p]? = some frame → pages ⟨heap.oid, p⟩ = true ∧ pool.content ⟨heap.oid, p⟩ = frame

theorem Backs.reload (backs : Backs get.pages get.pool heap) (sound : ¬ get.pool.Poisoned get.pages)
    (failed : (get.call page).1 = .failed) (written : ¬ get.pool.WriteBackFails () (.getPage page get.faults)) :
    heap.reload (get.call page).2 = heap := by
  have pages : (heap.pages.mapIdx fun p _ => (get.call page).2.content ⟨heap.oid, p⟩) = heap.pages := by
    refine List.ext_getElem? fun p => ?_
    rw [getElem?_mapIdx]
    cases found : heap.pages[p]? with
    | none => rfl
    | some frame =>
      obtain ⟨named, same⟩ := backs.holds p frame found
      rw [map_some, FailedGet.call, BufferPool.content_of_failed backs.consistent sound backs.synced failed written named, same]
  rw [TableHeap.reload, pages]

end TableHeap

theorem Ledger.Balanced.effect {n : Nat} {ledger : Ledger} {call : HeapCall × InsertFault n} {answer : HeapReply}
    {later : TableHeap} (balanced : ledger.Balanced) (proper : ledger.Proper call.1)
    (effect : ledger.heap.Effect call answer later) (kept : ¬ ledger.heap.NewPageFails call) :
    (ledger.record later call.1 answer).Balanced := by
  cases effect with
  | served _ invoked =>
    obtain ⟨answer, heap, served, -, -, balanced⟩ := balanced.serves proper
    cases invoked.symm.trans served
    exact balanced
  | stopped => exact balanced
  | stranded fails => exact (kept fails).elim

/-- The calls on a heap whose pages are in a pool, next to those of other files. -/
structure PooledLedger (n : Nat) extends Ledger where
  pool : BufferPool Unit n
  pages : PageID → Bool
  backs : Backs pages pool heap

namespace PooledLedger
variable {n : Nat} {state later : PooledLedger n} {event : (HeapCall × InsertFault n) × HeapReply}

def Poisoned (state : PooledLedger n) : Prop := state.pool.Poisoned state.pages

/-- Before and after a call that fails, others may use the pool in any way that keeps the pages. -/
structure Called (state : PooledLedger n) (event : (HeapCall × InsertFault n) × HeapReply) (later : PooledLedger n) :
    Prop where
  invoked : state.heap.invokeWith event.1 = some (event.2, later.heap)
  recorded : later.toLedger = state.record later.heap event.1.1 event.2
  asked : ∀ get target page, state.heap.Asks event.1 get target page →
    Backs get.pages get.pool target ∧ (get.call page).1 = .failed ∧
    (get.pool.Poisoned get.pages ↔ state.Poisoned) ∧ (later.Poisoned ↔ (get.call page).2.Poisoned get.pages)
  quiet : (∀ get target page, ¬ state.heap.Asks event.1 get target page) → (later.Poisoned ↔ state.Poisoned)

/-- Whatever is called from here on without a fault, the heap goes on serving and so does the pool. -/
def Usable (state : PooledLedger n) : Prop :=
  ∀ steps later, Run Called state steps later → (∀ taken ∈ steps, taken.before.Proper taken.label.1.1) →
    (∀ taken ∈ steps, taken.label.1.2 = .none) → later.heap.Serving ∧ later.pool.Usable later.pages ()

theorem Called.poisoned_iff (called : state.Called event later) :
    later.Poisoned ↔ state.Poisoned ∨ state.heap.WriteBackFails event.1 := by
  by_cases asks : ∃ get target page, state.heap.Asks event.1 get target page
  · obtain ⟨get, target, page, asks⟩ := asks
    obtain ⟨backs, -, before, after⟩ := called.asked get target page asks
    rw [after, ← before]
    have pinned : get.pool.Pinned (.getPage page get.faults) := trivial
    refine (BufferPool.poisoned_run_iff backs.reserved backs.consistent pinned).trans (or_congr_right ⟨fun fails => ?_, ?_⟩)
    · exact ⟨get, target, page, asks, fails⟩
    · rintro ⟨other, _, _, same, fails⟩
      generalize event.1 = call at asks same
      cases asks <;> cases same <;> exact fails
  · have quiet : ∀ get target page, ¬ state.heap.Asks event.1 get target page := by simpa using asks
    rw [called.quiet quiet, or_iff_left]
    exact fun ⟨_, _, _, asks, _⟩ => quiet _ _ _ asks

theorem Called.effect (called : state.Called event later) (sound : ¬ later.Poisoned) :
    state.heap.Effect event.1 event.2 later.heap := by
  rw [called.poisoned_iff, not_or] at sound
  obtain ⟨invoked, -, asked, -⟩ := called
  obtain ⟨⟨call, fault⟩, answer⟩ := event
  generalize later.heap = after at invoked ⊢
  cases call with
  | insertTuple row =>
    by_cases asks : ∃ get target page, state.heap.Asks (.insertTuple row, fault) get target page
    · obtain ⟨get, target, page, asks⟩ := asks
      obtain ⟨backs, failed, before, -⟩ := asked get target page asks
      have kept := backs.reload (before.not.mpr sound.1) failed fun fails => sound.2 ⟨get, target, page, asks, fails⟩
      rw [invokeWith, insertTupleWith_of_asks asks, kept] at invoked
      cases invoked
      cases asks with
      | lastPage => exact .stopped fun ⟨_, _, _, _, other⟩ => by cases other
      | newPage full room => exact .stranded ⟨full, room, row, get, rfl⟩
    · have quiet : ∀ get target page, ¬ state.heap.Asks (.insertTuple row, fault) get target page := by simpa using asks
      have kept : ¬ state.heap.NewPageFails (.insertTuple row, fault) := by
        rintro ⟨full, room, _, get, ⟨⟩⟩
        exact quiet get _ _ (.newPage full room)
      rcases insertTupleWith_cases quiet with same | same
      · rw [invokeWith, same] at invoked
        cases invoked
        exact .stopped kept
      · exact .served kept ((congrArg (reply .inserted) same).symm.trans invoked)
  | _ =>
    exact .served (fun ⟨_, _, _, _, other⟩ => by cases other) invoked

variable {first final : PooledLedger n} {steps : List (Taken (PooledLedger n) ((HeapCall × InsertFault n) × HeapReply))}

theorem poisoned_run (run : Run Called state steps final) : final.Poisoned ↔
    state.Poisoned ∨ ∃ taken ∈ steps, taken.before.heap.WriteBackFails taken.label.1 := by
  induction run with
  | nil => simp
  | snoc earlier taken ih =>
    rw [taken.poisoned_iff, ih]
    simp only [mem_append, mem_singleton, or_and_right, exists_or, exists_eq_left]
    exact or_assoc

theorem stranded_run (run : Run Called state steps final) (sound : ¬ final.Poisoned)
    (stranded : state.heap.Stranded ∨ ∃ taken ∈ steps, taken.before.heap.NewPageFails taken.label.1) :
    final.heap.Stranded := by
  induction run with
  | nil => simpa using stranded
  | @snoc steps before event after earlier taken ih =>
    have sound' := mt (fun poisoned => taken.poisoned_iff.mpr (.inl poisoned)) sound
    refine (taken.effect sound).stranded_iff ?_
    rcases stranded with stranded | ⟨_, member, fails⟩
    · exact .inl (ih sound' (.inl stranded))
    · rcases mem_append.mp member with member | member
      · exact .inl (ih sound' (.inr ⟨_, member, fails⟩))
      · cases mem_singleton.mp member
        exact .inr fails

def Fine (state : PooledLedger n) (event : (HeapCall × InsertFault n) × HeapReply) : Prop :=
  state.Proper event.1.1 ∧ ¬ state.heap.NewPageFails event.1 ∧ ¬ state.heap.WriteBackFails event.1

theorem balanced_run (run : Run Called state steps final) (fine : ∀ taken ∈ steps, taken.before.Fine taken.label)
    (balanced : state.Balanced) (sound : ¬ state.Poisoned) : final.Balanced ∧ ¬ final.Poisoned := by
  refine run.invariant_when Fine (fun state => state.Balanced ∧ ¬ state.Poisoned) ⟨balanced, sound⟩ ?_ fine
  rintro state event later ⟨balanced, sound⟩ ⟨proper, kept, written⟩ called
  have sound : ¬ later.Poisoned := by
    rw [called.poisoned_iff]
    exact not_or.mpr ⟨sound, written⟩
  refine ⟨?_, sound⟩
  rw [called.recorded]
  exact balanced.effect proper (called.effect sound) kept

/-- An insertion that fails keeps the rows while no fetch of the run failed to write a dirty page.
The heap and its pool can be used once the faults stop exactly when, besides, no page was allocated
that could not be fetched. -/
theorem rows_kept_and_usable_iff (oid : ObjectID) (desc : RawTupleDesc) (new : first.toLedger = .start oid desc)
    (sound : ¬ first.Poisoned) (run : Run Called first steps final)
    (proper : ∀ taken ∈ steps, taken.before.Proper taken.label.1.1) :
    ((∀ taken ∈ steps, ¬ taken.before.heap.WriteBackFails taken.label.1) →
      ∀ taken ∈ steps, ∀ row error, taken.label.1.1 = .insertTuple row → taken.label.2 = .failed error →
        taken.after.heap.contents = taken.before.heap.contents) ∧
    (final.Usable ↔ ∀ taken ∈ steps,
      ¬ taken.before.heap.NewPageFails taken.label.1 ∧ ¬ taken.before.heap.WriteBackFails taken.label.1) := by
  refine ⟨fun written => ?_, fun usable => ?_, fun fine => ?_⟩
  · refine run.every_when (fun state event => ¬ state.heap.WriteBackFails event.1) (fun state => ¬ state.Poisoned)
      (fun state event later => ∀ row error, event.1.1 = .insertTuple row → event.2 = .failed error →
        later.heap.contents = state.heap.contents) sound ?_ ?_ written
    · intro state event later sound written called
      rw [called.poisoned_iff]
      exact not_or.mpr ⟨sound, written⟩
    · intro state event later sound written called row error inserts failed
      have sound : ¬ later.Poisoned := by
        rw [called.poisoned_iff]
        exact not_or.mpr ⟨sound, written⟩
      exact (failed ▸ called.effect sound).contents inserts
  · obtain ⟨serving, pool⟩ := usable [] final .nil (forall_mem_nil _) (forall_mem_nil _)
    have sound := (BufferPool.flushAllPages_none_iff final.pages final.pool).mp pool.flushAllPages
    refine fun taken member => ⟨fun fails => ?_, fun fails => sound ((poisoned_run run).mpr (.inr ⟨taken, member, fails⟩))⟩
    exact (stranded_run run sound (.inr ⟨taken, member, fails⟩)).not_serving serving
  · obtain ⟨balanced, sound⟩ := balanced_run run (fun taken member => ⟨proper taken member, fine taken member⟩)
      (by rw [new]; exact Ledger.balanced_start oid desc) sound
    intro more later continued proper faultless
    have kept : ∀ taken ∈ more, taken.before.Fine taken.label := by
      rintro ⟨before, ⟨⟨call, fault⟩, answer⟩, after⟩ member
      cases show fault = .none from faultless _ member
      exact ⟨proper _ member, fun ⟨_, _, _, _, other⟩ => (by cases other), fun ⟨_, _, _, asks, _⟩ => (by cases asks)⟩
    obtain ⟨balanced, sound⟩ := balanced_run continued kept balanced sound
    exact ⟨balanced.formed.serving, BufferPool.usable_of_sound later.backs.consistent sound ()⟩

section OneFrame
open BufferPool

def onlyFile (page : PageID) : Bool := page.oid = 1

def unused (heap : TableHeap) : BufferPool Unit 1 :=
  newBufferPool Unit 1 fun page => (heap.getPage page).getD .zero

theorem backs_unused {heap : TableHeap} (table : heap.oid = 1) : Backs onlyFile (unused heap) heap := by
  refine ⟨rfl, consistent_newBufferPool rfl _, nofun, fun p frame found => ⟨by simp [onlyFile, table], ?_⟩⟩
  simp [content, unused, newBufferPool, TableHeap.getPage, found]

theorem sound_unused (heap : TableHeap) : ¬ (unused heap).Poisoned onlyFile := by
  rintro ⟨frame, -, dirty⟩
  cases dirty

def unopened (heap : TableHeap) : FailedGet 1 := ⟨unused heap, onlyFile, ⟨false, none, true, none⟩⟩

theorem written_unopened (heap : TableHeap) (page : PageID) :
    ¬ (unopened heap).pool.WriteBackFails () (.getPage page (unopened heap).faults) := by
  rintro ⟨_, _, _, _, -, -, dirty, -⟩
  cases dirty

def cold (ledger : Ledger) (table : ledger.heap.oid = 1) : PooledLedger 1 where
  toLedger := ledger
  pool := unused ledger.heap
  pages := onlyFile
  backs := backs_unused table

theorem cold_called {ledger : Ledger} {call : HeapCall × InsertFault 1} {answer : HeapReply} {heap : TableHeap}
    (table : ledger.heap.oid = 1) (table' : heap.oid = 1)
    (asks : ∀ get target page, ledger.heap.Asks call get target page → get = unopened target)
    (invoked : ledger.heap.invokeWith call = some (answer, heap)) :
    (cold ledger table).Called (call, answer) (cold (ledger.record heap call.1 answer) table') := by
  refine ⟨invoked, rfl, fun get target page asked => ?_, fun _ => iff_of_false (sound_unused _) (sound_unused _)⟩
  cases asks get target page asked
  have backs : Backs onlyFile (unused target) target := by
    cases asked <;> exact backs_unused table
  have pinned : (unused target).Pinned (.getPage page (unopened target).faults) := trivial
  have sound := (poisoned_run_iff backs.reserved backs.consistent pinned).not.mpr
    (not_or.mpr ⟨sound_unused target, written_unopened target page⟩)
  exact ⟨backs, rfl, iff_of_false (sound_unused _) (sound_unused _), iff_of_false (sound_unused _) sound⟩

def nines : RawTuple := replicate 16 9

def empty : PooledLedger 1 := cold (.start 1 .twoInts) rfl

/-- The page that the first insertion allocated cannot be fetched, and no insertion returns any more. -/
theorem unfetched_page_blocks_inserts : ∃ get final, nines.length = RawTupleDesc.twoInts.bytesPerTuple ∧
    Run Called empty [⟨empty, ((.insertTuple nines, .newPage get), .failed .storage), final⟩] final ∧
    ∀ row, final.heap.insertTuple row = none := by
  refine ⟨unopened empty.heap.allocatePage, _, rfl, Run.nil.snoc (cold_called rfl rfl ?_ rfl),
    (stranded_allocatePage empty.heap).insertTuple_panics⟩
  rintro _ _ _ ⟨⟩
  rfl

/-- The file of a page with a row cannot be opened when the next row is inserted. -/
theorem unopened_file_survived : ∃ rid filled get,
    Run Called empty [⟨empty, ((.insertTuple nines, .none), .inserted rid), filled⟩,
      ⟨filled, ((.insertTuple nines, .lastPage get), .failed .storage), filled⟩] filled ∧
    filled.heap.contents rid = .live nines ∧ filled.Usable := by
  have formed : empty.heap.WellFormed := forall_mem_nil _
  rcases @insertTuple_spec _ formed nines rfl with ⟨rid, heap, inserted, inserts⟩ | ⟨full, -⟩
  · have table : heap = { empty.heap with pages := heap.pages } := inserts.table
    have file : heap.oid = 1 := by rw [table]; rfl
    obtain ⟨p, inside, -⟩ := inserts.named
    have nonempty : heap.pages ≠ [] := ne_nil_of_length_pos (Nat.zero_lt_of_lt inside)
    let filled := cold (empty.record heap (.insertTuple nines) (.inserted rid)) file
    have first : empty.Called ((.insertTuple nines, .none), .inserted rid) filled :=
      cold_called rfl file nofun (congrArg (reply .inserted) inserted)
    have unchanged : heap.insertTupleWith (.lastPage (unopened heap)) nines = some (.error .storage, heap) := by
      have same (page : PageID) : heap.reload ((unopened heap).call page).2 = heap :=
        @Backs.reload _ _ (unopened heap) page (backs_unused file) (sound_unused _) rfl (written_unopened heap page)
      rw [insertTupleWith_of_asks (.lastPage nonempty), same]
    have second : filled.Called ((.insertTuple nines, .lastPage (unopened heap)), .failed .storage) filled :=
      cold_called file file (by rintro _ _ _ ⟨⟩; rfl) (congrArg (reply .inserted) unchanged)
    have run : Run Called empty _ filled := .snoc (.snoc .nil first) second
    have sound : ¬ empty.Poisoned := sound_unused _
    refine ⟨rid, filled, unopened heap, run, ?_, (rows_kept_and_usable_iff 1 .twoInts rfl sound run ?_).2.mpr ?_⟩
    · exact (congrFun inserts.contents rid).trans (Function.update_self ..)
    · refine forall_mem_cons.mpr ⟨rfl, forall_mem_singleton.mpr ?_⟩
      change nines.length = heap.desc.bytesPerTuple
      rw [table]
      rfl
    · refine forall_mem_cons.mpr ⟨⟨?_, ?_⟩, forall_mem_singleton.mpr ⟨?_, ?_⟩⟩
      · rintro ⟨_, _, _, _, ⟨⟩⟩
      · rintro ⟨_, _, _, ⟨⟩, _⟩
      · rintro ⟨_, _, _, _, ⟨⟩⟩
      · rintro ⟨_, _, _, ⟨⟩, fails⟩
        exact written_unopened heap _ fails
  · exact absurd full (by decide)

end OneFrame

end PooledLedger
end GoDB.Execution
