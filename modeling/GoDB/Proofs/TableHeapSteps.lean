import GoDB.Proofs.PageCalls

/-! The pages of a shared table heap as they will be when all calls at work without a latch are
through. A step that does not come between their accesses keeps them, or does to them what one
call does to a heap. -/

namespace GoDB.Execution
open Common Lib Storage TableHeap List PageAccesses Nat

namespace TableHeap
variable {heap later : TableHeap} {pageID other : PageID} {frame final : PageBytes}

def Room (heap : TableHeap) : Prop := heap.pages.length + 1 < 2 ^ 31

def Placed (heap : TableHeap) (running : RunningHeapCall) : Prop :=
  match running.phase with
  | .locked | .allocating => ∃ row, running.call = .call (.insertTuple row)
  | .decoded => (∃ row, running.call = .call (.insertTuple row)) ∧ running.heapPage.isSome ∧ heap.pages ≠ []
  | .fetched => (∃ pageID slot, running.call = .visit pageID slot) ∧ running.heapPage.isSome
  | .inRange => (∃ pageID slot, running.call = .visit pageID slot ∧ slot < heap.slots) ∧ running.heapPage.isSome
  | .waiting | .working _ _ _ | .finished _ | .returned _ => True
  | .panicked => False

structure Fits (heap : TableHeap) (running : RunningHeapCall) : Prop where
  layout : ∀ layout, running.heapPage = some layout → layout = .ofSlots heap.slots
  proper : heap.Proper running.call
  placed : heap.Placed running

structure Extends (heap later : TableHeap) : Prop where
  oid : later.oid = heap.oid
  desc : later.desc = heap.desc
  length : heap.pages.length ≤ later.pages.length

theorem getPage_isSome : (heap.getPage pageID).isSome ↔
    pageID.oid = heap.oid ∧ 0 ≤ pageID.pageNum ∧ pageID.pageNum.toNat < heap.pages.length := by
  unfold getPage
  split
  next inside => simp [inside.1, inside.2]
  next outside =>
    simp only [Option.isSome_none, Bool.false_eq_true, false_iff]
    exact fun inside => outside ⟨inside.1, inside.2.1⟩

theorem Extends.getPage (extends' : Extends heap later) (present : (heap.getPage pageID).isSome) :
    (later.getPage pageID).isSome := by
  rw [getPage_isSome] at present ⊢
  exact ⟨extends'.oid ▸ present.1, present.2.1, present.2.2.trans_le extends'.length⟩

theorem Extends.fits (extends' : Extends heap later) {running : RunningHeapCall} (fits : heap.Fits running) :
    later.Fits running := by
  have slots : later.slots = heap.slots := by rw [slots, extends'.desc, slots]
  obtain ⟨call, heapPage, phase⟩ := running
  refine ⟨fun layout decoded => slots ▸ fits.layout layout decoded, ?_, ?_⟩
  · have slot {rid : RecordID} (has : heap.HasSlot rid) : later.HasSlot rid :=
      ⟨extends'.getPage has.1, has.2.1, by rw [extends'.desc]; exact has.2.2⟩
    cases call with
    | visit => exact extends'.getPage fits.proper
    | call call =>
      cases call with
      | insertTuple => trivial
      | vacuumPage => exact extends'.getPage fits.proper
      | updateTuple | deleteTuple | readTuple => exact slot fits.proper
  · have placed := fits.placed
    cases phase with
    | decoded =>
      refine ⟨placed.1, placed.2.1, fun empty => placed.2.2 (length_eq_zero_iff.mp ?_)⟩
      have shorter := extends'.length
      rw [empty] at shorter
      exact le_zero.mp shorter
    | inRange =>
      simp only [Placed, slots]
      exact placed
    | _ => exact placed

theorem getPage_setFrame_self (fetched : heap.getPage pageID = some frame) :
    (heap.setFrame pageID final).getPage pageID = some final := by
  obtain ⟨n, rfl, found⟩ := getPage_eq_some fetched
  have inside := (List.getElem?_eq_some_iff.mp found).1
  simp [getPage, setFrame, inside]

theorem getPage_setFrame_of_ne (fetched : heap.getPage pageID = some frame) (apart : other ≠ pageID) :
    (heap.setFrame pageID final).getPage other = heap.getPage other := by
  obtain ⟨n, rfl, found⟩ := getPage_eq_some fetched
  unfold getPage setFrame
  refine ite_congr rfl (fun inside => ?_) fun _ => rfl
  simp only at inside ⊢
  rw [Int.toNat_natCast, getElem?_set_ne]
  intro same
  apply apart
  obtain ⟨object, number⟩ := other
  simp only at inside same ⊢
  rw [same, Int.toNat_of_nonneg inside.2, inside.1]

theorem wellFormed_setFrame (formed : heap.WellFormed) (laid : Laid heap.desc.bytesPerTuple final) :
    (heap.setFrame pageID final).WellFormed := by
  intro frame member
  rcases mem_or_eq_of_mem_set member with before | rfl
  · exact formed frame before
  · exact laid

theorem length_setFrame (heap : TableHeap) (pageID : PageID) (frame : PageBytes) :
    (heap.setFrame pageID frame).pages.length = heap.pages.length := length_set

def addPage (heap : TableHeap) (frame : PageBytes) : TableHeap := { heap with pages := heap.pages ++ [frame] }

theorem length_addPage (heap : TableHeap) (frame : PageBytes) :
    (heap.addPage frame).pages.length = heap.pages.length + 1 := by
  simp [addPage]

theorem getPage_addPage (fetched : heap.getPage pageID = some frame) : (heap.addPage final).getPage pageID = some frame := by
  obtain ⟨n, rfl, found⟩ := getPage_eq_some fetched
  have inside := (List.getElem?_eq_some_iff.mp found).1
  simp [getPage, addPage, getElem?_append_left inside, found]

theorem getPage_addPage_next (heap : TableHeap) (frame : PageBytes) :
    (heap.addPage frame).getPage heap.nextRID.pageID = some frame := by
  simp [getPage, addPage, nextRID]

theorem getPage_addPage_of_ne (apart : pageID ≠ heap.nextRID.pageID) :
    (heap.addPage final).getPage pageID = heap.getPage pageID := by
  unfold getPage addPage
  refine ite_congr rfl (fun inside => ?_) fun _ => rfl
  obtain ⟨object, number⟩ := pageID
  lift number to Nat using inside.2
  have other : number ≠ heap.pages.length := fun same => apart (by rw [same, nextRID, ← inside.1])
  rw [Int.toNat_natCast]
  rcases lt_or_gt_of_ne other with below | beyond
  · exact getElem?_append_left below
  · rw [getElem?_eq_none beyond.le, getElem?_eq_none (by simpa [succ_le_iff] using beyond)]

theorem getPage_nextRID (heap : TableHeap) : heap.getPage heap.nextRID.pageID = none := by
  simp [getPage, nextRID]

theorem wellFormed_addPage (formed : heap.WellFormed) (laid : Laid heap.desc.bytesPerTuple final) :
    (heap.addPage final).WellFormed := by
  intro frame member
  rcases mem_append.mp member with before | last
  · exact formed frame before
  · cases mem_singleton.mp last
    exact laid

theorem Extends.refl (heap : TableHeap) : heap.Extends heap := ⟨rfl, rfl, le_refl _⟩

theorem extends_addPage (heap : TableHeap) (frame : PageBytes) : Extends heap (heap.addPage frame) :=
  ⟨rfl, rfl, by rw [length_addPage]; exact le_succ _⟩

theorem extends_setFrame (heap : TableHeap) (pageID : PageID) (frame : PageBytes) :
    Extends heap (heap.setFrame pageID frame) := ⟨rfl, rfl, (heap.length_setFrame pageID frame).ge⟩

end TableHeap

namespace SharedTableHeap
variable {state later : SharedTableHeap} {heap : TableHeap} {id : Nat} {running turned : RunningHeapCall}
variable {pageID : PageID} {frame final : PageBytes}

def Working (state : SharedTableHeap) (id : Nat) (pageID : PageID) (rest : PageAccesses Unit) : Prop :=
  ∃ call heapPage answer, state.calls[id]? = some ⟨call, heapPage, .working pageID rest answer⟩

def Holds (running : RunningHeapCall) : Prop :=
  (∃ row, running.call = .call (.insertTuple row)) ∧
    match running.phase with
    | .waiting | .returned _ => False
    | _ => True

def Exclusive (state : SharedTableHeap) : Prop :=
  ∀ (id : Nat) (running : RunningHeapCall), state.calls[id]? = some running → Holds running → state.mu = some id

/-- The heap has the pages as they will be. -/
structure Sound (state : SharedTableHeap) (heap : TableHeap) : Prop where
  oid : heap.oid = state.heap.oid
  desc : heap.desc = state.heap.desc
  formed : heap.WellFormed
  fits : ∀ {id : Nat} {running : RunningHeapCall}, state.calls[id]? = some running → state.heap.Fits running
  exclusive : state.Exclusive
  pages : ∀ {pageID : PageID} {frame : PageBytes}, state.heap.getPage pageID = some frame →
    ∃ final, heap.getPage pageID = some final ∧ ((∀ id rest, ¬ state.Working id pageID rest) → final = frame)
  works : ∀ {id : Nat} {pageID : PageID} {rest : PageAccesses Unit}, state.Working id pageID rest →
    ∃ frame final, state.heap.getPage pageID = some frame ∧ heap.getPage pageID = some final ∧
      rest.run frame = some ((), final)
  alone : ∀ {id : Nat} {pageID : PageID} {rest : PageAccesses Unit}, state.Working id pageID rest → state.Spared id pageID
  level : (∀ (id : Nat) (running : RunningHeapCall), state.calls[id]? = some running → running.phase = .allocating →
    ¬ state.heap.Room) → heap.pages.length = state.heap.pages.length
  next : ∀ {id : Nat} {heapPage : Option PageLayout} {row : RawTuple},
    state.calls[id]? = some ⟨.call (.insertTuple row), heapPage, .allocating⟩ → state.heap.Room →
    heap.pages.length = state.heap.pages.length + 1 ∧ ∃ final, heap.getPage state.heap.nextRID.pageID = some final ∧
      ∀ frame, (fillNewPage state.heap.desc state.heap.nextRID row).run frame = some ((), final)

def Settled (heap : TableHeap) (phase : HeapPhase) : Prop := phase.Idle ∨ phase = .allocating ∧ ¬ heap.Room

abbrev Turns (state later : SharedTableHeap) (id : Nat) (turned : RunningHeapCall) : Prop :=
  Turned state.calls later.calls id turned

theorem turns_goto (here : state.calls[id]? = some running) (phase : HeapPhase) :
    Turns state (state.goto id phase) id { running with phase } :=
  turned_modify here _

theorem turns_decode (here : state.calls[id]? = some running) (frame : PageBytes) (phase : HeapPhase) :
    Turns state (state.decode id frame phase) id { running with heapPage := some (.ofSlots (frame.uint16 10)), phase } :=
  turned_modify here _

theorem turns_invoke (state : SharedTableHeap) (running : RunningHeapCall) :
    Turns state { state with calls := state.calls ++ [running] } state.calls.length running :=
  turned_concat state.calls running

theorem heap_unlock (state : SharedTableHeap) (id : Nat) : (state.unlock id).heap = state.heap := by
  unfold unlock
  split <;> rfl

theorem calls_unlock (state : SharedTableHeap) (id : Nat) : (state.unlock id).calls = state.calls := by
  unfold unlock
  split <;> rfl

theorem turns_respond (here : state.calls[id]? = some running) (answer : SharedReply) :
    Turns state ((state.unlock id).goto id (.returned answer)) id { running with phase := .returned answer } := by
  have turns := turns_goto (state.calls_unlock id ▸ here) (.returned answer)
  intro other
  rw [turns, calls_unlock]

namespace Turns

section
variable (turns : Turns state later id turned)

include turns

theorem fits (sound : Sound state heap) (extends' : state.heap.Extends later.heap)
    (fits : later.heap.Fits turned) {other : Nat} {running : RunningHeapCall} (here : later.calls[other]? = some running) :
    later.heap.Fits running := by
  rcases turns.cases here with ⟨-, rfl⟩ | ⟨-, before⟩
  · exact fits
  · exact extends'.fits (sound.fits before)

theorem working_iff
    (was : ∀ running rest answer, state.calls[id]? = some running → running.phase ≠ .working pageID rest answer)
    (now : ∀ rest answer, turned.phase ≠ .working pageID rest answer) (other : Nat) (rest : PageAccesses Unit) :
    later.Working other pageID rest ↔ state.Working other pageID rest := by
  by_cases own : other = id
  · subst other
    refine iff_of_false ?_ ?_ <;> rintro ⟨call, heapPage, answer, here⟩
    · cases turns.self.symm.trans here
      exact now _ _ rfl
    · exact was _ _ _ here rfl
  · simp only [Working, turns.other own]

end

end Turns

theorem Sound.sole (sound : Sound state heap) (here : state.calls[id]? = some running) (holds : Holds running) {other : Nat}
    {another : RunningHeapCall} (there : state.calls[other]? = some another) (allocating : another.phase = .allocating) :
    other = id := by
  have placed := (sound.fits there).placed
  rw [TableHeap.Placed, allocating] at placed
  have holds' : Holds another := ⟨placed, by rw [allocating]; trivial⟩
  exact Option.some.inj ((sound.exclusive other another there holds').symm.trans (sound.exclusive id running here holds))

theorem Sound.level_of_holds (sound : Sound state heap) (here : state.calls[id]? = some running) (holds : Holds running)
    (idle : running.phase.Idle) :
    heap.pages.length = state.heap.pages.length ∧ heap.nextRID = state.heap.nextRID := by
  have level := sound.level fun other another there grows => by
    cases sound.sole here holds there grows
    cases here.symm.trans there
    rw [grows] at idle
    exact idle.elim
  exact ⟨level, by rw [nextRID, level, sound.oid, nextRID]⟩

structure OnPage (state : SharedTableHeap) (heap : TableHeap) (pageID : PageID) : Prop where
  pages : ∀ {frame : PageBytes}, state.heap.getPage pageID = some frame →
    ∃ final, heap.getPage pageID = some final ∧ ((∀ id rest, ¬ state.Working id pageID rest) → final = frame)
  works : ∀ {id : Nat} {rest : PageAccesses Unit}, state.Working id pageID rest →
    ∃ frame final, state.heap.getPage pageID = some frame ∧ heap.getPage pageID = some final ∧
      rest.run frame = some ((), final)
  alone : ∀ {id : Nat} {rest : PageAccesses Unit}, state.Working id pageID rest → state.Spared id pageID

variable {changed : TableHeap}

theorem Sound.elsewhere (sound : Sound state heap) (frames : later.heap.getPage pageID = state.heap.getPage pageID)
    (finals : ∀ final, heap.getPage pageID = some final → changed.getPage pageID = some final)
    (working : ∀ other rest, later.Working other pageID rest ↔ state.Working other pageID rest) :
    OnPage later changed pageID where
  pages fetched := by
    obtain ⟨final, found, free⟩ := sound.pages (frames.symm.trans fetched)
    exact ⟨final, finals final found, fun idle => free fun other rest busy => idle other rest ((working other rest).mpr busy)⟩
  works busy := by
    obtain ⟨frame, final, fetched, found, runs⟩ := sound.works ((working _ _).mp busy)
    exact ⟨frame, final, frames.trans fetched, finals final found, runs⟩
  alone busy other call heapPage rest answer apart there := by
    obtain ⟨call', heapPage', answer', before⟩ := (working other rest).mp ⟨call, heapPage, answer, there⟩
    exact sound.alone ((working _ _).mp busy) other call' heapPage' rest answer' apart before

theorem onPage_of_mine {written : PageBytes} (fetched : later.heap.getPage pageID = some written)
    (found : changed.getPage pageID = some final)
    (mine : ∀ other rest, later.Working other pageID rest → other = id ∧ rest.run written = some ((), final))
    (free : (∀ other rest, ¬ later.Working other pageID rest) → final = written) : OnPage later changed pageID where
  pages here := by
    cases fetched.symm.trans here
    exact ⟨final, found, free⟩
  works busy := ⟨written, final, fetched, found, (mine _ _ busy).2⟩
  alone busy other call heapPage rest answer apart there :=
    apart ((mine other rest ⟨call, heapPage, answer, there⟩).1.trans (mine _ _ busy).1.symm)

theorem Settled.not_working {phase : HeapPhase} (settled : Settled heap phase) (rest : PageAccesses Unit)
    (answer : SharedReply) : phase ≠ .working pageID rest answer := by
  rintro rfl
  rcases settled with idle | ⟨allocating, -⟩
  · exact idle
  · cases allocating

section
variable (sound : Sound state heap)

include sound

theorem Sound.turn (turns : Turns state later id turned) (same : later.heap = state.heap)
    (was : ∀ running, state.calls[id]? = some running → Settled state.heap running.phase)
    (now : Settled state.heap turned.phase) (fits : state.heap.Fits turned) (exclusive : later.Exclusive) :
    Sound later heap := by
  have onPage (pageID : PageID) : OnPage later heap pageID := sound.elsewhere (same ▸ rfl) (fun _ found => found)
    (turns.working_iff (fun running rest answer here => (was running here).not_working rest answer) now.not_working)
  refine ⟨same ▸ sound.oid, same ▸ sound.desc, sound.formed, turns.fits sound (same ▸ .refl _) (same ▸ fits),
    exclusive, (onPage _).pages, (onPage _).works, (onPage _).alone, fun full => ?_, fun there room => ?_⟩
  · rw [same] at full ⊢
    refine sound.level fun other running there allocating => ?_
    by_cases own : other = id
    · subst other
      rcases was _ there with idle | ⟨-, full⟩
      · rw [allocating] at idle
        exact idle.elim
      · exact full
    · exact full other running ((turns.other own).trans there) allocating
  · rw [same] at room ⊢
    rcases turns.cases there with ⟨-, rfl⟩ | ⟨-, there⟩
    · rcases now with idle | ⟨-, full⟩
      · exact idle.elim
      · exact absurd room full
    · exact sound.next there room

/-- A step on a page that no other call is at work on. The call may stay at work on it. -/
theorem Sound.edit (turns : Turns state later id turned) (spared : state.Spared id pageID)
    (fetched : state.heap.getPage pageID = some frame) {written : PageBytes}
    (page : later.heap = state.heap.setFrame pageID written) (laid : TableHeap.Laid heap.desc.bytesPerTuple final)
    (was : ∀ running, state.calls[id]? = some running → running.phase.Idle ∨
      ∃ rest answer, running.phase = .working pageID rest answer) (now : turned.phase.Idle ∧ final = written ∨
      ∃ rest answer, turned.phase = .working pageID rest answer ∧ rest.run written = some ((), final))
    (fits : state.heap.Fits turned) (exclusive : later.Exclusive) : Sound later (heap.setFrame pageID final) := by
  have extends' : state.heap.Extends later.heap := page ▸ state.heap.extends_setFrame pageID written
  have length : later.heap.pages.length = state.heap.pages.length := page ▸ state.heap.length_setFrame pageID written
  obtain ⟨settled, found, -⟩ := sound.pages fetched
  have mine (other : Nat) (rest : PageAccesses Unit) (works : later.Working other pageID rest) :
      other = id ∧ rest.run written = some ((), final) := by
    obtain ⟨call, heapPage, answer, there⟩ := works
    rcases turns.cases there with ⟨own, rfl⟩ | ⟨own, before⟩
    · rcases now with ⟨idle, -⟩ | ⟨rest, answer, works, runs⟩
      · exact idle.elim
      · cases works
        exact ⟨own, runs⟩
    · exact absurd before (spared other call heapPage rest answer own)
  have onPage (another : PageID) : OnPage later (heap.setFrame pageID final) another := by
    by_cases same : another = pageID
    · subst another
      refine onPage_of_mine (page ▸ getPage_setFrame_self fetched) (getPage_setFrame_self found) mine fun free => ?_
      rcases now with ⟨-, same⟩ | ⟨rest, answer, works, -⟩
      · exact same
      · obtain ⟨call, heapPage, phase⟩ := turned
        cases works
        exact absurd ⟨call, heapPage, answer, turns.self⟩ (free id rest)
    · refine sound.elsewhere (page ▸ getPage_setFrame_of_ne fetched same)
        (fun _ there => (getPage_setFrame_of_ne found same).trans there) (turns.working_iff ?_ ?_)
      · intro running rest answer here works
        rcases was running here with idle | ⟨rest, answer, works'⟩
        · rw [works] at idle
          exact idle
        · cases works.symm.trans works'
          exact same rfl
      · intro rest answer works
        rcases now with ⟨idle, -⟩ | ⟨rest, answer, works', -⟩
        · rw [works] at idle
          exact idle
        · cases works.symm.trans works'
          exact same rfl
  refine ⟨sound.oid.trans extends'.oid.symm, sound.desc.trans extends'.desc.symm,
    wellFormed_setFrame sound.formed laid, turns.fits sound extends' (extends'.fits fits), exclusive,
    (onPage _).pages, (onPage _).works, (onPage _).alone, fun full => ?_, fun there room => ?_⟩
  · rw [length_setFrame, length]
    refine sound.level fun other running there grows => ?_
    by_cases own : other = id
    · subst other
      have was := was _ there
      rw [grows] at was
      rcases was with idle | ⟨rest, answer, works⟩
      · exact idle.elim
      · cases works
    · have outside := full other running ((turns.other own).trans there) grows
      rwa [TableHeap.Room, length] at outside
  · rw [TableHeap.Room, length] at room
    rcases turns.cases there with ⟨-, rfl⟩ | ⟨-, before⟩
    · rcases now with ⟨idle, -⟩ | ⟨rest, answer, works, -⟩
      · exact idle.elim
      · cases works
    obtain ⟨longer, last, located, fills⟩ := sound.next before room
    have same : later.heap.nextRID = state.heap.nextRID := by rw [nextRID, length, page]; rfl
    have apart : state.heap.nextRID.pageID ≠ pageID := by
      rintro rfl
      cases state.heap.getPage_nextRID.symm.trans fetched
    refine ⟨by rw [length_setFrame, length, longer], last, ?_, ?_⟩
    · rw [same, getPage_setFrame_of_ne found apart, located]
    · rw [same, page]
      exact fills

variable {row : RawTuple} {heapPage : Option PageLayout}

/-- The last page is full. The new page counts from now on, if there is room for it. -/
theorem Sound.grow (here : state.calls[id]? = some running) (idle : running.phase.Idle) (holds : Holds running)
    (turns : Turns state later id ⟨.call (.insertTuple row), heapPage, .allocating⟩) (same : later.heap = state.heap)
    (room : state.heap.Room) (fits : state.heap.Fits ⟨.call (.insertTuple row), heapPage, .allocating⟩)
    (filled : ∀ frame, (fillNewPage heap.desc heap.nextRID row).run frame = some ((), final))
    (laid : TableHeap.Laid heap.desc.bytesPerTuple final) (exclusive : later.Exclusive) :
    Sound later (heap.addPage final) := by
  obtain ⟨level, next⟩ := sound.level_of_holds here holds idle
  have onPage (pageID : PageID) : OnPage later (heap.addPage final) pageID := by
    refine sound.elsewhere (same ▸ rfl) (fun _ => getPage_addPage) (turns.working_iff ?_ nofun)
    intro running rest answer there
    cases here.symm.trans there
    exact (show Settled heap _ from .inl idle).not_working rest answer
  refine ⟨same ▸ sound.oid, same ▸ sound.desc, wellFormed_addPage sound.formed laid,
    turns.fits sound (same ▸ .refl _) (same ▸ fits), exclusive, (onPage _).pages, (onPage _).works,
    (onPage _).alone, fun full => ?_, fun there _ => ?_⟩
  · exact absurd (same ▸ room) (full id _ turns.self rfl)
  · rcases turns.cases there with ⟨-, started⟩ | ⟨apart, before⟩
    · cases started
      rw [same, length_addPage, level, ← next, ← sound.desc]
      exact ⟨rfl, final, heap.getPage_addPage_next final, filled⟩
    · exact absurd (sound.sole here holds before rfl) apart

theorem Sound.allocate
    (here : state.calls[id]? = some ⟨.call (.insertTuple row), heapPage, .allocating⟩) (room : state.heap.Room)
    (turns : Turns state later id ⟨.call (.insertTuple row), heapPage, .working state.heap.nextRID.pageID
      (fillNewPage state.heap.desc state.heap.nextRID row) (.reply (.inserted state.heap.nextRID))⟩)
    (page : later.heap = state.heap.addPage .zero) (exclusive : later.Exclusive) : Sound later heap := by
  obtain ⟨longer, final, located, fills⟩ := sound.next here room
  have extends' : state.heap.Extends later.heap := page ▸ state.heap.extends_addPage .zero
  have onPage (pageID : PageID) : OnPage later heap pageID := by
    by_cases fresh : pageID = state.heap.nextRID.pageID
    · subst pageID
      refine @onPage_of_mine later id _ _ _ _ (page ▸ state.heap.getPage_addPage_next .zero) located ?_
        fun free => absurd ⟨_, _, _, turns.self⟩ (free id _)
      rintro other rest ⟨call, heapPage, answer, there⟩
      rcases turns.cases there with ⟨own, started⟩ | ⟨-, before⟩
      · rw [(HeapPhase.working.inj (congrArg RunningHeapCall.phase started)).2.1]
        exact ⟨own, fills .zero⟩
      · obtain ⟨frame, -, fetched, -⟩ := sound.works ⟨call, heapPage, answer, before⟩
        cases state.heap.getPage_nextRID.symm.trans fetched
    · refine sound.elsewhere (page ▸ getPage_addPage_of_ne fresh) (fun _ found => found) (turns.working_iff ?_ ?_)
      · intro running rest answer there
        cases here.symm.trans there
        exact HeapPhase.noConfusion
      · rintro rest answer works
        exact fresh (HeapPhase.working.inj works).1.symm
  refine ⟨sound.oid.trans extends'.oid.symm, sound.desc.trans extends'.desc.symm, sound.formed,
    turns.fits sound extends' (extends'.fits ⟨(sound.fits here).layout, (sound.fits here).proper, trivial⟩), exclusive,
    (onPage _).pages, (onPage _).works, (onPage _).alone, fun _ => ?_, fun there _ => ?_⟩
  · rw [page, length_addPage, longer]
  · rcases turns.cases there with ⟨-, started⟩ | ⟨apart, before⟩
    · cases started
    · exact absurd (sound.sole here ⟨⟨row, rfl⟩, trivial⟩ before rfl) apart

end

end SharedTableHeap
end GoDB.Execution
