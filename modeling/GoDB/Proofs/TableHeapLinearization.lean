import GoDB.Proofs.TableHeapSteps

/-! The calls on a table heap take effect one at a time as long as no step comes between the
accesses of another call without the latch. Such a call takes effect with its first access, an
insertion into a new page when it finds the last page full, and every other call under the latch. -/

namespace GoDB.Execution
open Common Lib Storage List Option TableHeap SharedTableHeap Progress PageAccesses

def standing (heap : TableHeap) : HeapPhase → Progress SharedReply
  | .allocating => .took (if heap.pages.length + 1 < 2 ^ 31 then .reply (.inserted heap.nextRID) else .storage)
  | .working _ _ answer | .finished answer => .took answer
  | .returned _ => .returned
  | .waiting | .locked | .decoded | .fetched | .inRange | .panicked => .pending

theorem standing_congr {heap later : TableHeap} (oid : later.oid = heap.oid)
    (length : later.pages.length = heap.pages.length) : standing later = standing heap := by
  funext phase
  cases phase with
  | allocating => simp [standing, nextRID, oid, length]
  | _ => rfl

variable {phase : HeapPhase}

theorem standing_of_ne {heap later : TableHeap} (apart : phase ≠ .allocating) :
    standing later phase = standing heap phase := by
  cases phase with
  | allocating => exact absurd rfl apart
  | _ => rfl

def HeapPhase.Early : HeapPhase → Prop
  | .waiting | .locked | .decoded | .fetched | .inRange => True
  | .allocating | .working _ _ _ | .finished _ | .returned _ | .panicked => False

theorem HeapPhase.Early.idle (early : phase.Early) : phase.Idle := by
  cases phase with
  | allocating | working => exact early
  | _ => trivial

theorem standing_of_early (early : phase.Early) (heap : TableHeap) : standing heap phase = .pending := by
  cases phase with
  | waiting | locked | decoded | fetched | inRange => rfl
  | _ => exact early.elim

namespace SharedTableHeap
variable {start heap : TableHeap} {state later : SharedTableHeap} {id : Nat} {running turned : RunningHeapCall}
variable {pageID : PageID} {frame final : PageBytes} {history : List (Event SharedCall SharedReply)}

def view (heap : TableHeap) (running : RunningHeapCall) : SharedCall × Progress SharedReply :=
  (running.call, standing heap running.phase)

abbrev Ordered (start : TableHeap) (state : SharedTableHeap) (history : List (Event SharedCall SharedReply))
    (order : List (Effect SharedCall SharedReply)) (heap : TableHeap) : Prop :=
  Explained TableHeap.Serves start (progressOf (view state.heap) state.calls) history order heap

def Explains (start : TableHeap) (state : SharedTableHeap) (history : List (Event SharedCall SharedReply)) : Prop :=
  ∃ order heap, Sound state heap ∧ Ordered start state history order heap

theorem explains_silent {order : List (Effect SharedCall SharedReply)} (explained : Ordered start state history order heap)
    (here : state.calls[id]? = some running) (sound : Sound later heap) (turns : Turns state later id turned)
    (call : turned.call = running.call) (same : standing later.heap turned.phase = standing state.heap running.phase)
    (kept : ∀ other running, other ≠ id → state.calls[other]? = some running →
      standing later.heap running.phase = standing state.heap running.phase) : Explains start later history :=
  ⟨order, heap, sound, explained.silent turns
    (fun other running apart there => congrArg (Prod.mk _) (kept other running apart there)) here (congrArg₂ Prod.mk call same)⟩

theorem explains_effect {order : List (Effect SharedCall SharedReply)} {changed : TableHeap} {answer : SharedReply}
    (explained : Ordered start state history order heap)
    (here : state.calls[id]? = some running) (pending : standing state.heap running.phase = .pending)
    (sound : Sound later changed) (turns : Turns state later id turned) (call : turned.call = running.call)
    (took : standing later.heap turned.phase = .took answer) (oid : later.heap.oid = state.heap.oid)
    (length : later.heap.pages.length = state.heap.pages.length) (serves : heap.Serves running.call answer changed) :
    Explains start later history :=
  ⟨_, changed, sound, explained.single turns
    (fun _ _ _ _ => congrArg (Prod.mk _) (congrFun (standing_congr oid length) _)) here (congrArg (Prod.mk _) pending)
    (congrArg₂ Prod.mk call took) serves⟩

theorem exclusive_turn (exclusive : state.Exclusive) (turns : Turns state later id turned) (mu : later.mu = state.mu)
    (here : state.calls[id]? = some running) (held : Holds turned → Holds running) : later.Exclusive := by
  intro other another there holds
  rw [mu]
  rcases turns.cases there with ⟨rfl, rfl⟩ | ⟨-, before⟩
  · exact exclusive _ running here (held holds)
  · exact exclusive other another before holds

theorem forall_of_here {P : RunningHeapCall → Prop} (here : state.calls[id]? = some running) (holds : P running) :
    ∀ other, state.calls[id]? = some other → P other :=
  fun _ there => some.inj (here.symm.trans there) ▸ holds

theorem holds_of (row : RawTuple) (call : running.call = .call (.insertTuple row))
    (inside : running.phase = .locked ∨ running.phase = .decoded ∨ running.phase = .allocating) : Holds running := by
  refine ⟨⟨row, call⟩, ?_⟩
  rcases inside with phase | phase | phase <;> rw [phase] <;> trivial

/-- What is on the page now is what will be on it. -/
theorem Sound.settled (sound : Sound state heap) (spared : state.Spared id pageID)
    (here : state.calls[id]? = some running) (idle : running.phase.Idle) (fetched : state.heap.getPage pageID = some frame) :
    heap.getPage pageID = some frame ∧ TableHeap.Laid heap.desc.bytesPerTuple frame := by
  obtain ⟨final, found, settled⟩ := sound.pages fetched
  cases settled fun other rest works => by
    obtain ⟨call, heapPage, answer, there⟩ := works
    by_cases own : other = id
    · subst other
      cases here.symm.trans there
      exact idle
    · exact spared other call heapPage rest answer own there
  obtain ⟨n, rfl, located⟩ := getPage_eq_some found
  exact ⟨found, sound.formed _ (mem_of_getElem? located)⟩

theorem Sound.last (sound : Sound state heap) (here : state.calls[id]? = some running) (holds : Holds running)
    (idle : running.phase.Idle) (spared : state.Spared id state.heap.lastPage) (last : state.heap.pages.getLast? = some frame) :
    state.heap.getPage state.heap.lastPage = some frame ∧ heap.pages.getLast? = some frame ∧
      heap.lastPage = state.heap.lastPage ∧ TableHeap.Laid heap.desc.bytesPerTuple frame := by
  obtain ⟨level, -⟩ := sound.level_of_holds here holds idle
  have fetched : state.heap.getPage state.heap.lastPage = some frame := by
    simpa [getPage, lastPage, ← getLast?_eq_getElem?] using last
  obtain ⟨found, laid⟩ := sound.settled spared here idle fetched
  have same : heap.lastPage = state.heap.lastPage := by rw [lastPage, level, sound.oid, lastPage]
  refine ⟨fetched, ?_, same, laid⟩
  rw [← same] at found
  simpa [getPage, lastPage, ← getLast?_eq_getElem?] using found

theorem work_spec {code : PageAccesses Unit} (runs : code.run frame = some ((), final)) (state : SharedTableHeap)
    (id : Nat) (pageID : PageID) (answer : SharedReply) (call : SharedCall) (heapPage : Option PageLayout) :
    ∃ written phase, state.work id pageID answer frame code =
        { state with heap := state.heap.setFrame pageID written }.goto id phase ∧
      standing state.heap phase = .took answer ∧ state.heap.Placed ⟨call, heapPage, phase⟩ ∧
      (phase.Idle ∧ final = written ∨
        ∃ rest answer, phase = .working pageID rest answer ∧ rest.run written = some ((), final)) := by
  rw [← Accesses.run_step] at runs
  rw [work]
  generalize code.step frame = result at runs
  obtain ⟨rest, written⟩ := result
  cases rest with
  | done =>
    cases runs
    exact ⟨written, .finished answer, rfl, rfl, trivial, .inl ⟨trivial, rfl⟩⟩
  | failed => cases runs
  | load next => exact ⟨written, .working pageID (.load next) answer, rfl, rfl, trivial, .inr ⟨_, _, rfl, runs⟩⟩
  | store change next => exact ⟨written, .working pageID (.store change next) answer, rfl, rfl, trivial, .inr ⟨_, _, rfl, runs⟩⟩

section Step
variable {order : List (Effect SharedCall SharedReply)} {call : SharedCall} {heapPage : Option PageLayout}
variable {answer : SharedReply} {phase : HeapPhase} {row : RawTuple}

/-- What the next step of a call does, in terms of the pages as they will be. -/
inductive Advances (state : SharedTableHeap) (heap : TableHeap) (id : Nat) : RunningHeapCall → SharedTableHeap → Prop
  | turn {running turned : RunningHeapCall} {later : SharedTableHeap} (turns : Turns state later id turned)
      (call : turned.call = running.call) (same : later.heap = state.heap) (was : running.phase.Early)
      (now : turned.phase.Early) (fits : state.heap.Fits turned) (exclusive : later.Exclusive) :
      Advances state heap id running later
  /-- A section under the latch. -/
  | settle {call : SharedCall} {heapPage : Option PageLayout} {phase : HeapPhase} {pageID : PageID}
      {frame written : PageBytes} {answer : SharedReply} (was : phase.Early) (spared : state.Spared id pageID)
      (fetched : state.heap.getPage pageID = some frame) (laid : TableHeap.Laid heap.desc.bytesPerTuple written)
      (serves : heap.Serves call answer (heap.setFrame pageID written))
      (held : Holds ⟨call, heapPage, .finished answer⟩ → Holds ⟨call, heapPage, phase⟩)
      (gives : ∀ rid, answer = .reply (.inserted rid) →
        (state.heap.setFrame pageID written).HasSlot rid ∧ ∃ row, call = .call (.insertTuple row)) :
      Advances state heap id ⟨call, heapPage, phase⟩
        ({ state with heap := state.heap.setFrame pageID written }.goto id (.finished answer))
  /-- The last page is full. -/
  | grow {row : RawTuple} {heapPage : Option PageLayout} {phase : HeapPhase} (inside : phase = .locked ∨ phase = .decoded)
      (full : heap.insertTuple row = heap.insertInNewPage row) :
      Advances state heap id ⟨.call (.insertTuple row), heapPage, phase⟩ (state.goto id .allocating)
  | allocate {row : RawTuple} {heapPage : Option PageLayout} :
      Advances state heap id ⟨.call (.insertTuple row), heapPage, .allocating⟩ (state.allocatePage id row)
  | work {call : SharedCall} {heapPage : Option PageLayout} {pageID : PageID} {rest : PageAccesses Unit}
      {answer : SharedReply} {frame : PageBytes} (fetched : state.heap.getPage pageID = some frame) :
      Advances state heap id ⟨call, heapPage, .working pageID rest answer⟩ (state.work id pageID answer frame rest)
  | vacuum {pageID : PageID} {heapPage : Option PageLayout} {frame : PageBytes} (spared : state.Spared id pageID)
      (fetched : state.heap.getPage pageID = some frame) :
      Advances state heap id ⟨.call (.vacuumPage pageID), heapPage, .waiting⟩
        (state.work id pageID (.reply .done) frame (vacuumPage pageID))

section Advances
variable (sound : Sound state heap)

include sound

theorem layout_decoded (laid : TableHeap.Laid heap.desc.bytesPerTuple frame) (layout : PageLayout)
    (decoded : some (.ofSlots (frame.uint16 10)) = some layout) : layout = .ofSlots state.heap.slots := by
  cases decoded
  rw [slots, ← sound.desc, ← laid.slots]
  rfl

theorem advances_look (here : state.calls[id]? = some ⟨call, heapPage, phase⟩) (was : phase.Early)
    (spared : state.Spared id pageID) (fetched : state.heap.getPage pageID = some frame) (serves : heap.Serves call answer heap)
    (held : Holds ⟨call, heapPage, .finished answer⟩ → Holds ⟨call, heapPage, phase⟩)
    (barren : ∀ rid, answer ≠ .reply (.inserted rid)) :
    Advances state heap id ⟨call, heapPage, phase⟩ (state.goto id (.finished answer)) := by
  obtain ⟨found, laid⟩ := sound.settled spared here was.idle fetched
  have settles : Advances state heap id ⟨call, heapPage, phase⟩
      ({ state with heap := state.heap.setFrame pageID frame }.goto id (.finished answer)) :=
    .settle was spared fetched laid ((setFrame_same found).symm ▸ serves) held fun rid given => absurd given (barren rid)
  rwa [setFrame_same fetched] at settles

theorem advances_openLastPage (here : state.calls[id]? = some ⟨.call (.insertTuple row), heapPage, .locked⟩)
    (undisturbed : state.Undisturbed (.step id)) :
    Advances state heap id ⟨.call (.insertTuple row), heapPage, .locked⟩ (state.openLastPage id) := by
  have holds : Holds ⟨.call (.insertTuple row), heapPage, .locked⟩ := holds_of row rfl (.inl rfl)
  unfold openLastPage
  split
  next frame last =>
    obtain ⟨-, -, -, laid⟩ := sound.last here holds trivial (undisturbed _ _ here rfl) last
    have turns := turns_decode here frame .decoded
    refine .turn turns rfl rfl trivial trivial ⟨layout_decoded sound laid, (sound.fits here).proper, ⟨row, rfl⟩, rfl, ?_⟩
      (exclusive_turn sound.exclusive turns rfl here fun _ => holds)
    rintro empty
    rw [empty] at last
    cases last
  next nothing =>
    have empty := getLast?_eq_none_iff.mp nothing
    have nothing : heap.pages.getLast? = none := by
      rw [getLast?_eq_none_iff, ← length_eq_zero_iff, (sound.level_of_holds here holds trivial).1, empty]
      rfl
    exact .grow (.inl rfl) (by rw [insertTuple, nothing])

theorem advances_insertLatched {layout : PageLayout}
    (here : state.calls[id]? = some ⟨.call (.insertTuple row), some layout, .decoded⟩)
    (undisturbed : state.Undisturbed (.step id)) :
    Advances state heap id ⟨.call (.insertTuple row), some layout, .decoded⟩ (state.insertLatched id layout row) := by
  have fits := sound.fits here
  have holds : Holds ⟨.call (.insertTuple row), some layout, .decoded⟩ := holds_of row rfl (.inr (.inl rfl))
  obtain ⟨-, -, nonempty⟩ := fits.placed
  have last := getLast?_eq_some_getLast nonempty
  generalize state.heap.pages.getLast nonempty = frame at last
  have spared := undisturbed _ _ here rfl
  obtain ⟨fetched, last', same, laid⟩ := sound.last here holds trivial spared last
  have standard : layout = .ofSlots (maxSlots heap.desc.bytesPerTuple) := by
    rw [sound.desc]
    exact fits.layout layout rfl
  rw [insertLatched, standard]
  rcases insert_cases laid row with ⟨slot, written, inside, kept, inserts⟩ | full
  · rw [(inserts state.heap last).1]
    have serves := serves_insert (inserts heap last').2
    rw [same] at serves
    refine .settle trivial spared fetched kept serves (fun _ => holds) fun rid given => ?_
    cases given
    refine ⟨⟨?_, Int.natCast_nonneg slot, Int.ofNat_lt.mpr (sound.desc ▸ inside)⟩, row, rfl⟩
    exact isSome_of_eq_some (getPage_setFrame_self fetched)
  · rw [(full state.heap last).1]
    exact .grow (.inr rfl) (full heap last').2

theorem advances_runLatched {call : HeapCall} {rid : RecordID} (about : TableHeap.AboutRow rid call)
    (here : state.calls[id]? = some ⟨.call call, heapPage, .waiting⟩) (spared : state.Spared id rid.pageID)
    (has : state.heap.HasSlot rid) : Advances state heap id ⟨.call call, heapPage, .waiting⟩ (state.runLatched id call) := by
  obtain ⟨present, positive, inside⟩ := has
  obtain ⟨frame, fetched⟩ := isSome_iff_exists.mp present
  obtain ⟨found, laid⟩ := sound.settled spared here trivial fetched
  obtain ⟨reply, written, answers, kept⟩ := exists_answers_row about laid positive (sound.desc ▸ inside)
  have invoked := answers state.heap fetched
  rw [runLatched, invoked]
  refine .settle trivial spared fetched kept (serves_call (answers heap found)) ?_ fun given same => ?_
  · rintro ⟨⟨row, inserts⟩, -⟩
    cases inserts
    exact about.elim
  · exact absurd (SharedReply.reply.inj same) (not_inserted about invoked given)

omit sound in
theorem not_holds_visit {pageID : PageID} {slot : Nat} : ¬ Holds ⟨.visit pageID slot, heapPage, phase⟩ := by
  rintro ⟨⟨row, inserts⟩, -⟩
  cases inserts

theorem advances_start (here : state.calls[id]? = some ⟨call, heapPage, .waiting⟩)
    (undisturbed : state.Undisturbed (.step id)) (started : state.start id call = some later) :
    Advances state heap id ⟨call, heapPage, .waiting⟩ later := by
  have fits := sound.fits here
  cases call with
  | visit pageID slot =>
    obtain ⟨frame, fetched⟩ := isSome_iff_exists.mp fits.proper
    simp only [start, fetched] at started
    cases started
    obtain ⟨-, laid⟩ := sound.settled (undisturbed _ _ here rfl) here trivial fetched
    have turns := turns_decode here frame .fetched
    exact .turn turns rfl rfl trivial trivial ⟨layout_decoded sound laid, fits.proper, ⟨pageID, slot, rfl⟩, rfl⟩
      (exclusive_turn sound.exclusive turns rfl here fun holds => absurd holds not_holds_visit)
  | call call =>
    cases call with
    | insertTuple row =>
      simp only [start] at started
      split at started
      next => cases started
      next free =>
        cases started
        have turns : Turns state ({ state with mu := some id }.goto id .locked) id
            ⟨.call (.insertTuple row), heapPage, .locked⟩ := turns_goto here .locked
        refine .turn turns rfl rfl trivial trivial ⟨fits.layout, fits.proper, row, rfl⟩ fun other another there holds => ?_
        rcases turns.cases there with ⟨rfl, -⟩ | ⟨-, before⟩
        · rfl
        · cases (not_isSome_iff_eq_none.mp free).symm.trans (sound.exclusive other another before holds)
    | vacuumPage pageID =>
      obtain ⟨frame, fetched⟩ := isSome_iff_exists.mp fits.proper
      simp only [start, fetched] at started
      cases started
      exact .vacuum (undisturbed _ _ here rfl) fetched
    | updateTuple rid row =>
      cases started
      exact advances_runLatched sound rfl here (undisturbed _ _ here rfl) fits.proper
    | deleteTuple rid =>
      cases started
      exact advances_runLatched sound rfl here (undisturbed _ _ here rfl) fits.proper
    | readTuple rid buffer =>
      cases started
      exact advances_runLatched sound rfl here (undisturbed _ _ here rfl) fits.proper

theorem advances_compareSlot {slot : Nat} (here : state.calls[id]? = some ⟨.visit pageID slot, heapPage, .fetched⟩)
    (undisturbed : state.Undisturbed (.step id)) (fetched : state.heap.getPage pageID = some frame) :
    Advances state heap id ⟨.visit pageID slot, heapPage, .fetched⟩ (state.compareSlot id slot frame) := by
  have fits := sound.fits here
  have spared := undisturbed _ _ here rfl
  obtain ⟨found, laid⟩ := sound.settled spared here trivial fetched
  have slots : frame.uint16 10 = maxSlots heap.desc.bytesPerTuple := laid.slots
  unfold compareSlot
  split
  next behind =>
    exact advances_look sound here trivial spared fetched (serves_past laid (slots ▸ behind) found)
      (fun holds => absurd holds not_holds_visit) nofun
  next inside =>
    have turns := turns_goto here .inRange
    refine .turn turns rfl rfl trivial trivial ⟨fits.layout, fits.proper, ⟨pageID, slot, rfl, ?_⟩, fits.placed.2⟩
      (exclusive_turn sound.exclusive turns rfl here fun holds => absurd holds not_holds_visit)
    rw [TableHeap.slots, ← sound.desc, ← slots]
    exact Nat.lt_of_not_le inside

theorem advances_visitLatched {slot : Nat} {layout : PageLayout}
    (here : state.calls[id]? = some ⟨.visit pageID slot, some layout, .inRange⟩)
    (undisturbed : state.Undisturbed (.step id)) (fetched : state.heap.getPage pageID = some frame) :
    Advances state heap id ⟨.visit pageID slot, some layout, .inRange⟩ (state.visitLatched id layout frame ⟨pageID, slot⟩) := by
  have fits := sound.fits here
  have spared := undisturbed _ _ here rfl
  obtain ⟨found, laid⟩ := sound.settled spared here trivial fetched
  obtain ⟨⟨_, _, same, inside⟩, -⟩ := fits.placed
  cases same
  have standard := fits.layout layout rfl
  rw [slots, ← sound.desc] at inside standard
  obtain ⟨answer, visited, barren, serves⟩ := exists_visit laid inside pageID
  have settles : state.visitLatched id layout frame ⟨pageID, slot⟩ = state.goto id (.finished answer) := by
    rw [visitLatched, standard, visited]
  rw [settles]
  exact advances_look sound here trivial spared fetched (serves heap found) (fun holds => absurd holds not_holds_visit) barren

theorem advances_of_advance (here : state.calls[id]? = some running) (undisturbed : state.Undisturbed (.step id))
    (advanced : state.advance id running = some later) : Advances state heap id running later := by
  obtain ⟨call, heapPage, phase⟩ := running
  have placed := (sound.fits here).placed
  cases phase with
  | waiting => exact advances_start sound here undisturbed advanced
  | locked =>
    obtain ⟨row, rfl⟩ := placed
    cases advanced
    exact advances_openLastPage sound here undisturbed
  | decoded =>
    obtain ⟨⟨row, rfl⟩, decoded, -⟩ := placed
    obtain ⟨layout, rfl⟩ := isSome_iff_exists.mp decoded
    cases advanced
    exact advances_insertLatched sound here undisturbed
  | allocating =>
    obtain ⟨row, rfl⟩ := placed
    cases advanced
    exact .allocate
  | working pageID rest answer =>
    obtain ⟨frame, fetched, advanced⟩ := bind_eq_some_iff.mp advanced
    cases advanced
    exact .work fetched
  | fetched =>
    obtain ⟨⟨pageID, slot, rfl⟩, -⟩ := placed
    obtain ⟨frame, fetched, advanced⟩ := bind_eq_some_iff.mp advanced
    cases advanced
    exact advances_compareSlot sound here undisturbed fetched
  | inRange =>
    obtain ⟨⟨pageID, slot, rfl, -⟩, decoded⟩ := placed
    obtain ⟨layout, rfl⟩ := isSome_iff_exists.mp decoded
    obtain ⟨frame, fetched, advanced⟩ := bind_eq_some_iff.mp advanced
    cases advanced
    exact advances_visitLatched sound here undisturbed fetched
  | finished | returned | panicked => cases advanced

end Advances

variable (sound : Sound state heap) (explained : Ordered start state history order heap)

include sound explained

theorem explains_grow (here : state.calls[id]? = some ⟨.call (.insertTuple row), heapPage, phase⟩)
    (inside : phase = .locked ∨ phase = .decoded) (full : heap.insertTuple row = heap.insertInNewPage row) :
    Explains start (state.goto id .allocating) history := by
  have turns := turns_goto here .allocating
  have early : phase.Early := by rcases inside with rfl | rfl <;> trivial
  have pending := standing_of_early early state.heap
  have holds : Holds ⟨.call (.insertTuple row), heapPage, phase⟩ := by
    refine holds_of row rfl ?_
    rcases inside with rfl | rfl
    · exact .inl rfl
    · exact .inr (.inl rfl)
  have fits := sound.fits here
  have exclusive := exclusive_turn sound.exclusive turns rfl here fun _ => holds
  obtain ⟨level, next⟩ := sound.level_of_holds here holds early.idle
  by_cases room : state.heap.Room
  · obtain ⟨final, fills, inserted, laid⟩ := heap.exists_filled row (level ▸ room)
    refine explains_effect explained here pending
      (sound.grow here early.idle holds turns rfl room ⟨fits.layout, fits.proper, row, rfl⟩ fills laid exclusive) turns rfl
      (congrArg took (if_pos room)) rfl rfl ?_
    rw [← full, next] at inserted
    exact serves_insert inserted
  · refine explains_effect explained here pending (sound.turn turns rfl (forall_of_here here (.inl early.idle))
      (.inr ⟨rfl, room⟩) ⟨fits.layout, fits.proper, row, rfl⟩ exclusive) turns rfl (congrArg took (if_neg room)) rfl rfl ?_
    rw [TableHeap.Room, ← level] at room
    exact serves_storage (full.trans (if_neg room))

theorem explains_allocatePage (here : state.calls[id]? = some ⟨.call (.insertTuple row), heapPage, .allocating⟩) :
    Explains start (state.allocatePage id row) history := by
  have fits := sound.fits here
  have holds : Holds ⟨.call (.insertTuple row), heapPage, .allocating⟩ := holds_of row rfl (.inr (.inr rfl))
  unfold allocatePage
  split
  next room =>
    let working : HeapPhase := .working state.heap.nextRID.pageID
      (fillNewPage state.heap.desc state.heap.nextRID row) (.reply (.inserted state.heap.nextRID))
    have turns : Turns state ({ state with heap := state.heap.addPage .zero }.goto id working) id
        ⟨.call (.insertTuple row), heapPage, working⟩ := turns_goto here working
    refine explains_silent explained here
      (sound.allocate here room turns rfl (exclusive_turn sound.exclusive turns rfl here fun _ => holds)) turns rfl
      (congrArg took (if_pos room).symm) fun other running apart there => standing_of_ne fun grows => ?_
    exact apart (sound.sole here holds there grows)
  next full =>
    have turns := turns_goto here (.finished .storage)
    exact explains_silent explained here (sound.turn turns rfl (forall_of_here here (.inr ⟨rfl, full⟩)) (.inl trivial)
      ⟨fits.layout, fits.proper, trivial⟩ (exclusive_turn sound.exclusive turns rfl here fun _ => holds)) turns rfl
      (congrArg took (if_neg full).symm) fun _ _ _ _ => rfl

theorem explains_work {rest : PageAccesses Unit}
    (here : state.calls[id]? = some ⟨call, heapPage, .working pageID rest answer⟩)
    (fetched : state.heap.getPage pageID = some frame) :
    Explains start (state.work id pageID answer frame rest) history := by
  have fits := sound.fits here
  have working : state.Working id pageID rest := ⟨call, heapPage, answer, here⟩
  obtain ⟨frame', final, fetched', found, runs⟩ := sound.works working
  cases fetched.symm.trans fetched'
  obtain ⟨written, phase, same, took, placed, now⟩ := work_spec runs state id pageID answer call heapPage
  have turns : Turns state ({ state with heap := state.heap.setFrame pageID written }.goto id phase) id
      ⟨call, heapPage, phase⟩ := turns_goto here phase
  have laid : TableHeap.Laid heap.desc.bytesPerTuple final := by
    obtain ⟨n, rfl, located⟩ := getPage_eq_some found
    exact sound.formed _ (mem_of_getElem? located)
  have moved := sound.edit turns (sound.alone working) fetched rfl laid (forall_of_here here (.inr ⟨rest, answer, rfl⟩)) now
    ⟨fits.layout, fits.proper, placed⟩ (exclusive_turn sound.exclusive turns rfl here fun holds => ⟨holds.1, trivial⟩)
  rw [setFrame_same found] at moved
  rw [same]
  have kept := @standing_congr state.heap (state.heap.setFrame pageID written) rfl (state.heap.length_setFrame ..)
  exact explains_silent explained here moved turns rfl ((congrFun kept phase).trans took) fun _ _ _ _ => congrFun kept _

theorem explains_vacuum (here : state.calls[id]? = some ⟨.call (.vacuumPage pageID), heapPage, .waiting⟩)
    (spared : state.Spared id pageID) (fetched : state.heap.getPage pageID = some frame) :
    Explains start (state.work id pageID (.reply .done) frame (vacuumPage pageID)) history := by
  have fits := sound.fits here
  obtain ⟨found, laid⟩ := sound.settled spared here trivial fetched
  obtain ⟨final, runs, answers, kept⟩ := exists_answers_vacuum laid pageID
  obtain ⟨written, phase, same, took, placed, now⟩ := work_spec runs state id pageID (.reply .done)
    (.call (.vacuumPage pageID)) heapPage
  have turns : Turns state ({ state with heap := state.heap.setFrame pageID written }.goto id phase) id
      ⟨.call (.vacuumPage pageID), heapPage, phase⟩ := turns_goto here phase
  have length := state.heap.length_setFrame pageID written
  have standingSame := @standing_congr state.heap (state.heap.setFrame pageID written) rfl length
  rw [same]
  refine explains_effect explained here rfl (sound.edit turns spared fetched rfl kept (forall_of_here here (.inl trivial)) now
    ⟨fits.layout, fits.proper, placed⟩ (exclusive_turn sound.exclusive turns rfl here ?_)) turns rfl
    ((congrFun standingSame phase).trans took) rfl length (serves_call (answers heap found))
  rintro ⟨⟨row, inserts⟩, -⟩
  cases inserts

theorem explains_advance (here : state.calls[id]? = some running) (advances : Advances state heap id running later) :
    Explains start later history := by
  cases advances with
  | turn turns call same was now fits exclusive =>
    have standingSame := (standing_of_early now state.heap).trans (standing_of_early was state.heap).symm
    exact explains_silent explained here
      (sound.turn turns same (forall_of_here here (.inl was.idle)) (.inl now.idle) fits exclusive) turns call
      (same ▸ standingSame) fun _ _ _ _ => same ▸ rfl
  | @settle call heapPage phase pageID frame written answer was spared fetched laid serves held gives =>
    have turns : Turns state ({ state with heap := state.heap.setFrame pageID written }.goto id (.finished answer)) id
        ⟨call, heapPage, .finished answer⟩ := turns_goto here (.finished answer)
    have fits := sound.fits here
    exact explains_effect explained here (standing_of_early was _) (sound.edit turns spared fetched rfl laid
      (forall_of_here here (.inl was.idle)) (.inl ⟨trivial, rfl⟩) ⟨fits.layout, fits.proper, trivial⟩
      (exclusive_turn sound.exclusive turns rfl here held)) turns rfl rfl rfl (state.heap.length_setFrame pageID written) serves
  | grow inside full => exact explains_grow sound explained here inside full
  | allocate => exact explains_allocatePage sound explained here
  | work fetched => exact explains_work sound explained here fetched
  | vacuum spared fetched => exact explains_vacuum sound explained here spared fetched

theorem explains_invoke {previous : Option Nat} (proper : state.heap.Proper call)
    (admitted : state.enter call previous = some running) :
    Explains start { state with calls := state.calls ++ [running] } (history ++ [.invoke state.calls.length call]) := by
  have turns := state.turns_invoke running
  have absent : state.calls[state.calls.length]? = none := getElem?_eq_none (Nat.le_refl _)
  obtain ⟨sameCall, fits, idle, pending, free⟩ : running.call = call ∧ state.heap.Fits running ∧ running.phase.Idle ∧
      standing state.heap running.phase = .pending ∧ ¬ Holds running := by
    unfold enter at admitted
    split at admitted
    next =>
      split at admitted
      next => cases admitted
      next =>
        cases admitted
        exact ⟨rfl, ⟨fun layout decoded => (by cases decoded), proper, trivial⟩, trivial, rfl, And.right⟩
    next previous =>
      split at admitted
      next pageID slot pageID' slot' layout answer there =>
        split at admitted
        next =>
          cases admitted
          refine ⟨rfl, ⟨(sound.fits there).layout, proper, ⟨pageID, slot, rfl⟩, rfl⟩, trivial, rfl, not_holds_visit⟩
        next => cases admitted
      next => cases admitted
  have exclusive : Exclusive { state with calls := state.calls ++ [running] } := by
    intro other another there holds
    rcases turns.cases there with ⟨-, rfl⟩ | ⟨-, before⟩
    · exact absurd holds free
    · exact sound.exclusive other another before holds
  have moved := sound.turn turns rfl (fun _ there => (by cases absent.symm.trans there)) (.inl idle) fits exclusive
  exact ⟨order, heap, moved, explained.entered turns (fun _ _ _ _ => rfl) absent (congrArg₂ Prod.mk sameCall pending)⟩

theorem explains_respond (here : state.calls[id]? = some ⟨call, heapPage, .finished answer⟩) :
    Explains start ((state.unlock id).goto id (.returned answer)) (history ++ [.respond id answer]) := by
  have sameHeap := state.heap_unlock id
  have turns := turns_respond here answer
  have fits := sound.fits here
  have exclusive : ((state.unlock id).goto id (.returned answer)).Exclusive := by
    intro other another there holds
    rcases turns.cases there with ⟨-, rfl⟩ | ⟨apart, before⟩
    · exact holds.2.elim
    · have mu := sound.exclusive other another before holds
      have kept : state.unlock id = state := by
        rw [unlock, mu, if_neg fun same => apart (some.inj same)]
      rw [kept]
      exact mu
  have moved := sound.turn turns sameHeap ?_ (.inl trivial) ⟨fits.layout, fits.proper, trivial⟩ exclusive
  · have kept : view (state.unlock id).heap = view state.heap := congrArg view sameHeap
    exact ⟨order, heap, moved, explained.answered turns (fun _ running _ _ => congrFun kept running) here rfl rfl⟩
  · intro running there
    cases here.symm.trans there
    exact .inl trivial

theorem explains_step {action : HeapAction} (proper : state.ProperAction action)
    (undisturbed : state.Undisturbed action) (taken : state.step action = some later) :
    Explains start later (history ++ action.event.toList) := by
  cases action with
  | invoke id call previous =>
    simp only [step] at taken
    split at taken
    next fresh =>
      obtain ⟨running, admitted, made⟩ := bind_eq_some_iff.mp taken
      cases made
      rw [fresh]
      exact explains_invoke sound explained proper admitted
    next => cases taken
  | step id =>
    obtain ⟨running, here, advanced⟩ := bind_eq_some_iff.mp taken
    rw [HeapAction.event, toList_none, append_nil]
    exact explains_advance sound explained here (advances_of_advance sound here undisturbed advanced)
  | respond id answer =>
    simp only [step] at taken
    split at taken
    next call heapPage result here =>
      split at taken
      next same =>
        cases taken
        exact explains_respond sound explained (same ▸ here)
      next => cases taken
    next => cases taken

end Step

theorem Sound.quiet (sound : Sound state heap) (quiet : state.Quiet) : heap = state.heap := by
  have level := sound.level fun id running here allocating => by
    have idle := quiet id running here
    rw [allocating] at idle
    exact idle.elim
  have pages : heap.pages = state.heap.pages := by
    refine ext_getElem level fun n inside inside' => ?_
    have fetched : state.heap.getPage ⟨state.heap.oid, n⟩ = some state.heap.pages[n] := by
      simp [getPage]
    obtain ⟨final, found, settled⟩ := sound.pages fetched
    have same := settled fun id rest works => by
      obtain ⟨call, heapPage, answer, here⟩ := works
      exact quiet id _ here
    have located : heap.pages[n]? = some state.heap.pages[n] := by
      simpa [getPage, sound.oid, same] using found
    exact (List.getElem?_eq_some_iff.mp located).2
  obtain ⟨oid, desc, _⟩ := heap
  cases sound.oid
  cases sound.desc
  cases pages
  rfl

theorem explains_new (formed : start.WellFormed) : Explains start (new start) [] := by
  have absent {id : Nat} {running : RunningHeapCall} (here : (new start).calls[id]? = some running) : False := by
    cases here
  refine ⟨[], start, ⟨rfl, rfl, formed, fun here => (absent here).elim, fun _ _ here => (absent here).elim, ?_, ?_, ?_,
    fun _ => rfl, fun here => (absent here).elim⟩, .nil⟩
  · exact fun fetched => ⟨_, fetched, fun _ => rfl⟩
  · rintro id pageID rest ⟨_, _, _, here⟩
    exact (absent here).elim
  · rintro id pageID rest ⟨_, _, _, here⟩
    exact (absent here).elim

variable {steps : List (Taken SharedTableHeap HeapAction)}

theorem linearizable_of_explains
    (explains : Explains start state (steps.filterMap (·.label.event))) : Linearizable start steps state := by
  obtain ⟨order, heap, sound, explained⟩ := explains
  refine ⟨fun id running here panicked => ?_, order, heap, explained.linear, sound.quiet⟩
  have placed := (sound.fits here).placed
  rw [TableHeap.Placed, panicked] at placed
  exact placed

/-- The rule for runs whose steps meet a condition that, with an invariant of the calls, keeps
every step apart from the accesses of the others. -/
theorem linearizable_when (condition : SharedTableHeap → HeapAction → Prop) (invariant : SharedTableHeap → Prop)
    (initially : invariant (new start))
    (preserved : ∀ state heap action later, Sound state heap → invariant state → condition state action →
      state.step action = some later → invariant later)
    (apart : ∀ state heap action, Sound state heap → invariant state → condition state action →
      state.ProperAction action ∧ state.Undisturbed action) (formed : start.WellFormed)
    (run : Run Stepped (new start) steps state) (meets : ∀ taken ∈ steps, condition taken.before taken.label) :
    Linearizable start steps state := by
  suffices kept : Explains start state (steps.filterMap (·.label.event)) ∧ invariant state from linearizable_of_explains kept.1
  induction run with
  | nil => exact ⟨explains_new formed, initially⟩
  | snoc earlier taken ih =>
    obtain ⟨before, now⟩ := forall_mem_append.mp meets
    obtain ⟨⟨order, heap, sound, explained⟩, holds⟩ := ih before
    have met := now _ mem_cons_self
    obtain ⟨proper, undisturbed⟩ := apart _ heap _ sound holds met
    rw [filterMap_concat]
    exact ⟨explains_step sound explained proper undisturbed taken, preserved _ heap _ _ sound holds met taken⟩

/-- Every run of proper calls in which no step comes between the accesses of another call. -/
theorem linearizable_of_undisturbed (formed : start.WellFormed) (run : Run Stepped (new start) steps state)
    (apart : ∀ taken ∈ steps, taken.before.ProperAction taken.label ∧ taken.before.Undisturbed taken.label) :
    Linearizable start steps state :=
  linearizable_when (fun state action => state.ProperAction action ∧ state.Undisturbed action) (fun _ => True) trivial
    (fun _ _ _ _ _ _ _ _ => trivial) (fun _ _ _ _ _ met => met) formed run apart

end SharedTableHeap
end GoDB.Execution
