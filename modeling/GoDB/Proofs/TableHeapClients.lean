import GoDB.Proofs.TableHeapLinearization

/-! Threads that insert rows and that read, change and delete rows whose insertion has returned.
The page that an insertion adds has none of these rows before the insertion returns. -/

namespace GoDB.Execution
open Common Lib Storage Option

def HeapPhase.Gives (rid : RecordID) : HeapPhase → Prop
  | .working _ _ answer | .finished answer | .returned answer => answer = .reply (.inserted rid)
  | .waiting | .locked | .decoded | .allocating | .fetched | .inRange | .panicked => False

namespace SharedTableHeap
variable {state later : SharedTableHeap} {heap : TableHeap} {id : Nat} {running turned : RunningHeapCall}
variable {pageID : PageID} {rid : RecordID}

def Inserts (running : RunningHeapCall) : Prop := ∃ row, running.call = .call (.insertTuple row)

structure Latched (running : RunningHeapCall) (rid : RecordID) : Prop where
  call : ∃ call, running.call = .call call ∧ TableHeap.AboutRow rid call
  covered : ∀ pageID rest answer, running.phase ≠ .working pageID rest answer
  barren : ∀ given, ¬ running.phase.Gives given

structure Modest (state : SharedTableHeap) : Prop where
  kinds : ∀ {id : Nat} {running : RunningHeapCall}, state.calls[id]? = some running →
    Inserts running ∨ ∃ rid, Latched running rid ∧ state.Issued rid
  given : ∀ {id : Nat} {running : RunningHeapCall} {rid : RecordID}, state.calls[id]? = some running →
    running.phase.Gives rid → state.heap.HasSlot rid
  untouched : ∀ {id : Nat} {rid : RecordID} {rest : PageAccesses Unit}, state.Issued rid →
    ¬ state.Working id rid.pageID rest

theorem Modest.new (heap : TableHeap) : Modest (new heap) := by
  have absent {id : Nat} {running : RunningHeapCall} (here : (SharedTableHeap.new heap).calls[id]? = some running) : False := by
    cases here
  refine ⟨fun here => (absent here).elim, fun here => (absent here).elim, ?_⟩
  rintro id rid rest ⟨_, _, _, here⟩
  exact (absent here).elim

theorem Modest.hasSlot (modest : Modest state) (issued : state.Issued rid) : state.heap.HasSlot rid := by
  obtain ⟨id, call, heapPage, here⟩ := issued
  exact modest.given here rfl

theorem not_inserts_of_latched (latched : Latched running rid) : ¬ Inserts running := by
  rintro ⟨row, inserts⟩
  obtain ⟨call, same, about⟩ := latched.call
  cases inserts.symm.trans same
  exact about

variable {rest : PageAccesses Unit}

theorem Modest.holds (modest : Modest state) (works : state.Working id pageID rest) :
    ∃ running, state.calls[id]? = some running ∧ Holds running := by
  obtain ⟨call, heapPage, answer, here⟩ := works
  rcases modest.kinds here with inserts | ⟨rid, latched, -⟩
  · exact ⟨_, here, inserts, trivial⟩
  · exact absurd rfl (latched.covered pageID rest answer)

theorem Modest.undisturbed (modest : Modest state) (sound : Sound state heap) (action : HeapAction) :
    state.Undisturbed action := by
  cases action with
  | invoke | respond => trivial
  | step id =>
    intro running pageID here touches other call heapPage rest answer apart there
    have works : state.Working other pageID rest := ⟨call, heapPage, answer, there⟩
    obtain ⟨another, there', holds⟩ := modest.holds works
    have owner := sound.exclusive other another there' holds
    obtain ⟨call, heapPage, phase⟩ := running
    have placed := (sound.fits here).placed
    rcases modest.kinds here with inserts | ⟨rid, latched, issued⟩
    · refine apart (some.inj (owner.symm.trans (sound.exclusive id _ here ⟨inserts, ?_⟩)))
      obtain ⟨row, same⟩ := inserts
      cases same
      cases phase with
      | locked | decoded | working => trivial
      | _ => cases touches
    · obtain ⟨call, same, about⟩ := latched.call
      cases same
      cases phase with
      | waiting =>
        have touches : rid.pageID = pageID := by
          cases call with
          | insertTuple | vacuumPage => exact about.elim
          | updateTuple | deleteTuple | readTuple =>
            cases about
            exact some.inj touches
        exact modest.untouched issued (touches ▸ works)
      | locked => exact absurd placed (not_inserts_of_latched latched)
      | decoded => exact absurd placed.1 (not_inserts_of_latched latched)
      | working => exact absurd rfl (latched.covered _ _ _)
      | _ => cases touches

structure Goes (state later : SharedTableHeap) (id : Nat) (running turned : RunningHeapCall) : Prop where
  turns : Turns state later id turned
  call : turned.call = running.call
  grown : state.heap.Extends later.heap
  works : ∀ {pageID : PageID} {rest : PageAccesses Unit} {answer : SharedReply}, turned.phase = .working pageID rest answer →
    (∃ rest, running.phase = .working pageID rest answer) ∨ pageID = state.heap.nextRID.pageID ∧ Inserts running
  gives : ∀ {rid : RecordID}, turned.phase.Gives rid → running.phase.Gives rid ∨ later.heap.HasSlot rid ∧ Inserts running
  open_ : ∀ answer, turned.phase ≠ .returned answer

def Plain : HeapPhase → Prop
  | .working _ _ _ | .returned _ => False
  | .finished answer => ∀ rid, answer ≠ .reply (.inserted rid)
  | .waiting | .locked | .decoded | .allocating | .fetched | .inRange | .panicked => True

theorem goes_plain (turns : Turns state later id turned) (call : turned.call = running.call)
    (grown : state.heap.Extends later.heap) (plain : Plain turned.phase) : Goes state later id running turned := by
  refine ⟨turns, call, grown, ?_, ?_, ?_⟩
  · intro pageID rest answer works
    rw [works] at plain
    exact plain.elim
  · intro rid gives
    cases phase : turned.phase with
    | finished answer =>
      rw [phase] at plain gives
      exact absurd gives (plain rid)
    | working | returned =>
      rw [phase] at plain
      exact plain.elim
    | _ =>
      rw [phase] at gives
      exact gives.elim
  · intro answer returned
    rw [returned] at plain
    exact plain

theorem plain_of_early {phase : HeapPhase} (early : phase.Early) : Plain phase := by
  cases phase with
  | working | finished | returned => exact early.elim
  | _ => trivial

variable {heapPage : Option PageLayout}

theorem goes_allocatePage {row : RawTuple}
    (here : state.calls[id]? = some ⟨.call (.insertTuple row), heapPage, .allocating⟩) :
    ∃ turned, Goes state (state.allocatePage id row) id ⟨.call (.insertTuple row), heapPage, .allocating⟩ turned := by
  unfold allocatePage
  split
  next =>
    have grown := state.heap.extends_addPage .zero
    refine ⟨_, turns_goto here _, rfl, grown, ?_, ?_, fun answer returned => (by cases returned)⟩
    · intro pageID rest answer works
      simp only [HeapPhase.working.injEq] at works
      exact .inr ⟨works.1.symm, row, rfl⟩
    · intro rid gives
      cases gives
      refine .inr ⟨⟨?_, Int.le_refl 0, ?_⟩, row, rfl⟩
      · exact isSome_of_eq_some (state.heap.getPage_addPage_next .zero)
      · exact Int.ofNat_lt.mpr (maxSlots_pos state.heap.desc.fits)
  next =>
    refine ⟨_, goes_plain (turns_goto here (.finished .storage)) rfl (.refl _) ?_⟩
    intro rid same
    cases same

variable {call : SharedCall} {answer : SharedReply}

theorem goes_work
    (here : state.calls[id]? = some ⟨call, heapPage, .working pageID rest answer⟩) (frame : PageBytes) :
    ∃ turned, Goes state (state.work id pageID answer frame rest) id ⟨call, heapPage, .working pageID rest answer⟩ turned := by
  unfold work
  generalize rest.step frame = result
  obtain ⟨next, written⟩ := result
  have grown := state.heap.extends_setFrame pageID written
  cases next with
  | done =>
    refine ⟨_, turns_goto here (.finished answer), rfl, grown, fun works => (by cases works), .inl, ?_⟩
    intro answer returned
    cases returned
  | failed => exact ⟨_, goes_plain (turns_goto here .panicked) rfl grown trivial⟩
  | load next =>
    refine ⟨_, turns_goto here (.working pageID (.load next) answer), rfl, grown, fun works => ?_, .inl, ?_⟩
    · cases works
      exact .inl ⟨rest, rfl⟩
    · intro answer returned
      cases returned
  | store change next =>
    refine ⟨_, turns_goto here (.working pageID (.store change next) answer), rfl, grown, fun works => ?_, .inl, ?_⟩
    · cases works
      exact .inl ⟨rest, rfl⟩
    · intro answer returned
      cases returned

theorem goes_of_advances (modest : Modest state) (here : state.calls[id]? = some running)
    (advances : Advances state heap id running later) : ∃ turned, Goes state later id running turned := by
  cases advances with
  | @turn _ turned _ turns call same was now => exact ⟨turned, goes_plain turns call (same ▸ .refl _) (plain_of_early now)⟩
  | @settle _ _ _ pageID _ written answer _ _ _ _ _ _ gives =>
    exact ⟨_, turns_goto here (.finished answer), rfl, state.heap.extends_setFrame pageID written, nofun,
      fun given => .inr (gives _ given), nofun⟩
  | grow => exact ⟨_, goes_plain (turns_goto here .allocating) rfl (.refl _) trivial⟩
  | allocate => exact goes_allocatePage here
  | work => exact goes_work here _
  | vacuum =>
    rcases modest.kinds here with ⟨row, same⟩ | ⟨rid, latched, -⟩
    · cases same
    · obtain ⟨call, same, about⟩ := latched.call
      cases same
      exact about.elim

theorem issued_turns (turns : Turns state later id turned)
    (was : ∀ running answer, state.calls[id]? = some running → running.phase ≠ .returned answer) (issued : state.Issued rid) :
    later.Issued rid := by
  obtain ⟨other, call, heapPage, there⟩ := issued
  by_cases own : other = id
  · subst other
    exact absurd rfl (was _ _ there)
  · exact ⟨other, call, heapPage, (turns.other own).trans there⟩

theorem hasSlot_extends {heap later : TableHeap} (grown : heap.Extends later) (has : heap.HasSlot rid) :
    later.HasSlot rid := by
  refine ⟨grown.getPage has.1, has.2.1, ?_⟩
  rw [grown.desc]
  exact has.2.2

theorem Modest.go (modest : Modest state) (here : state.calls[id]? = some running)
    (was : ∀ answer, running.phase ≠ .returned answer) (goes : Goes state later id running turned) : Modest later := by
  have issued {rid : RecordID} : later.Issued rid ↔ state.Issued rid := by
    constructor
    · rintro ⟨other, call, heapPage, there⟩
      rcases goes.turns.cases there with ⟨-, same⟩ | ⟨-, before⟩
      · exact absurd (congrArg RunningHeapCall.phase same).symm (goes.open_ _)
      · exact ⟨other, call, heapPage, before⟩
    · refine issued_turns goes.turns fun _ answer there => ?_
      cases here.symm.trans there
      exact was answer
  constructor
  case kinds =>
    intro other another there
    rcases goes.turns.cases there with ⟨-, rfl⟩ | ⟨-, before⟩
    · rcases modest.kinds here with ⟨row, inserts⟩ | ⟨rid, latched, given⟩
      · exact .inl ⟨row, goes.call.trans inserts⟩
      · have called := latched.call
        rw [← goes.call] at called
        refine .inr ⟨rid, ⟨called, fun pageID rest answer works => ?_, fun given gives => ?_⟩, issued.mpr given⟩
        · rcases goes.works works with ⟨rest, before⟩ | ⟨-, inserts⟩
          · exact latched.covered _ _ _ before
          · exact not_inserts_of_latched latched inserts
        · rcases goes.gives gives with before | ⟨-, inserts⟩
          · exact latched.barren given before
          · exact not_inserts_of_latched latched inserts
    · exact (modest.kinds before).imp_right fun ⟨rid, latched, given⟩ => ⟨rid, latched, issued.mpr given⟩
  case given =>
    intro other another rid there gives
    rcases goes.turns.cases there with ⟨-, rfl⟩ | ⟨-, before⟩
    · rcases goes.gives gives with before | ⟨has, -⟩
      · exact hasSlot_extends goes.grown (modest.given here before)
      · exact has
    · exact hasSlot_extends goes.grown (modest.given before gives)
  case untouched =>
    rintro other rid rest given ⟨call, heapPage, answer, there⟩
    have given := issued.mp given
    rcases goes.turns.cases there with ⟨-, same⟩ | ⟨-, before⟩
    · rcases goes.works (congrArg RunningHeapCall.phase same).symm with ⟨rest, before⟩ | ⟨fresh, -⟩
      · obtain ⟨call, heapPage, phase⟩ := running
        cases before
        exact modest.untouched given ⟨call, heapPage, answer, here⟩
      -- The new page was not there when the row was inserted.
      · have present := (modest.hasSlot given).1
        rw [fresh, state.heap.getPage_nextRID] at present
        cases present
    · exact modest.untouched given ⟨call, heapPage, answer, before⟩

theorem Modest.invoke (modest : Modest state)
    (kind : Inserts ⟨call, none, .waiting⟩ ∨ ∃ rid, Latched ⟨call, none, .waiting⟩ rid ∧ state.Issued rid) :
    Modest { state with calls := state.calls ++ [⟨call, none, .waiting⟩] } := by
  have turns := state.turns_invoke ⟨call, none, .waiting⟩
  have issued {rid : RecordID} (given : state.Issued rid) :
      Issued { state with calls := state.calls ++ [⟨call, none, .waiting⟩] } rid := by
    refine issued_turns turns (fun _ _ there => ?_) given
    cases (List.getElem?_eq_none (Nat.le_refl _)).symm.trans there
  constructor
  case kinds =>
    intro other another there
    rcases turns.cases there with ⟨-, rfl⟩ | ⟨-, before⟩
    · exact kind.imp_right fun ⟨rid, latched, given⟩ => ⟨rid, latched, issued given⟩
    · exact (modest.kinds before).imp_right fun ⟨rid, latched, given⟩ => ⟨rid, latched, issued given⟩
  case given =>
    intro other another rid there gives
    rcases turns.cases there with ⟨-, rfl⟩ | ⟨-, before⟩
    · exact gives.elim
    · exact modest.given before gives
  case untouched =>
    rintro other rid rest ⟨maker, _, _, there⟩ ⟨call, heapPage, answer, works⟩
    rcases turns.cases works with ⟨-, same⟩ | ⟨-, before⟩
    · cases same
    · rcases turns.cases there with ⟨-, same⟩ | ⟨-, there⟩
      · cases same
      · exact modest.untouched ⟨maker, _, _, there⟩ ⟨call, heapPage, answer, before⟩

theorem Modest.respond (modest : Modest state) (sound : Sound state heap)
    (here : state.calls[id]? = some ⟨call, heapPage, .finished answer⟩) :
    Modest ((state.unlock id).goto id (.returned answer)) := by
  have turns := turns_respond here answer
  have same : ((state.unlock id).goto id (.returned answer)).heap = state.heap := state.heap_unlock id
  have issued {rid : RecordID} (given : state.Issued rid) : Issued ((state.unlock id).goto id (.returned answer)) rid := by
    refine issued_turns turns (fun _ _ there => ?_) given
    cases here.symm.trans there
    exact HeapPhase.noConfusion
  constructor
  case kinds =>
    intro other another there
    rcases turns.cases there with ⟨-, rfl⟩ | ⟨-, before⟩
    · refine (modest.kinds here).imp_right ?_
      rintro ⟨rid, latched, given⟩
      exact ⟨rid, ⟨latched.call, fun _ _ _ works => (by cases works), latched.barren⟩, issued given⟩
    · exact (modest.kinds before).imp_right fun ⟨rid, latched, given⟩ => ⟨rid, latched, issued given⟩
  case given =>
    intro other another rid there gives
    rw [same]
    rcases turns.cases there with ⟨-, rfl⟩ | ⟨-, before⟩
    · exact modest.given here gives
    · exact modest.given before gives
  case untouched =>
    rintro other rid rest ⟨maker, _, _, there⟩ ⟨call', heapPage', answer', works⟩
    rcases turns.cases works with ⟨-, same⟩ | ⟨apart, before⟩
    · cases same
    have working : state.Working other rid.pageID rest := ⟨call', heapPage', answer', before⟩
    rcases turns.cases there with ⟨-, same⟩ | ⟨-, there⟩
    · cases same
      -- Another insertion cannot be at work, since this one has `mu` until it returns.
      obtain ⟨another, there, holds⟩ := modest.holds working
      rcases modest.kinds here with inserts | ⟨_, latched, -⟩
      · exact apart (some.inj ((sound.exclusive _ _ there holds).symm.trans
          (sound.exclusive id _ here ⟨inserts, trivial⟩)))
      · exact latched.barren rid rfl
    · exact modest.untouched ⟨maker, _, _, there⟩ working

section Clients
variable {allowed : HeapMethod → Prop} {action : HeapAction}

theorem kind_of_client (noVacuum : ¬ allowed .vacuumPage) (noNext : ¬ allowed .next) {call : SharedCall}
    {previous : Option Nat} (client : state.Client allowed (.invoke id call previous)) :
    Inserts ⟨call, none, .waiting⟩ ∨ ∃ rid, Latched ⟨call, none, .waiting⟩ rid ∧ state.Issued rid := by
  obtain ⟨permitted, named⟩ := client
  have latched {rid : RecordID} {call : HeapCall} (about : TableHeap.AboutRow rid call) :
      Latched ⟨.call call, none, .waiting⟩ rid :=
    ⟨⟨call, rfl, about⟩, fun _ _ _ works => (by cases works), fun _ gives => gives⟩
  cases call with
  | visit => exact absurd permitted noNext
  | call call =>
    cases call with
    | insertTuple row => exact .inl ⟨row, rfl⟩
    | vacuumPage => exact absurd permitted noVacuum
    | updateTuple rid | deleteTuple rid | readTuple rid => exact .inr ⟨rid, latched rfl, named⟩

theorem Modest.proper (modest : Modest state) (noVacuum : ¬ allowed .vacuumPage) (noNext : ¬ allowed .next)
    (client : state.Client allowed action) : state.ProperAction action := by
  cases action with
  | step | respond => trivial
  | invoke id call previous =>
    obtain ⟨permitted, named⟩ := client
    cases call with
    | visit => exact absurd permitted noNext
    | call call =>
      cases call with
      | insertTuple => trivial
      | vacuumPage => exact absurd permitted noVacuum
      | updateTuple | deleteTuple | readTuple => exact modest.hasSlot named

theorem Modest.step (modest : Modest state) (sound : Sound state heap) (noVacuum : ¬ allowed .vacuumPage)
    (noNext : ¬ allowed .next) (client : state.Client allowed action) (taken : state.step action = some later) :
    Modest later := by
  cases action with
  | invoke id call previous =>
    have kind := kind_of_client noVacuum noNext client
    simp only [SharedTableHeap.step] at taken
    split at taken
    next =>
      obtain ⟨running, entered, made⟩ := bind_eq_some_iff.mp taken
      cases made
      cases call with
      | visit => exact absurd client.1 noNext
      | call call =>
        cases previous with
        | none =>
          cases entered
          exact modest.invoke kind
        | some previous => cases entered
    next => cases taken
  | step id =>
    obtain ⟨running, here, advanced⟩ := bind_eq_some_iff.mp taken
    obtain ⟨turned, goes⟩ := goes_of_advances modest here
      (advances_of_advance sound here (modest.undisturbed sound (.step id)) advanced)
    refine modest.go here (fun answer returned => ?_) goes
    obtain ⟨call, heapPage, phase⟩ := running
    cases returned
    cases advanced
  | respond id answer =>
    simp only [SharedTableHeap.step] at taken
    split at taken
    next call heapPage result here =>
      split at taken
      next same =>
        cases taken
        exact modest.respond sound (same ▸ here)
      next => cases taken
    next => cases taken

theorem linearizable_of_clients {start : TableHeap} (formed : start.WellFormed) (noVacuum : ¬ allowed .vacuumPage)
    (noNext : ¬ allowed .next) {steps : List (Taken SharedTableHeap HeapAction)} (run : Run Stepped (new start) steps state)
    (clients : ∀ taken ∈ steps, taken.before.Client allowed taken.label) : Linearizable start steps state :=
  linearizable_when (Client allowed) Modest (.new start)
    (fun _ _ _ _ sound modest client taken => modest.step sound noVacuum noNext client taken)
    (fun _ _ action sound modest client => ⟨modest.proper noVacuum noNext client, modest.undisturbed sound action⟩)
    formed run clients

end Clients
end SharedTableHeap
end GoDB.Execution
