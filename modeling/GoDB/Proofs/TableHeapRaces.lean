import GoDB.Proofs.TableHeapClients

/-! A page that an insertion adds is there for all before it is initialized. A vacuum or an
iterator that reads the number of slots before and after finds bitmaps without a byte. -/

namespace GoDB.Execution
open Common Lib Storage PageAccesses PageBytes Accesses

namespace TableHeap

theorem setFrame_setFrame (heap : TableHeap) (pageID : PageID) (first second : PageBytes) :
    (heap.setFrame pageID first).setFrame pageID second = heap.setFrame pageID second := by
  simp [setFrame]

theorem bitmapAt_empty (numBits : Nat) (frame : PageBytes) : bitmapAt 16 16 numBits frame = none := by
  simp [bitmapAt, PageBytes.read, slice, Bitmap.asBitmap, pageSize]

theorem visitSlot_empty (frame : PageBytes) (rid : RecordID) : visitSlot (.ofSlots 0) frame rid = none := by
  have missing : ((PageLayout.ofSlots 0).view frame).allocMap = none := bitmapAt_empty _ frame
  simp [visitSlot, isGone, HeapPage.isAllocated, missing]

end TableHeap

theorem slots_zero : zero.uint16 10 = 0 := by
  rw [uint16, slice, zero, List.take_replicate]
  rfl

theorem fillNewPage_reaches (desc : RawTupleDesc) (rid : RecordID) (row : RawTuple) (frame : PageBytes) :
    ∃ change next later, Accesses.Reaches (fillNewPage desc rid row) frame (.store change next) later ∧
      later.uint16 10 = maxSlots desc.bytesPerTuple := by
  obtain ⟨cleared, clears, -⟩ := run_clear pageSize (Nat.le_refl _) frame
  obtain ⟨sized, sizes⟩ : ∃ page, cleared.putUint16 8 desc.bytesPerTuple = some page :=
    write_eq (by decide) (by decide) _
  obtain ⟨counted, counts⟩ : ∃ page, sized.putUint16 10 (maxSlots desc.bytesPerTuple) = some page :=
    write_eq (by decide) (by decide) _
  have reaches : Accesses.Reaches (initializeHeapPage desc) frame (putUint16 12 0) counted :=
    (reaches_of_run clears _).trans (.store sizes (.store counts .here))
  have small : maxSlots desc.bytesPerTuple < 65536 := Nat.lt_of_le_of_lt (maxSlots_le _) (by decide)
  exact ⟨_, _, counted, reaches.bind _, uint16_putUint16 small counts⟩

namespace SharedTableHeap
variable {state later : SharedTableHeap} {start : TableHeap} {id : Nat} {pageID : PageID} {frame : PageBytes}
variable {allowed : HeapMethod → Prop} {call : SharedCall} {heapPage : Option PageLayout} {answer : SharedReply}

theorem Turns.trans {later last : SharedTableHeap} {turned again : RunningHeapCall} (first : Turns state later id turned)
    (second : Turns later last id again) : Turns state last id again := by
  intro other
  rw [second, first]
  split <;> rfl

def Leads (allowed : HeapMethod → Prop) (start : TableHeap) (state : SharedTableHeap) : Prop :=
  ∃ steps, Run Stepped (new start) steps state ∧ ∀ taken ∈ steps, taken.before.Client allowed taken.label

theorem Leads.next (leads : Leads allowed start state) (action : HeapAction) (taken : state.step action = some later)
    (client : state.Client allowed action) : Leads allowed start later := by
  obtain ⟨steps, run, clients⟩ := leads
  refine ⟨_, .snoc run taken, List.forall_mem_append.mpr ⟨clients, ?_⟩⟩
  intro taken member
  cases List.mem_singleton.mp member
  exact client

def CanPanic (allowed : HeapMethod → Prop) (start : TableHeap) : Prop :=
  ∃ steps state, Run Stepped (new start) steps state ∧ (∀ taken ∈ steps, taken.before.Client allowed taken.label) ∧
    ∃ (id : Nat) (running : RunningHeapCall), state.calls[id]? = some running ∧ running.phase = .panicked

theorem Leads.canPanic (leads : Leads allowed start state)
    (panicked : state.calls[id]? = some ⟨call, heapPage, .panicked⟩) : CanPanic allowed start := by
  obtain ⟨steps, run, clients⟩ := leads
  exact ⟨steps, state, run, clients, id, _, panicked, rfl⟩

variable {code : PageAccesses Unit}

theorem Leads.access (leads : Leads allowed start state)
    (here : state.calls[id]? = some ⟨call, heapPage, .working pageID code answer⟩)
    (fetched : state.heap.getPage pageID = some frame) : Leads allowed start (state.work id pageID answer frame code) := by
  refine leads.next (.step id) ?_ trivial
  simp [step, here, advance, fetched]

def Going : PageAccesses Unit → Prop
  | .load _ | .store _ _ => True
  | .done _ | .failed => False

variable {rest : PageAccesses Unit}

theorem work_of_going (state : SharedTableHeap) (id : Nat) (pageID : PageID) (answer : SharedReply)
    {written : PageBytes} (accessed : code.step frame = (rest, written)) (going : Going rest) :
    state.work id pageID answer frame code =
      { state with heap := state.heap.setFrame pageID written }.goto id (.working pageID rest answer) := by
  rw [work, accessed]
  cases rest with
  | done | failed => exact going.elim
  | load | store => rfl

theorem going_of_reaches {final : PageBytes}
    (reaches : Accesses.Reaches code frame rest final) (going : Going rest) : Going code := by
  cases reaches with
  | here => exact going
  | load | store => trivial

/-- The call comes to the rest with these bytes on its page, while all others stand still. -/
def Arrives (allowed : HeapMethod → Prop) (start : TableHeap) (state : SharedTableHeap) (id : Nat) (pageID : PageID)
    (final : PageBytes) (turned : RunningHeapCall) : Prop :=
  ∃ later, Leads allowed start later ∧ Turns state later id turned ∧ later.heap = state.heap.setFrame pageID final

section
variable {code next : PageAccesses Unit} {written final : PageBytes} (leads : Leads allowed start state)
  (here : state.calls[id]? = some ⟨call, heapPage, .working pageID code answer⟩)
  (fetched : state.heap.getPage pageID = some frame)

include leads here fetched

theorem Leads.arrives_after {turned : RunningHeapCall} (accessed : code.step frame = (next, written)) (going : Going next)
    (arrives : ∀ state, Leads allowed start state →
      state.calls[id]? = some ⟨call, heapPage, .working pageID next answer⟩ → state.heap.getPage pageID = some written →
      Arrives allowed start state id pageID final turned) : Arrives allowed start state id pageID final turned := by
  have leads := leads.access here fetched
  rw [work_of_going state id pageID answer accessed going] at leads
  have turns : Turns state _ id _ := turns_goto here (.working pageID next answer)
  obtain ⟨later, leads, turned, same⟩ := arrives _ leads turns.self (TableHeap.getPage_setFrame_self fetched)
  refine ⟨later, leads, Turns.trans turns turned, same.trans ?_⟩
  exact state.heap.setFrame_setFrame pageID written final

theorem Leads.arrives {rest : PageAccesses Unit} (reaches : Accesses.Reaches code frame rest final) (going : Going rest) :
    Arrives allowed start state id pageID final ⟨call, heapPage, .working pageID rest answer⟩ := by
  induction reaches generalizing state with
  | here =>
    refine ⟨state, leads, ?_, (TableHeap.setFrame_same fetched).symm⟩
    intro other
    split
    next same => rw [same, here]
    next => rfl
  | load reaches ih =>
    exact leads.arrives_after here fetched rfl (going_of_reaches reaches going) fun _ leads here fetched =>
      ih leads here fetched going
  | store changes reaches ih =>
    refine leads.arrives_after here fetched ?_ (going_of_reaches reaches going) fun _ leads here fetched =>
      ih leads here fetched going
    rw [Accesses.step, changes]

theorem Leads.panics_after (accessed : code.step frame = (next, written)) (fails : next.run written = none)
    (panics : ∀ state, Leads allowed start state → Going next →
      state.calls[id]? = some ⟨call, heapPage, .working pageID next answer⟩ → state.heap.getPage pageID = some written →
      ∃ later, Leads allowed start later ∧ later.calls[id]? = some ⟨call, heapPage, .panicked⟩) :
    ∃ later, Leads allowed start later ∧ later.calls[id]? = some ⟨call, heapPage, .panicked⟩ := by
  have leads := leads.access here fetched
  have going (going : Going next) :
      ∃ later, Leads allowed start later ∧ later.calls[id]? = some ⟨call, heapPage, .panicked⟩ := by
    rw [work_of_going state id pageID answer accessed going] at leads
    have turns : Turns state _ id _ := turns_goto here (.working pageID next answer)
    exact panics _ leads going turns.self (TableHeap.getPage_setFrame_self fetched)
  cases next with
  | done => cases fails
  | failed =>
    rw [work, accessed] at leads
    have turns : Turns state _ id _ := turns_goto here .panicked
    exact ⟨_, leads, turns.self⟩
  | load | store => exact going trivial

theorem Leads.panics (going : Going code) (fails : code.run frame = none) :
    ∃ later, Leads allowed start later ∧ later.calls[id]? = some ⟨call, heapPage, .panicked⟩ := by
  induction code generalizing state frame with
  | done | failed => exact going.elim
  | load next ih =>
    exact leads.panics_after here fetched rfl fails fun _ leads going here fetched => ih frame leads here fetched going fails
  | store change next ih =>
    cases changed : change frame with
    | none =>
      refine leads.panics_after here fetched (by rw [Accesses.step, changed]) rfl fun _ _ going _ _ => ?_
      exact going.elim
    | some written =>
      rw [run, changed] at fails
      exact leads.panics_after here fetched (by rw [Accesses.step, changed]) fails fun _ leads going here fetched =>
        ih leads here fetched going fails

end

section Panics
variable (oid : ObjectID) (desc : RawTupleDesc) (row : RawTuple)

def added : SharedTableHeap :=
  let heap := TableHeap.newTableHeap oid desc
  ⟨heap.addPage .zero, some 0, [⟨.call (.insertTuple row), none,
    .working heap.nextRID.pageID (fillNewPage desc heap.nextRID row) (.reply (.inserted heap.nextRID))⟩]⟩

theorem leads_added (inserts : allowed .insertTuple) :
    Leads allowed (.newTableHeap oid desc) (added oid desc row) := by
  have empty : Leads allowed (.newTableHeap oid desc) (new (.newTableHeap oid desc)) :=
    ⟨[], .nil, fun _ member => (by cases member)⟩
  have invoked := empty.next (.invoke 0 (.call (.insertTuple row)) none) rfl ⟨inserts, trivial⟩
  have locked := invoked.next (.step 0) rfl trivial
  have allocating := locked.next (.step 0) rfl trivial
  exact allocating.next (.step 0) rfl trivial

variable {oid desc row}

/-- Beside the insertion a call has come to a page that is not yet initialized. -/
structure Beside (allowed : HeapMethod → Prop) (oid : ObjectID) (desc : RawTupleDesc) (row : RawTuple)
    (state : SharedTableHeap) (running : RunningHeapCall) : Prop where
  leads : Leads allowed (.newTableHeap oid desc) state
  insertion : state.calls[0]? = (added oid desc row).calls[0]?
  here : state.calls[1]? = some running
  heap : state.heap = (TableHeap.newTableHeap oid desc).addPage .zero

theorem beside_invoke (inserts : allowed .insertTuple) (call : SharedCall)
    (entered : (added oid desc row).enter call none = some ⟨call, none, .waiting⟩)
    (client : (added oid desc row).Client allowed (.invoke 1 call none)) :
    ∃ state, Beside allowed oid desc row state ⟨call, none, .waiting⟩ := by
  have counted : 1 = (added oid desc row).calls.length := rfl
  have taken : (added oid desc row).step (.invoke 1 call none) =
      some { added oid desc row with calls := (added oid desc row).calls ++ [⟨call, none, .waiting⟩] } := by
    rw [step, if_pos counted, entered]
    rfl
  exact ⟨_, (leads_added oid desc row inserts).next _ taken client, rfl, rfl, rfl⟩

variable {running : RunningHeapCall}

section
variable (beside : Beside allowed oid desc row state running)

include beside

theorem Beside.turn {turned : RunningHeapCall} (taken : state.step (.step 1) = some later)
    (turns : Turns state later 1 turned) (same : later.heap = state.heap) : Beside allowed oid desc row later turned :=
  ⟨beside.leads.next _ taken trivial, (turns.other Nat.zero_ne_one).trans beside.insertion, turns.self,
    same.trans beside.heap⟩

theorem Beside.fetched : state.heap.getPage (TableHeap.newTableHeap oid desc).nextRID.pageID = some .zero := by
  rw [beside.heap]
  exact (TableHeap.newTableHeap oid desc).getPage_addPage_next .zero

theorem Beside.initialized : ∃ later frame, Leads allowed (.newTableHeap oid desc) later ∧ later.calls[1]? = some running ∧
      later.heap.getPage (TableHeap.newTableHeap oid desc).nextRID.pageID = some frame ∧ 0 < frame.uint16 10 := by
  obtain ⟨change, next, final, reaches, slots⟩ :=
    fillNewPage_reaches desc (TableHeap.newTableHeap oid desc).nextRID row .zero
  obtain ⟨later, leads, turns, same⟩ := beside.leads.arrives beside.insertion beside.fetched reaches trivial
  refine ⟨later, final, leads, (turns.other Nat.one_ne_zero).trans beside.here, ?_, slots ▸ maxSlots_pos desc.fits⟩
  rw [same, TableHeap.getPage_setFrame_self beside.fetched]

end

theorem run_vacuumSlots_empty (pageID : PageID) (turns : Nat) (slots : 0 < frame.uint16 10) :
    (vacuumSlots (.ofSlots 0) pageID (turns + 1) 0).run frame = none := by
  have counted : numSlots.run frame = some (frame.uint16 10, frame) := rfl
  have missing : (isDeleted (.ofSlots 0) ⟨pageID, (0 : Nat)⟩).run frame = none := by
    have empty : ((PageLayout.ofSlots 0).view frame).deletedMap = none := TableHeap.bitmapAt_empty _ frame
    rw [run_isDeleted, HeapPage.isDeleted, empty]
    rfl
  rw [vacuumSlots, run_bind, counted, Option.bind_some, if_pos slots, vacuumSlot, isFree]
  simp only [run_bind, missing, Option.bind_none]

theorem vacuumPage_decodes (page : PageID) :
    (vacuumPage page).step .zero = (vacuumSlots (.ofSlots 0) page 65536 0, .zero) := by
  have decoded : (vacuumPage page).step .zero = (vacuumSlots (.ofSlots (zero.uint16 10)) page 65536 0, .zero) := rfl
  rw [decoded, slots_zero]

theorem canPanic_of_vacuum (inserts : allowed .insertTuple) (vacuums : allowed .vacuumPage) (oid : ObjectID)
    (desc : RawTupleDesc) (row : RawTuple) : CanPanic allowed (.newTableHeap oid desc) := by
  let page := (TableHeap.newTableHeap oid desc).nextRID.pageID
  have present := Option.isSome_of_eq_some ((TableHeap.newTableHeap oid desc).getPage_addPage_next .zero)
  obtain ⟨first, beside⟩ := @beside_invoke _ oid desc row inserts (.call (.vacuumPage page)) rfl ⟨vacuums, present⟩
  let code := vacuumSlots (.ofSlots 0) page 65536 0
  have going : Going code := trivial
  have decodes := work_of_going first 1 page (.reply .done) (vacuumPage_decodes page) going
  have taken : first.step (.step 1) = some (first.work 1 page (.reply .done) .zero (vacuumPage page)) := by
    simp [step, beside.here, advance, SharedTableHeap.start, page, beside.fetched]
  rw [decodes] at taken
  have turns : Turns first _ 1 _ := turns_goto beside.here (.working page code (.reply .done))
  have decoded := beside.turn taken turns (TableHeap.setFrame_same beside.fetched)
  obtain ⟨state, frame, leads, here, fetched, slots⟩ := decoded.initialized
  obtain ⟨later, leads, panicked⟩ := leads.panics here fetched going (run_vacuumSlots_empty page 65535 slots)
  exact leads.canPanic panicked

theorem canPanic_of_next (inserts : allowed .insertTuple) (scans : allowed .next) (oid : ObjectID)
    (desc : RawTupleDesc) (row : RawTuple) : CanPanic allowed (.newTableHeap oid desc) := by
  let page := (TableHeap.newTableHeap oid desc).nextRID.pageID
  have present := Option.isSome_of_eq_some ((TableHeap.newTableHeap oid desc).getPage_addPage_next .zero)
  obtain ⟨first, beside⟩ := @beside_invoke _ oid desc row inserts (.visit page 0) rfl ⟨scans, present⟩
  have decodes : first.step (.step 1) = some (first.decode 1 .zero .fetched) := by
    simp [step, beside.here, advance, SharedTableHeap.start, page, beside.fetched]
  have decoded := beside.turn decodes (turns_decode beside.here .zero .fetched) rfl
  obtain ⟨state, frame, leads, here, fetched, slots⟩ := decoded.initialized
  rw [slots_zero] at here
  have ranged : state.step (.step 1) = some (state.goto 1 .inRange) := by
    simp [step, here, advance, page, fetched, compareSlot, slots.ne']
  have leads := leads.next (.step 1) ranged trivial
  have here := (turns_goto here .inRange).self
  have panics : (state.goto 1 .inRange).step (.step 1) = some ((state.goto 1 .inRange).goto 1 .panicked) := by
    have fetched : (state.goto 1 .inRange).heap.getPage page = some frame := fetched
    simp [step, here, advance, fetched, visitLatched, TableHeap.visitSlot_empty]
  exact (leads.next (.step 1) panics trivial).canPanic (turns_goto here .panicked).self

end Panics

theorem linearizable_of_no_insert (oid : ObjectID) (desc : RawTupleDesc) (noInsert : ¬ allowed .insertTuple)
    {steps : List (Taken SharedTableHeap HeapAction)} (run : Run Stepped (new (.newTableHeap oid desc)) steps state)
    (clients : ∀ taken ∈ steps, taken.before.Client allowed taken.label) :
    Linearizable (.newTableHeap oid desc) steps state := by
  have silent (id : Nat) (call : SharedCall) (previous : Option Nat) :
      ¬ (new (.newTableHeap oid desc)).Client allowed (.invoke id call previous) := by
    rintro ⟨permitted, named⟩
    have unissued {rid : RecordID} : ¬ (new (.newTableHeap oid desc)).Issued rid := by
      rintro ⟨_, _, _, here⟩
      cases here
    have missing (pageID : PageID) : (TableHeap.newTableHeap oid desc).getPage pageID = none := by
      simp [TableHeap.getPage, TableHeap.newTableHeap]
    cases call with
    | visit pageID slot => exact absurd named (by simp [new, missing])
    | call call =>
      cases call with
      | insertTuple => exact noInsert permitted
      | updateTuple | deleteTuple | readTuple => exact unissued named
      | vacuumPage => exact absurd named (by simp [new, missing])
  refine linearizable_when (Client allowed) (· = new (.newTableHeap oid desc)) rfl ?_ ?_ (fun _ member => (by cases member))
    run clients
  · rintro _ _ action later - rfl client taken
    cases action with
    | invoke id call previous => exact absurd client (silent id call previous)
    | step | respond => cases taken
  · rintro _ _ action - rfl client
    cases action with
    | invoke id call previous => exact absurd client (silent id call previous)
    | step id => exact ⟨trivial, fun _ _ here => (by cases here)⟩
    | respond => exact ⟨trivial, trivial⟩

/-- On a heap of any content the calls take effect one at a time when no step comes between the
accesses of another call. On a new table threads that call only these methods, as the rows and
pages permit, are sure of that just when rows are not inserted beside a vacuum or an iterator. -/
theorem linearizable_iff_no_insert_beside (oid : ObjectID) (desc : RawTupleDesc) (allowed : HeapMethod → Prop) :
    (∀ (start : TableHeap) (steps : List (Taken SharedTableHeap HeapAction)) (state : SharedTableHeap),
      start.WellFormed → Run Stepped (new start) steps state →
      (∀ taken ∈ steps, taken.before.ProperAction taken.label ∧ taken.before.Undisturbed taken.label) →
      Linearizable start steps state) ∧
    ((∀ (steps : List (Taken SharedTableHeap HeapAction)) (state : SharedTableHeap),
        Run Stepped (new (.newTableHeap oid desc)) steps state →
        (∀ taken ∈ steps, taken.before.Client allowed taken.label) → Linearizable (.newTableHeap oid desc) steps state) ↔
      (allowed .insertTuple → ¬ allowed .vacuumPage ∧ ¬ allowed .next)) := by
  refine ⟨fun start steps state formed run apart => linearizable_of_undisturbed formed run apart, ?_⟩
  constructor
  · intro always inserts
    have sound : ¬ CanPanic allowed (.newTableHeap oid desc) := by
      rintro ⟨steps, state, run, clients, id, running, here, panicked⟩
      exact (always steps state run clients).1 id running here panicked
    constructor
    · intro vacuums
      exact sound (canPanic_of_vacuum inserts vacuums oid desc [])
    · intro scans
      exact sound (canPanic_of_next inserts scans oid desc [])
  · intro apart steps state run clients
    by_cases inserts : allowed .insertTuple
    · exact linearizable_of_clients (fun _ member => (by cases member)) (apart inserts).1 (apart inserts).2 run clients
    · exact linearizable_of_no_insert oid desc inserts run clients

instance (state : SharedTableHeap) : (action : HeapAction) → Decidable (state.ProperAction action)
  | .invoke _ (.call (.insertTuple _)) _ | .step _ | .respond _ _ => inferInstanceAs (Decidable True)
  | .invoke _ (.call (.updateTuple _ _)) _ | .invoke _ (.call (.deleteTuple _)) _
  | .invoke _ (.call (.readTuple _ _)) _ => inferInstanceAs (Decidable (_ ∧ _))
  | .invoke _ (.call (.vacuumPage _)) _ | .invoke _ (.visit _ _) _ => inferInstanceAs (Decidable (_ = true))

def isLatched (running : RunningHeapCall) : Bool :=
  match running.phase with
  | .working _ _ _ => false
  | _ => true

theorem undisturbed_of_latched (latched : state.calls.all isLatched = true) (action : HeapAction) :
    state.Undisturbed action := by
  cases action with
  | invoke | respond => trivial
  | step id =>
    intro _ _ _ _ other call heapPage rest answer _ there
    cases List.all_eq_true.mp latched _ (List.mem_of_getElem? there)

/-- A row is inserted and another one deleted between two steps of an iterator that comes to it. -/
def interleaved : List HeapAction :=
  [.invoke 0 (.visit ⟨1, 0⟩ 0) none, .step 0, .invoke 1 (.call (.insertTuple (Value.int 9).writeTo)) none, .step 1,
    .invoke 2 (.call (.deleteTuple ⟨⟨1, 0⟩, 0⟩)) none, .step 0, .step 2, .step 1, .respond 2 (.reply .done), .step 0,
    .respond 0 .skipped, .step 1, .respond 1 (.reply (.inserted ⟨⟨1, 0⟩, 2⟩))]

theorem interleaved_calls_linearizable : ∃ steps final, Run Stepped (new (.ofInts [7, 8])) steps final ∧
    steps.map Taken.label = interleaved ∧ Linearizable (.ofInts [7, 8]) steps final := by
  have fine : (Run.follow step (new (.ofInts [7, 8])) interleaved).any fun made => made.1.all fun taken =>
      decide (taken.before.ProperAction taken.label) && taken.before.calls.all isLatched := by decide +kernel
  cases followed : Run.follow step (new (.ofInts [7, 8])) interleaved with
  | none =>
    rw [followed] at fine
    cases fine
  | some made =>
    obtain ⟨steps, final⟩ := made
    obtain ⟨run, labels⟩ := Run.of_follow .nil followed
    refine ⟨steps, final, run, labels, (linearizable_iff_no_insert_beside 1 .oneInt (fun _ => True)).1 _ steps final
      (TableHeap.ofInts_spec _).1 run fun taken member => ?_⟩
    rw [followed] at fine
    have here := List.all_eq_true.mp fine taken member
    rw [Bool.and_eq_true, decide_eq_true_eq] at here
    exact ⟨here.1, undisturbed_of_latched here.2 taken.label⟩

/-- A thread that inserts the first row of a table, and another that iterates over the table. -/
theorem iterator_panics_beside_insert :
    CanPanic (fun method => method = .insertTuple ∨ method = .next) (.newTableHeap 1 .oneInt) :=
  canPanic_of_next (.inl rfl) (.inr rfl) 1 .oneInt []

end SharedTableHeap
end GoDB.Execution
