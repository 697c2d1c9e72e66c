import GoDB.Lib.Run
import GoDB.Proofs.TableHeapScan

/-! Sequences of calls to a table heap against a map that keeps the books. -/

namespace GoDB.Execution
open Common Lib Storage List TableHeap

namespace Contents

def after (contents : Contents) : HeapCall → HeapReply → Contents
  | .insertTuple row, .inserted rid => Function.update contents rid (.live row)
  | .updateTuple rid row, .done => Function.update contents rid (.live row)
  | .deleteTuple rid, .done => Function.update contents rid .deleted
  | .vacuumPage pageID, .done => vacuumed contents pageID
  | _, _ => contents

def Allows (contents : Contents) : HeapCall → HeapReply → Prop
  | .insertTuple _, answer => ∃ rid, answer = .inserted rid ∧ contents rid = .absent
  | .readTuple rid _, answer =>
    (∃ row, contents rid = .live row ∧ answer = .bytes row) ∨
      (∀ row, contents rid ≠ .live row) ∧ answer = .failed .errTupleDeleted
  | .updateTuple rid _, answer | .deleteTuple rid, answer =>
    (∃ row, contents rid = .live row ∧ answer = .done) ∨
      (∀ row, contents rid ≠ .live row) ∧ answer = .failed .errTupleDeleted
  | .vacuumPage _, answer => answer = .done

end Contents

/-- A heap, the map that its calls should have made and the record ids that it gave out. -/
structure Ledger where
  heap : TableHeap
  contents : Contents
  issued : List RecordID

namespace Ledger

def start (oid : ObjectID) (desc : RawTupleDesc) : Ledger := ⟨.newTableHeap oid desc, fun _ => .absent, []⟩

def record (ledger : Ledger) (heap : TableHeap) (call : HeapCall) (answer : HeapReply) : Ledger where
  heap := heap
  contents := ledger.contents.after call answer
  issued := match answer with
    | .inserted rid => rid :: ledger.issued
    | _ => ledger.issued

def Step (ledger : Ledger) (event : HeapCall × HeapReply) (later : Ledger) : Prop :=
  event.2 ≠ .failed .storage ∧
    ∃ heap, ledger.heap.invoke event.1 = some (event.2, heap) ∧ later = ledger.record heap event.1 event.2

/-- Rows and buffers have the size of a tuple and record ids were given out before. -/
def Proper (ledger : Ledger) : HeapCall → Prop
  | .insertTuple row => row.length = ledger.heap.desc.bytesPerTuple
  | .updateTuple rid row => rid ∈ ledger.issued ∧ row.length = ledger.heap.desc.bytesPerTuple
  | .deleteTuple rid => rid ∈ ledger.issued
  | .readTuple rid buffer => rid ∈ ledger.issued ∧ buffer.length = ledger.heap.desc.bytesPerTuple
  | .vacuumPage _ => True

structure Balanced (ledger : Ledger) : Prop where
  formed : ledger.heap.WellFormed
  contents : ledger.contents = ledger.heap.contents
  issued : ∀ rid ∈ ledger.issued, ledger.heap.Names rid

theorem balanced_start (oid : ObjectID) (desc : RawTupleDesc) : (start oid desc).Balanced := by
  refine ⟨forall_mem_nil _, ?_, forall_mem_nil _⟩
  funext rid
  by_contra present
  have named : (start oid desc).heap.contents rid ≠ .absent := fun absent => present absent.symm
  obtain ⟨p, i, rfl⟩ := exists_ridAt named
  rw [contents_ridAt] at named
  cases (entryAt_ne_absent named).1

variable {ledger : Ledger}

theorem names_mono {heap later : TableHeap} (table : later = { heap with pages := later.pages })
    (grows : heap.pages.length ≤ later.pages.length) {rid : RecordID} (named : heap.Names rid) : later.Names rid := by
  obtain ⟨p, bound, i, inside, rfl⟩ := named
  rw [table]
  exact ⟨p, Nat.lt_of_lt_of_le bound grows, i, inside, rfl⟩

/-- What the ledger has to see of a call: its reply is that of the map, a refusal
changes nothing and the books stay balanced. -/
def Serves (ledger : Ledger) (call : HeapCall) : Prop :=
  ∃ answer heap, ledger.heap.invoke call = some (answer, heap) ∧
    (answer ≠ .failed .storage → ledger.contents.Allows call answer) ∧
    (∀ error, answer = .failed error → heap = ledger.heap) ∧ (ledger.record heap call answer).Balanced

section
variable {call : HeapCall} {event : HeapCall × HeapReply} {later : Ledger} (balanced : ledger.Balanced)

include balanced

theorem Balanced.unchanged {answer : HeapReply} (invoked : ledger.heap.invoke call = some (answer, ledger.heap))
    (allowed : answer ≠ .failed .storage → ledger.contents.Allows call answer)
    (record : ledger.record ledger.heap call answer = ledger) : ledger.Serves call := by
  refine ⟨answer, ledger.heap, invoked, allowed, fun _ _ => rfl, ?_⟩
  rw [record]
  exact balanced

theorem Balanced.insertTuple {row : RawTuple}
    (length : row.length = ledger.heap.desc.bytesPerTuple) : ledger.Serves (.insertTuple row) := by
  rcases insertTuple_spec balanced.formed length with ⟨rid, heap, answer, inserts⟩ | ⟨-, failed⟩
  · refine ⟨.inserted rid, heap, by simp [invoke, answer, reply], fun _ => ⟨rid, rfl, ?_⟩, fun _ => nofun,
      inserts.formed, ?_, ?_⟩
    · rw [balanced.contents]
      exact inserts.fresh
    · rw [record, Contents.after, balanced.contents, inserts.contents]
    · refine List.forall_mem_cons.mpr ⟨inserts.named, fun other member => ?_⟩
      exact names_mono inserts.table inserts.grows (balanced.issued other member)
  · exact balanced.unchanged (by simp [invoke, failed, reply]) (fun counted => absurd rfl counted) rfl

theorem Balanced.replaced {heap : TableHeap}
    (invoked : ledger.heap.invoke call = some (.done, heap)) (allowed : ledger.contents.Allows call .done)
    (formed : heap.WellFormed) (contents : heap.contents = ledger.contents.after call .done)
    (table : heap = { ledger.heap with pages := heap.pages })
    (length : heap.pages.length = ledger.heap.pages.length) : ledger.Serves call := by
  refine ⟨.done, heap, invoked, fun _ => allowed, fun _ => nofun, formed, contents.symm, fun rid member => ?_⟩
  exact names_mono table (Nat.le_of_eq length.symm) (balanced.issued rid member)

theorem Balanced.serves (proper : ledger.Proper call) : ledger.Serves call := by
  have same := balanced.contents
  cases call with
  | insertTuple row => exact balanced.insertTuple proper
  | updateTuple rid row =>
    obtain ⟨issued, length⟩ := proper
    rcases updateTuple_spec (balanced.issued rid issued) balanced.formed length with
      ⟨old, heap, live, answer, formed, contents, table, size⟩ | ⟨dead, answer⟩
    · refine balanced.replaced (by simp [invoke, answer, reply]) (.inl ⟨old, ?_, rfl⟩) formed ?_ table size
      · rw [same, live]
      · rw [contents, ← same, Contents.after]
    · exact balanced.unchanged (by simp [invoke, answer, reply]) (fun _ => .inr ⟨same ▸ dead, rfl⟩) rfl
  | deleteTuple rid =>
    rcases deleteTuple_spec (balanced.issued rid proper) balanced.formed with
      ⟨old, heap, live, answer, formed, contents, table, size⟩ | ⟨dead, answer⟩
    · refine balanced.replaced (by simp [invoke, answer, reply]) (.inl ⟨old, ?_, rfl⟩) formed ?_ table size
      · rw [same, live]
      · rw [contents, ← same, Contents.after]
    · exact balanced.unchanged (by simp [invoke, answer, reply]) (fun _ => .inr ⟨same ▸ dead, rfl⟩) rfl
  | readTuple rid buffer =>
    obtain ⟨issued, length⟩ := proper
    rcases readTuple_spec (balanced.issued rid issued) balanced.formed length with
      ⟨row, live, answer⟩ | ⟨dead, answer⟩
    · exact balanced.unchanged (by simp [invoke, answer, reply]) (fun _ => .inl ⟨row, same ▸ live, rfl⟩) rfl
    · exact balanced.unchanged (by simp [invoke, answer, reply]) (fun _ => .inr ⟨same ▸ dead, rfl⟩) rfl
  | vacuumPage pageID =>
    rcases vacuumPage_spec balanced.formed pageID with ⟨heap, answer, formed, contents, table, size⟩ | answer
    · refine balanced.replaced (by simp [invoke, answer, reply]) rfl formed ?_ table size
      rw [contents, ← same, Contents.after]
    · exact balanced.unchanged (by simp [invoke, answer, reply]) (fun counted => absurd rfl counted) rfl

theorem balanced_step (proper : ledger.Proper event.1) (taken : ledger.Step event later) : later.Balanced := by
  obtain ⟨-, heap, invoked, rfl⟩ := taken
  obtain ⟨answer, heap', served, -, -, kept⟩ := balanced.serves proper
  cases invoked.symm.trans served
  exact kept

theorem answered (proper : ledger.Proper event.1) (taken : ledger.Step event later) :
    ledger.contents.Allows event.1 event.2 ∧ ∀ error, event.2 = .failed error → later.heap = ledger.heap := by
  obtain ⟨succeeds, heap, invoked, rfl⟩ := taken
  obtain ⟨answer, heap', served, allowed, refusal, -⟩ := balanced.serves proper
  cases invoked.symm.trans served
  exact ⟨allowed succeeds, refusal⟩

end

theorem behaves_as_map (oid : ObjectID) (desc : RawTupleDesc) {steps : List (Taken Ledger (HeapCall × HeapReply))}
    {final : Ledger} (run : Run Step (start oid desc) steps final)
    (proper : ∀ taken ∈ steps, taken.before.Proper taken.label.1) :
    (∀ taken ∈ steps, taken.before.contents.Allows taken.label.1 taken.label.2 ∧
      (∀ error, taken.label.2 = .failed error → taken.after.heap = taken.before.heap)) ∧
    (∀ call, final.Proper call → ∃ answer heap, final.heap.invoke call = some (answer, heap)) ∧
    ∃ rows, TableHeapIterator.Pass final.heap.iterator rows ∧ rows.Pairwise (fun first second => Before first.1 second.1) ∧
      ∀ rid row, (rid, row) ∈ rows ↔ final.contents rid = .live row := by
  have preserved : ∀ (ledger : Ledger) event later, ledger.Balanced → ledger.Proper event.1 →
      ledger.Step event later → later.Balanced := fun _ _ _ => balanced_step
  have balanced := run.invariant_when (fun ledger event => ledger.Proper event.1) Balanced (balanced_start oid desc)
    preserved proper
  refine ⟨?_, fun call good => ?_, ?_⟩
  · exact run.every_when (fun ledger event => ledger.Proper event.1) Balanced
      (fun ledger event later => ledger.contents.Allows event.1 event.2 ∧
        ∀ error, event.2 = .failed error → later.heap = ledger.heap)
      (balanced_start oid desc) preserved (fun _ _ _ => answered) proper
  · obtain ⟨answer, heap, served, -⟩ := balanced.serves good
    exact ⟨answer, heap, served⟩
  · rw [balanced.contents]
    exact iterator_pass balanced.formed

section OneRow

def sevens : RawTuple := List.replicate 8 7

theorem insert_then_read : ∃ rid between final,
    (start 1 RawTupleDesc.oneInt).Step (.insertTuple sevens, .inserted rid) between ∧
    between.Step (.readTuple rid sevens, .bytes sevens) final ∧ rid ∈ between.issued ∧
    final.contents rid = .live sevens ∧ between.heap.desc = RawTupleDesc.oneInt := by
  rcases @insertTuple_spec _ (balanced_start 1 RawTupleDesc.oneInt).formed sevens rfl with
    ⟨rid, heap, answer, inserts⟩ | ⟨full, -⟩
  · have live : heap.contents rid = .live sevens := by rw [inserts.contents, Function.update_self]
    have desc : heap.desc = RawTupleDesc.oneInt := by rw [inserts.table]; rfl
    have read : heap.readTuple rid sevens = some (.ok sevens, heap) := by
      rcases @readTuple_spec _ _ sevens inserts.named inserts.formed (by rw [desc]; rfl) with
        ⟨row, present, answer⟩ | ⟨dead, -⟩
      · cases live.symm.trans present
        exact answer
      · exact absurd live (dead sevens)
    refine ⟨rid, _, _, ⟨nofun, heap, ?_, rfl⟩, ⟨nofun, heap, ?_, rfl⟩, mem_cons_self, ?_, desc⟩
    · simp [invoke, answer, reply]
    · simp [record, invoke, read, reply]
    · exact Function.update_self ..
  · exact absurd full (by decide)

theorem inserted_row_read_back : ∃ steps final rid, Run Step (start 1 RawTupleDesc.oneInt) steps final ∧
    (∃ taken ∈ steps, taken.label = (.readTuple rid sevens, .bytes sevens) ∧ taken.before.contents rid = .live sevens) ∧
    ∃ rows, TableHeapIterator.Pass final.heap.iterator rows ∧ (rid, sevens) ∈ rows := by
  obtain ⟨rid, between, final, inserted, read, issued, live, desc⟩ := insert_then_read
  have run := (Run.nil.snoc inserted).snoc read
  obtain ⟨answers, -, rows, pass, -, members⟩ := behaves_as_map 1 RawTupleDesc.oneInt run (by
    intro taken member
    rcases List.mem_append.mp member with member | member <;> cases List.mem_singleton.mp member
    · rfl
    · exact ⟨issued, by rw [desc]; rfl⟩)
  refine ⟨_, final, rid, run, ⟨_, mem_append_right _ (mem_singleton_self _), rfl, ?_⟩, rows, pass,
    (members rid sevens).mpr live⟩
  rcases (answers _ (mem_append_right _ (mem_singleton_self _))).1 with ⟨row, stored, same⟩ | ⟨-, refused⟩
  · cases same
    exact stored
  · cases refused

end OneRow
end Ledger
end GoDB.Execution
