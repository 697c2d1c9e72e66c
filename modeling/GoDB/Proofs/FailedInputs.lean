import GoDB.Execution.ExecutorPipeline
import GoDB.Proofs.AggregateResults
import GoDB.Proofs.MaintainedIndexes

/-! A DELETE or an UPDATE whose input ends with an error. The rows are collected
first, but the error is not looked at before they are changed. -/

namespace GoDB.Execution
open Common Lib Storage Indexing Planner List Option ModificationExecutor TableHeap

variable {σ : Type} {child : Executor σ} {e : ModificationExecutor σ} {rows : List Tuple} {last : σ} {err : ExecError}
  {fuel : Nat}

/-- `Next` returns no row, the table has the rows and the indexes that it had, and this error is reported. -/
def CalledOff (c : Executor (ModificationExecutor σ)) (e : ModificationExecutor σ) (err : ExecError) : Prop :=
  ∃ later, c.next e = some (false, later) ∧ later.table.heap.contents = e.table.heap.contents ∧
    later.table.indexes = e.table.indexes ∧ c.error later = some err

def Refuses (change : TableState → List Tuple → Option Outcome) (table : TableState) (rows : List Tuple)
    (err : ExecError) : Prop :=
  ∃ failure later, err = .heap failure ∧ change table rows = some (.error failure, later) ∧
    later.heap.contents = table.heap.contents ∧ later.indexes = table.indexes

theorem foldlM_collect (rows before : List Tuple) :
    rows.foldlM (fun rows tuple => some (rows ++ [tuple])) before = some (before ++ rows) := by
  induction rows generalizing before with
  | nil => exact congrArg some (List.append_nil before).symm
  | cons tuple rest ih =>
    rw [List.foldlM_cons]
    exact (ih _).trans (by rw [List.append_assoc, List.singleton_append])

section
variable (fresh : e.done = false) (yields : child.Yields e.child rows) (ends : child.Ends e.child last)
  (enough : rows.length < fuel)

include fresh yields ends enough

theorem next_collect (change : TableState → List Tuple → Option Outcome) :
    (executor child (collect fuel child change)).next e =
      (change e.table rows).map { e with done := true, child := last }.settle := by
  have collected := drain_eq yields ends (fun rows tuple => some (rows ++ [tuple])) [] enough
  rw [foldlM_collect, List.nil_append, Option.map_some] at collected
  simp only [executor, collect, fresh, collected]
  exact (Option.map_eq_bind ..).symm

theorem calledOff_collect_iff (change : TableState → List Tuple → Option Outcome) :
    CalledOff (executor child (collect fuel child change)) e err ↔ Refuses change e.table rows err := by
  unfold CalledOff Refuses
  rw [next_collect fresh yields ends enough change]
  cases change e.table rows with
  | none => simp
  | some outcome =>
    obtain ⟨result, table⟩ := outcome
    cases result with
    | ok count => simp [settle]
    | error failure =>
      constructor
      · rintro ⟨later, made, contents, indexes, reported⟩
        cases made
        cases reported
        exact ⟨failure, table, rfl, rfl, contents, indexes⟩
      · rintro ⟨_, _, rfl, made, contents, indexes⟩
        cases made
        exact ⟨_, rfl, contents, indexes, rfl⟩

end

/-- The rows were read from slots of the table, each from its own, and may be gone by now. -/
structure TableHeap.Addresses (heap : TableHeap) (rows : List Tuple) : Prop where
  named : ∀ t ∈ rows, heap.Names t.rid
  read : ∀ t ∈ rows, ∃ row : RawTuple, row.length = heap.desc.bytesPerTuple ∧ t = .fromRawTuple row heap.desc t.rid
  once : (rows.map (·.rid)).Nodup

def Gone (heap : TableHeap) (t : Tuple) : Prop := ∀ row, heap.contents t.rid ≠ .live row

structure Changes (heap : TableHeap) (t : Tuple) (rows : List Tuple) (entry : Entry) (after : TableHeap) : Prop where
  live : ∃ row, heap.contents t.rid = .live row
  formed : after.WellFormed
  contents : after.contents = Function.update heap.contents t.rid entry
  desc : after.desc = heap.desc
  addresses : after.Addresses rows
  apart : t.rid ∉ rows.map (·.rid)

section
variable {heap after : TableHeap} {state later : TableState} {t : Tuple} {count : Int64} {entry : Entry}
  {result : Except HeapError Int64} {rid : RecordID}

theorem changes_of_update {row : RawTuple} (addresses : heap.Addresses (t :: rows))
    (live : heap.contents t.rid = .live row) (formed : after.WellFormed)
    (contents : after.contents = Function.update heap.contents t.rid entry)
    (table : after = { heap with pages := after.pages }) (length : after.pages.length = heap.pages.length) :
    Changes heap t rows entry after := by
  obtain ⟨apart, once⟩ := nodup_cons.mp addresses.once
  refine ⟨⟨row, live⟩, formed, contents, by rw [table], ⟨fun other member => ?_, ?_, once⟩, apart⟩
  · obtain ⟨p, bound, i, inside, same⟩ := addresses.named other (mem_cons_of_mem _ member)
    rw [table]
    exact ⟨p, length ▸ bound, i, inside, same⟩
  · rw [table]
    exact (forall_mem_cons.mp addresses.read).2

theorem Changes.of_ne (changes : Changes heap t rows entry after) (other : rid ∉ (t :: rows).map (·.rid)) :
    after.contents rid = heap.contents rid := by
  rw [changes.contents, Function.update_of_ne (ne_of_not_mem_cons other)]

namespace DeleteExecutor
variable {indexes : List Index}

theorem deleteRows_cons_spec (formed : state.heap.WellFormed) (addresses : state.heap.Addresses (t :: rows))
    (recorded : state.indexes.mapM (deleteRow t) = some indexes) :
    (∃ after, Changes state.heap t rows .deleted after ∧
      deleteRows state count (t :: rows) = deleteRows ⟨after, indexes⟩ (count + 1) rows) ∨
    (Gone state.heap t ∧ deleteRows state count (t :: rows) = some (.error .errTupleDeleted, ⟨state.heap, indexes⟩)) := by
  rcases deleteTuple_spec (addresses.named t mem_cons_self) formed with
    ⟨row, after, live, answer, kept, contents, table, length⟩ | ⟨gone, answer⟩
  · exact .inl ⟨after, changes_of_update addresses live kept contents table length, by
      simp [deleteRows, recorded, answer]⟩
  · exact .inr ⟨gone, by simp [deleteRows, recorded, answer]⟩

variable (formed : state.heap.WellFormed) (addresses : state.heap.Addresses rows)

include formed addresses

theorem contents_deleteRows (done : deleteRows state count rows = some (result, later)) (other : rid ∉ rows.map (·.rid)) :
    later.heap.contents rid = state.heap.contents rid := by
  induction rows generalizing state count with
  | nil =>
    cases done
    rfl
  | cons t rows ih =>
    obtain ⟨indexes, recorded, -⟩ := Option.bind_eq_some_iff.mp done
    rcases deleteRows_cons_spec formed addresses recorded with ⟨after, changes, continues⟩ | ⟨-, stops⟩
    · rw [continues] at done
      rw [ih changes.formed changes.addresses done (not_mem_of_not_mem_cons other), changes.of_ne other]
    · cases done.symm.trans stops
      rfl

theorem refuses_next_iff : Refuses next state rows err ↔ err = .heap .errTupleDeleted ∧
    ∃ t rest, rows = t :: rest ∧ Gone state.heap t ∧ state.indexes.mapM (deleteRow t) = some state.indexes := by
  simp only [Refuses, next, deepCopy_read addresses.read, bind_eq_bind, bind_some]
  cases rows with
  | nil => simp [deleteRows]
  | cons t rows =>
    cases recorded : state.indexes.mapM (deleteRow t) with
    | none => simp [deleteRows, recorded]
    | some indexes =>
      rcases @deleteRows_cons_spec _ _ _ 0 _ formed addresses recorded with
        ⟨after, changes, continues⟩ | ⟨gone, stops⟩
      · obtain ⟨row, live⟩ := changes.live
        constructor
        · rintro ⟨failure, later, -, done, contents, -⟩
          rw [continues] at done
          -- The row that is deleted first is not there again at the end.
          have missing := contents_deleteRows changes.formed changes.addresses done changes.apart
          rw [contents, changes.contents, Function.update_self, live] at missing
          cases missing
        · rintro ⟨-, _, _, same, gone, -⟩
          cases same
          exact absurd live (gone row)
      · rw [stops]
        constructor
        · rintro ⟨failure, later, rfl, done, -, same⟩
          cases done
          exact ⟨rfl, t, rows, rfl, gone, same ▸ recorded⟩
        · rintro ⟨rfl, _, _, same, -, unchanged⟩
          cases same
          cases recorded.symm.trans unchanged
          exact ⟨_, _, rfl, rfl, rfl, rfl⟩

end DeleteExecutor

namespace UpdateExecutor
variable {expressions : List (Option PhysicalExpr)} {raw : RawTuple} {vals : List Value} {indexes : List Index}

def rewritten (expressions : List (Option PhysicalExpr)) (heap : TableHeap) (t : Tuple) : Option RawTuple := do
  storedForm heap (.fromValues (← newValues expressions t))

def moveEntries (expressions : List (Option PhysicalExpr)) (t : Tuple) (indexes : List Index) : Option (List Index) := do
  indexes.mapM (moveRow t (← newValues expressions t))

/-- An UPDATE comes to a row that is gone. The rows before it are given the bytes that they have, and
their moves make the second indexes of the first. -/
inductive Stopped (expressions : List (Option PhysicalExpr)) (heap : TableHeap) :
    List Index → List Tuple → List Index → Prop
  | gone {t : Tuple} {rest : List Tuple} {indexes : List Index} (stored : (rewritten expressions heap t).isSome)
    (gone : Gone heap t) : Stopped expressions heap indexes (t :: rest) indexes
  | past {t : Tuple} {rest : List Tuple} {indexes moved last : List Index} {raw : RawTuple}
    (stored : rewritten expressions heap t = some raw) (same : heap.contents t.rid = .live raw)
    (moves : moveEntries expressions t indexes = some moved) (later : Stopped expressions heap moved rest last) :
    Stopped expressions heap indexes (t :: rest) last

theorem Stopped.congr {before : List Index} (stopped : Stopped expressions heap before rows indexes)
    (desc : after.desc = heap.desc) (contents : after.contents = heap.contents) :
    Stopped expressions after before rows indexes := by
  have stores t : rewritten expressions after t = rewritten expressions heap t := by
    simp only [rewritten, storedForm, desc]
  induction stopped with
  | gone stored gone => exact .gone (stores _ ▸ stored) (by rwa [Gone, contents])
  | past stored same moves _ ih => exact .past (stores _ ▸ stored) (contents ▸ same) moves ih

theorem updateRows_cons_spec (formed : state.heap.WellFormed) (addresses : state.heap.Addresses (t :: rows))
    (stored : rewritten expressions state.heap t = some raw) :
    (∃ after, Changes state.heap t rows (.live raw) after ∧ updateRows expressions state count (t :: rows) =
      (moveEntries expressions t state.indexes).bind fun indexes =>
        updateRows expressions ⟨after, indexes⟩ (count + 1) rows) ∨
    (Gone state.heap t ∧ updateRows expressions state count (t :: rows) = some (.error .errTupleDeleted, state)) := by
  obtain ⟨vals, computed, stored⟩ := Option.bind_eq_some_iff.mp stored
  rcases updateTuple_spec (addresses.named t mem_cons_self) formed (length_storedForm stored) with
    ⟨row, after, live, answer, kept, contents, table, length⟩ | ⟨gone, answer⟩
  · exact .inl ⟨after, changes_of_update addresses live kept contents table length, by
      simp [updateRows, moveEntries, computed, stored, answer]⟩
  · exact .inr ⟨gone, by simp [updateRows, computed, stored, answer]⟩

theorem rewritten_of_updateRows (done : updateRows expressions state count (t :: rows) = some (result, later)) :
    ∃ raw, rewritten expressions state.heap t = some raw := by
  obtain ⟨vals, computed, done⟩ := Option.bind_eq_some_iff.mp done
  obtain ⟨raw, stored, -⟩ := Option.bind_eq_some_iff.mp done
  exact ⟨raw, Option.bind_eq_some_iff.mpr ⟨vals, computed, stored⟩⟩

variable (formed : state.heap.WellFormed) (addresses : state.heap.Addresses rows)

include formed addresses

theorem contents_updateRows (done : updateRows expressions state count rows = some (result, later))
    (other : rid ∉ rows.map (·.rid)) : later.heap.contents rid = state.heap.contents rid := by
  induction rows generalizing state count with
  | nil =>
    cases done
    rfl
  | cons t rows ih =>
    obtain ⟨raw, stored⟩ := rewritten_of_updateRows done
    rcases updateRows_cons_spec formed addresses stored with ⟨after, changes, continues⟩ | ⟨-, stops⟩
    · obtain ⟨indexes, -, done⟩ := Option.bind_eq_some_iff.mp (continues ▸ done)
      rw [ih changes.formed changes.addresses done (not_mem_of_not_mem_cons other), changes.of_ne other]
    · cases done.symm.trans stops
      rfl

theorem stopped_of_error {failure : HeapError}
    (done : updateRows expressions state count rows = some (.error failure, later))
    (unchanged : later.heap.contents = state.heap.contents) :
    failure = .errTupleDeleted ∧ Stopped expressions state.heap state.indexes rows later.indexes := by
  induction rows generalizing state count with
  | nil => cases done
  | cons t rows ih =>
    obtain ⟨raw, stored⟩ := rewritten_of_updateRows done
    rcases updateRows_cons_spec formed addresses stored with ⟨after, changes, continues⟩ | ⟨gone, stops⟩
    · obtain ⟨moved, moves, done⟩ := Option.bind_eq_some_iff.mp (continues ▸ done)
      -- What the row is given stays to the end, so it was there before.
      have same := contents_updateRows changes.formed changes.addresses done changes.apart
      rw [unchanged, changes.contents, Function.update_self] at same
      have contents : after.contents = state.heap.contents := by
        rw [changes.contents, ← same, Function.update_eq_self]
      obtain ⟨failed, stopped⟩ := ih changes.formed changes.addresses done (unchanged.trans contents.symm)
      exact ⟨failed, .past stored same moves (stopped.congr changes.desc.symm contents.symm)⟩
    · cases done.symm.trans stops
      exact ⟨rfl, .gone (stored ▸ rfl) gone⟩

theorem error_of_stopped (stopped : Stopped expressions state.heap state.indexes rows indexes) :
    ∃ later, updateRows expressions state count rows = some (.error .errTupleDeleted, later) ∧
      later.heap.contents = state.heap.contents ∧ later.indexes = indexes := by
  induction rows generalizing state count with
  | nil => cases stopped
  | cons t rows ih =>
    cases stopped with
    | gone stored gone =>
      obtain ⟨raw, stored⟩ := Option.isSome_iff_exists.mp stored
      rcases updateRows_cons_spec formed addresses stored with ⟨after, changes, -⟩ | ⟨-, stops⟩
      · obtain ⟨row, live⟩ := changes.live
        exact absurd live (gone row)
      · exact ⟨state, stops, rfl, rfl⟩
    | past stored same moves stopped =>
      rcases updateRows_cons_spec formed addresses stored with ⟨after, changes, continues⟩ | ⟨gone, -⟩
      · have contents : after.contents = state.heap.contents := by
          rw [changes.contents, ← same, Function.update_eq_self]
        obtain ⟨later, done, unchanged, last⟩ :=
          @ih ⟨after, _⟩ (count + 1) changes.formed changes.addresses (stopped.congr changes.desc contents)
        exact ⟨later, by rw [continues, moves, bind_some, done], unchanged.trans contents, last⟩
      · exact absurd same (gone _)

theorem refuses_next_iff : Refuses (next expressions) state rows err ↔
      err = .heap .errTupleDeleted ∧ Stopped expressions state.heap state.indexes rows state.indexes := by
  simp only [Refuses, next, deepCopy_read addresses.read, bind_eq_bind, bind_some]
  constructor
  · rintro ⟨failure, later, rfl, done, unchanged, same⟩
    obtain ⟨rfl, stopped⟩ := stopped_of_error formed addresses done unchanged
    exact ⟨rfl, same ▸ stopped⟩
  · rintro ⟨rfl, stopped⟩
    obtain ⟨later, done, unchanged, same⟩ := error_of_stopped formed addresses stopped
    exact ⟨_, later, rfl, done, unchanged, same⟩

end UpdateExecutor
end

def failingInput (rows : List Tuple) (err : ExecError) : Executor Nat where
  init _ := some (none, 0)
  next s := some (decide (s < rows.length), s + 1)
  current s := rows[s - 1]?
  error s := if rows.length < s then some err else none

def overTable (table : TableState) : ModificationExecutor Nat := ⟨0, table, none, false, none⟩

def gapped : TableState := ⟨ofInts [42], [.hash (newMemHashIndex .oneInt)]⟩

def rowAt (slot : Nat) : Tuple := .fromRawTuple (Value.int 42).writeTo .oneInt (gapped.heap.ridAt 0 slot)

theorem addresses_slots {slots : List Nat} (first : ∀ slot ∈ slots, slot < 2) (once : ((slots.map rowAt).map (·.rid)).Nodup) :
    gapped.heap.Addresses (slots.map rowAt) := by
  have many : 0 < gapped.heap.pages.length ∧ 2 ≤ gapped.heap.slots := by decide +kernel
  refine ⟨forall_mem_map.mpr fun slot member => ?_, forall_mem_map.mpr fun slot _ => ?_, once⟩
  · exact ⟨0, many.1, slot, (first slot member).trans_le many.2, rfl⟩
  · rw [gapped, (ofInts_spec [42]).2]
    exact ⟨_, rfl, rfl⟩

def failsAtOnce : Executor Nat := failingInput [] (.heap .storage)

end GoDB.Execution
