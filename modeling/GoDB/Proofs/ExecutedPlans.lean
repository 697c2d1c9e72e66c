import GoDB.Proofs.ConsistentIndex
import GoDB.Proofs.NestedLoopJoin
import GoDB.Proofs.StaleEntries

/-! The executors that are built for a plan return the rows of the plan. -/

namespace GoDB.Execution
open Common Lib Storage Indexing Planner List TableHeap Tuple TableHeapIterator

namespace TableHeap

def stored (heap : TableHeap) : StoredTable where
  desc := heap.desc
  rows := heap.rowsFrom 0 0
  distinct := nodup_of_ordered heap.pairwise_rowsFrom
  proper rid member := by
    obtain ⟨⟨_, row⟩, listed, rfl⟩ := mem_map.mp member
    obtain ⟨p, i, rfl⟩ := exists_ridAt (by rw [mem_rowsFrom.mp listed]; exact nofun)
    exact ⟨Int.natCast_nonneg p, Int.natCast_nonneg i⟩

theorem readTuple_stored (heap : TableHeap) (rid : RecordID) :
    heap.stored.readTuple rid = (heap.liveTuple rid).map values := by
  cases found : heap.liveTuple rid with
  | some tuple =>
    obtain ⟨row, live, rfl⟩ := liveTuple_eq_some_iff.mp found
    have listed : (rid, row) ∈ heap.stored.rows := mem_rowsFrom.mpr live
    exact (heap.stored.readTuple_stored listed).trans (congrArg some (append_nil _).symm)
  | none =>
    refine Option.map_eq_none_iff.mpr (find?_eq_none.mpr fun entry listed same => ?_)
    have live := mem_rowsFrom.mp listed
    rw [of_decide_eq_true same] at live
    simp [liveTuple, live] at found

end TableHeap

section
variable {σ : Type} {child : Executor σ} {below : σ} {tuples : List Tuple} {heap : TableHeap}

def ReturnsRows (c : Executor σ) (e : σ) (rows : List Row) : Prop :=
  ∃ start tuples, c.init e = some (none, start) ∧ c.Yields start tuples ∧ tuples.map values = rows

theorem map_values_fromValues (rows : List Row) : (rows.map fromValues).map values = rows := by
  rw [map_map]
  exact map_id rows

theorem yields_of_pass {it : TableHeapIterator} {found : List (RecordID × RawTuple)} (pass : it.Pass found)
    (current : Option Tuple) :
    (seqScanExecutor heap).Yields ⟨it, current⟩ (found.map fun entry => .fromRawTuple entry.2 heap.desc entry.1) := by
  induction pass generalizing current with
  | done finished => exact .done (by simp [seqScanExecutor, finished]; rfl)
  | yield advanced read _ ih => exact .more (by simp [seqScanExecutor, advanced, read]) rfl (ih _)

theorem ReadsAlong.returnsRows {c : Executor σ} {ahead : σ → List RecordID} {ready : σ → Prop} {e start : σ} {rows : List Row}
    (reads : ReadsAlong heap c ahead ready) (began : c.init e = some (none, start)) (good : ready start)
    (read : (ahead start).mapM heap.stored.readTuple = some rows) : ReturnsRows c e rows := by
  obtain ⟨found, rfl⟩ := mapM_eq_some_iff.mp read
  simp only [readTuple_stored, Option.isSome_map] at found ⊢
  have named : ∀ rid ∈ ahead start, heap.Names rid := fun rid member =>
    (Option.isSome_iff_exists.mp (found rid member)).elim fun _ => names_of_liveTuple
  exact ⟨start, _, began, ((reads.runs_iff named good rfl).mpr (mapM_eq_some_iff.mpr ⟨found, rfl⟩)).yields, map_filterMap⟩

theorem yields_filter {predicate : PhysicalExpr} {kept : List Row} {fuel : Nat} (yields : child.Yields below tuples)
    (chosen : select predicate.test (tuples.map values) = some kept) (enough : tuples.length < fuel) (current : Option Tuple) :
    ∃ passed, (filterExecutor fuel child predicate).Yields ⟨below, current⟩ passed ∧ passed.map values = kept := by
  induction yields generalizing fuel kept current with
  | @done s last finished =>
    cases chosen
    obtain ⟨fuel, rfl⟩ := Nat.exists_eq_add_of_lt enough
    have none : filterStep child predicate ⟨s, current⟩ = some (.inr (false, ⟨last, current⟩)) := by simp [filterStep, finished]
    exact ⟨[], .done (repeatUntil_return none), rfl⟩
  | @more s later item rest advanced at_ others ih =>
    obtain ⟨fuel, rfl⟩ : ∃ less, fuel = less + 1 := ⟨fuel - 1, by omega⟩
    rw [length_cons] at enough
    obtain ⟨verdict, tested, chosen⟩ := bind_eq_some.mp chosen
    obtain ⟨kept, remaining, made⟩ := bind_eq_some.mp chosen
    cases made
    cases verdict with
    | true =>
      obtain ⟨passed, yields, same⟩ := @ih kept (fuel + 1) remaining (by omega) (some item)
      have found : filterStep child predicate ⟨s, current⟩ = some (.inr (true, ⟨later, some item⟩)) := by
        simp [filterStep, advanced, at_, tested]
      exact ⟨item :: passed, .more (repeatUntil_return found) rfl yields, by simp [same]⟩
    | false =>
      -- the loop goes on with less fuel, which is still enough for the rest
      have step : filterStep child predicate ⟨s, current⟩ = some (.inl ⟨later, current⟩) := by
        simp [filterStep, advanced, at_, tested]
      obtain ⟨_, fewer, -⟩ := @ih kept fuel remaining (by omega) current
      obtain ⟨passed, yields, same⟩ := @ih kept (fuel + 1) remaining (by omega) current
      refine ⟨passed, yields.of_next ?_, same⟩
      obtain ⟨result, returned⟩ : ∃ result, repeatUntil (filterStep child predicate) fuel ⟨later, current⟩ = some result := by
        cases fewer with
        | done finished => exact ⟨_, finished⟩
        | more advanced => exact ⟨_, advanced⟩
      exact (repeatUntil_continue step).trans
        (returned.trans (repeatUntil_mono (fun _ _ same => same) returned (Nat.le_succ fuel)).symm)

theorem yields_projection {expressions : List PhysicalExpr} {projected : List Row}
    (yields : child.Yields below tuples)
    (evaluated : (tuples.map values).mapM (fun row => expressions.mapM (·.eval row)) = some projected)
    (current : Option Tuple) :
    (projectionExecutor child expressions).Yields ⟨below, current⟩ (projected.map fromValues) := by
  induction yields generalizing projected current with
  | done finished =>
    cases evaluated
    exact .done (by simp [projectionExecutor, finished]; rfl)
  | more advanced at_ _ ih =>
    rw [map_cons, mapM_cons] at evaluated
    obtain ⟨row, first, evaluated⟩ := bind_eq_some.mp evaluated
    obtain ⟨projected, remaining, made⟩ := bind_eq_some.mp evaluated
    cases made
    exact .more (by simp [projectionExecutor, advanced, at_, first]) rfl (ih remaining _)

theorem yields_limit (yields : child.Yields below tuples) (limit count : Int) (current : Option Tuple) :
    (limitExecutor child limit).Yields ⟨below, count, current⟩ (tuples.take (limit - count).toNat) := by
  induction yields generalizing count current with
  | @done s last finished =>
    rw [take_nil]
    by_cases reached : limit ≤ count
    · exact .done (by simp [limitExecutor, reached]; rfl)
    · exact .done (by simp [limitExecutor, reached, finished]; rfl)
  | more advanced at_ _ ih =>
    by_cases reached : limit ≤ count
    · rw [Int.toNat_of_nonpos (by omega), take_zero]
      exact .done (by simp [limitExecutor, reached]; rfl)
    · have fewer : (limit - count).toNat = (limit - (count + 1)).toNat + 1 := by omega
      rw [fewer, take_succ_cons]
      exact .more (by simp [limitExecutor, reached, advanced, at_]) rfl (ih (count + 1) _)

end

def Streams : PlanNode → Prop
  | .seqScan .. | .indexScan .. | .indexLookup .. | .values .. => True
  | .filter child _ | .projection child _ | .limit child _ => Streams child
  | _ => False

variable {tables : ObjectID → Option TableHeap} {indexes : ObjectID → Option Index}

/-- With enough fuel for the loops the executors return what the plan stands for. -/
theorem executors_return_planRows (formed : ∀ oid heap, tables oid = some heap → heap.WellFormed) {plan : PlanNode}
    (streams : Streams plan) {tree : ExecutorTree} (built : buildExecutorTree tables indexes plan = some tree) {rows : List Row}
    (returned : planRows ⟨fun oid => (tables oid).map stored, indexes⟩ plan = some rows) :
    ∃ enough, ∀ fuel ≥ enough, ReturnsRows (tree.executor fuel) tree.fresh rows := by
  induction plan generalizing tree rows with
  | seqScan oid =>
    obtain ⟨heap, found, made⟩ := bind_eq_some.mp built
    cases made
    simp only [planRows, found, Option.map_some, Option.some.injEq] at returned
    have pass := pass_from (formed oid heap found) heap.iterator 0 0 ⟨rfl, rfl, le_rfl, rfl, rfl, .inl rfl, rfl⟩
    refine ⟨0, fun fuel _ => ⟨_, _, rfl, yields_of_pass pass none, returned ▸ ?_⟩⟩
    rw [map_map]
    exact map_congr_left fun entry _ => append_nil _
  | indexScan indexOid oid _ direction startKey =>
    obtain ⟨index, named, built⟩ := bind_eq_some.mp built
    obtain ⟨heap, found, built⟩ := bind_eq_some.mp built
    obtain ⟨key, bound, made⟩ := bind_eq_some.mp built
    cases made
    simp only [planRows, named, found, bound, Option.map_some, Option.bind_eq_bind, Option.bind_some] at returned
    obtain ⟨rids, scanned, read⟩ := bind_eq_some.mp returned
    have began : (indexScanExecutor index heap key direction).init (newIndexScanExecutor heap) =
        some (none, { newIndexScanExecutor heap with iterator := some rids }) := by simp [indexScanExecutor, scanned]
    exact ⟨0, fun fuel _ => (indexScanExecutor_reads (formed oid heap found) index key direction).returnsRows began
      ⟨rfl, rfl, length_replicate⟩ read⟩
  | indexLookup indexOid oid _ equalityKey =>
    obtain ⟨index, named, built⟩ := bind_eq_some.mp built
    obtain ⟨heap, found, built⟩ := bind_eq_some.mp built
    obtain ⟨key, bound, made⟩ := bind_eq_some.mp built
    cases made
    simp only [planRows, named, found, bound, Option.map_some, Option.bind_eq_bind, Option.bind_some] at returned
    exact ⟨0, fun fuel _ => (indexLookupExecutor_reads (formed oid heap found) index key).returnsRows rfl
      ⟨rfl, length_replicate⟩ returned⟩
  | values values schema =>
    cases built
    obtain ⟨start, began, runs⟩ := valuesExecutor_repeats returned ⟨0, []⟩ _ .refl
    exact ⟨0, fun fuel _ => ⟨start, _, began, runs.yields, map_values_fromValues rows⟩⟩
  | filter child predicate ih =>
    obtain ⟨input, made, whole⟩ := bind_eq_some.mp built
    cases whole
    obtain ⟨given, returned, chosen⟩ := bind_eq_some.mp returned
    obtain ⟨enough, returns⟩ := ih streams made returned
    refine ⟨enough + given.length + 1, fun fuel most => ?_⟩
    obtain ⟨start, tuples, began, yields, rfl⟩ := returns fuel (by omega)
    rw [length_map] at most
    have sufficient : tuples.length < fuel := by omega
    obtain ⟨passed, yields, same⟩ := yields_filter yields chosen sufficient none
    exact ⟨⟨start, none⟩, passed, bind_eq_some.mpr ⟨_, began, rfl⟩, yields, same⟩
  | projection child expressions ih =>
    obtain ⟨input, made, whole⟩ := bind_eq_some.mp built
    cases whole
    obtain ⟨given, returned, evaluated⟩ := bind_eq_some.mp returned
    obtain ⟨enough, returns⟩ := ih streams made returned
    refine ⟨enough, fun fuel most => ?_⟩
    obtain ⟨start, tuples, began, yields, rfl⟩ := returns fuel most
    exact ⟨⟨start, none⟩, _, bind_eq_some.mpr ⟨_, began, rfl⟩, yields_projection yields evaluated none,
      map_values_fromValues rows⟩
  | limit child limit ih =>
    obtain ⟨input, made, whole⟩ := bind_eq_some.mp built
    cases whole
    obtain ⟨given, below, taken⟩ := bind_eq_some.mp returned
    cases taken
    obtain ⟨enough, returns⟩ := ih streams made below
    refine ⟨enough, fun fuel most => ?_⟩
    obtain ⟨start, tuples, began, yields, rfl⟩ := returns fuel most
    have yields := yields_limit yields limit 0 none
    rw [Int.sub_zero] at yields
    exact ⟨⟨start, 0, none⟩, _, bind_eq_some.mpr ⟨_, began, rfl⟩, yields, map_take⟩
  | _ => cases streams

end GoDB.Execution
