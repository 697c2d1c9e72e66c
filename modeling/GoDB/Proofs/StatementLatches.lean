import GoDB.Proofs.ReleasedLatches
import GoDB.Proofs.TableHeapScan

/-! When a statement that changes a table does not wait for itself. -/

namespace GoDB.Execution
open Common Lib Storage Indexing Planner List

theorem TableHeapIterator.tableHeap_next {it later : TableHeapIterator} {found : Bool}
    (advanced : it.next = some (found, later)) : later.tableHeap = it.tableHeap := by
  fun_induction next it with
  | case1 | case2 =>
    cases advanced
    rfl
  | case3 it inside page fetched past ih => exact ih advanced
  | case4 => cases advanced
  | case5 it inside page fetched more moved live =>
    have same : moved = later := congrArg Prod.snd (Option.some.inj advanced)
    rw [← same]
  | case6 it inside page fetched more moved gone ih => exact ih advanced

namespace LatchedScan

def Of (table : ObjectID) (e : LatchedScan) : Prop :=
  e.tableHeap.oid = table ∧ e.scan.iterator.tableHeap.oid = table

def Tidy (table oid : ObjectID) (e : LatchedScan) : Prop := e.Of table ∧ ∀ page ∈ e.leaked, page.oid ≠ oid

def Clean (table oid : ObjectID) (e : LatchedScan) : Prop := e.Of table ∧ ∀ page ∈ e.latches, page.oid ≠ oid

theorem releases (table oid : ObjectID) :
    Releases executor (Tidy table oid) (Clean table oid) True (table ≠ oid) True True where
  tidy_of_clean resting := ⟨resting.1, fun page held => resting.2 page (mem_append_left _ held)⟩
  init {e err later} resting returned := by
    cases returned
    have clean : Clean table oid { e with
        scan := { e.scan with iterator := e.tableHeap.iterator }, latched := none,
        leaked := e.leaked ++ e.latched.toList } := by
      refine ⟨⟨resting.1.1, resting.1.1⟩, ?_⟩
      rw [latches, Option.toList_none, append_nil]
      exact resting.2
    exact ⟨fun _ => ⟨⟨clean.1, resting.2⟩, fun _ => clean⟩, fun _ => clean⟩
  next {e found later} ready returned := by
    obtain ⟨⟨of, ofIterator⟩, unleaked⟩ := ready
    obtain ⟨⟨found', scan⟩, pulled, made⟩ := bind_eq_some.mp returned
    obtain ⟨⟨found'', iterator⟩, moved, rest⟩ := bind_eq_some.mp pulled
    have stands := (congrArg TableHeap.oid (TableHeapIterator.tableHeap_next moved)).trans ofIterator
    cases found'' with
    | false =>
      cases rest
      cases made
      have clean : Clean table oid { e with scan := { e.scan with iterator }, latched := none } := by
        refine ⟨⟨of, stands⟩, ?_⟩
        rw [latches, Option.toList_none, append_nil]
        exact unleaked
      exact ⟨fun _ => clean, fun _ => clean⟩
    | true =>
      obtain ⟨row, -, rest⟩ := bind_eq_some.mp rest
      cases rest
      cases made
      refine ⟨⟨⟨of, stands⟩, unleaked⟩, fun other => ⟨⟨of, stands⟩, fun page held => ?_⟩⟩
      rcases mem_append.mp held with leaked | current
      · exact unleaked page leaked
      · cases Option.mem_toList.mp current
        exact fun same => other (stands.symm.trans same)

variable {table : ObjectID} {e : LatchedScan}

theorem clean_refresh {oid : ObjectID} (tableHeap : TableHeap) (clean : e.Clean table oid) :
    (e.refresh tableHeap).Clean table oid := by
  unfold refresh
  split
  next same => exact ⟨⟨same.trans clean.1.1, same.trans clean.1.1⟩, clean.2⟩
  next => exact clean

theorem tidy_refresh {oid : ObjectID} (tableHeap : TableHeap) (tidy : e.Tidy table oid) :
    (e.refresh tableHeap).Tidy table oid := by
  unfold refresh
  split
  next same => exact ⟨⟨same.trans tidy.1.1, same.trans tidy.1.1⟩, tidy.2⟩
  next => exact tidy

end LatchedScan

theorem watched_releases {σ : Type} {c : Executor σ} {tidy clean : σ → Prop} {starts rows atInit always : Prop}
    (releases : Releases c tidy clean starts rows atInit always) :
    Releases (watched c) (fun e => tidy e.1) (fun e => clean e.1) starts rows atInit always where
  tidy_of_clean := releases.tidy_of_clean
  init resting returned := by
    obtain ⟨⟨err, s⟩, begun, made⟩ := bind_eq_some.mp returned
    cases made
    exact releases.init resting begun
  next ready returned := by
    obtain ⟨⟨found, s⟩, advanced, made⟩ := bind_eq_some.mp returned
    have left := releases.next ready advanced
    cases found <;> cases made <;> exact left

theorem releases_nothing {σ : Type} (c : Executor σ) : Releases c (fun _ => True) (fun _ => True) True True True True where
  tidy_of_clean _ := trivial
  init _ _ := ⟨fun _ => ⟨trivial, fun _ => trivial⟩, fun _ => trivial⟩
  next {_ found _} _ _ := by
    cases found
    · exact ⟨fun _ => trivial, fun _ => trivial⟩
    · exact ⟨trivial, fun _ => trivial⟩

/-- What is known of a tree about the latches of one table. None is held after `Init`
(`starts`), with a row (`rows`), at an end without an error (`ends`), at any end
(`always`). -/
structure Discipline where
  starts : Bool
  rows : Bool
  ends : Bool
  always : Bool

namespace Pipeline

def discipline (oid : ObjectID) : Pipeline Leaf → Discipline
  | .leaf (.scan tableHeap) => ⟨true, tableHeap.oid ≠ oid, true, true⟩
  | .leaf (.other _) => ⟨true, true, true, true⟩
  | .filter _ child _ | .projection child _ => child.discipline oid
  | .limit child _ =>
    let below := child.discipline oid
    ⟨below.starts, below.rows, below.ends && below.rows && below.starts, below.always && below.rows⟩
  | .sort _ child _ _ =>
    let below := child.discipline oid
    ⟨below.starts, below.ends, below.ends, below.always⟩
  | .aggregate _ child _ _ =>
    let below := child.discipline oid
    ⟨below.ends, below.ends, below.ends, below.always⟩
  | .join _ left right _ _ _ =>
    let left := left.discipline oid
    let right := right.discipline oid
    ⟨left.rows && left.always && right.starts, left.rows && left.always && right.rows,
      left.ends && left.always && right.ends && right.starts, left.always && left.rows && right.always⟩

def Clean (oid : ObjectID) : (tree : Pipeline Leaf) → tree.sources.State → Prop
  | .leaf (.scan tableHeap), (e : LatchedScan × Bool) => e.1.Clean tableHeap.oid oid
  | .leaf (.other _), _ => True
  | .filter _ child _, (e : FilterExecutor child.sources.State) => child.Clean oid e.child
  | .projection child _, (e : ProjectionExecutor child.sources.State) => child.Clean oid e.child
  | .limit child _, (e : LimitExecutor child.sources.State) => child.Clean oid e.child
  | .sort _ child _ _, (e : SortExecutor child.sources.State) => child.Clean oid e.child
  | .aggregate _ child _ _, (e : AggregateExecutor child.sources.State) => child.Clean oid e.child
  | .join _ left right _ _ _, (e : BlockNestedLoopJoinExecutor (left.sources.State × Bool) right.sources.State) =>
    left.Clean oid e.left.1 ∧ right.Clean oid e.right

def Tidy (oid : ObjectID) : (tree : Pipeline Leaf) → tree.sources.State → Prop
  | .leaf (.scan tableHeap), (e : LatchedScan × Bool) => e.1.Tidy tableHeap.oid oid
  | .leaf (.other _), _ => True
  | .filter _ child _, (e : FilterExecutor child.sources.State) => child.Tidy oid e.child
  | .projection child _, (e : ProjectionExecutor child.sources.State) => child.Tidy oid e.child
  | .limit child _, (e : LimitExecutor child.sources.State) => child.Clean oid e.child
  | .sort _ child _ _, (e : SortExecutor child.sources.State) =>
    SortTidy (child.Tidy oid) (child.Clean oid) e
  | .aggregate _ child _ _, (e : AggregateExecutor child.sources.State) => child.Clean oid e.child
  | .join _ left right _ _ _, (e : BlockNestedLoopJoinExecutor (left.sources.State × Bool) right.sources.State) =>
    JoinTidy (fun e => left.Tidy oid e.1) (fun e => left.Clean oid e.1) (right.Tidy oid) (right.Clean oid)
      ((left.discipline oid).rows = true) ((right.discipline oid).rows = true) e

variable {oid : ObjectID} {tree : Pipeline Leaf}

theorem releases (ends : (tree.discipline oid).ends = true) :
    Releases tree.sources.executor (tree.Tidy oid) (tree.Clean oid) ((tree.discipline oid).starts = true)
      ((tree.discipline oid).rows = true) ((tree.discipline oid).always = true) ((tree.discipline oid).always = true) := by
  induction tree with
  | leaf leaf =>
    cases leaf with
    | scan tableHeap =>
      exact (watched_releases (LatchedScan.releases tableHeap.oid oid)).weaken (fun _ => trivial)
        (fun other => of_decide_eq_true other) (fun _ => trivial) fun _ => trivial
    | other source =>
      exact (releases_nothing (watched source.executor)).weaken (fun _ => trivial) (fun _ => trivial)
        (fun _ => trivial) fun _ => trivial
  | filter fuel child predicate ih => exact filterExecutor_releases (ih ends) fuel predicate
  | projection child expressions ih => exact projectionExecutor_releases (ih ends) expressions
  | limit child count ih =>
    simp only [discipline, Bool.and_eq_true] at ends
    have still (always : (discipline oid (.limit child count)).always = true) : (child.discipline oid).always = true :=
      (Bool.and_eq_true_iff.mp always).1
    exact (limitExecutor_releases (ih ends.1.1) ends.2 ends.1.2 count).weaken id id still still
  | sort fuel child schema orderBy ih =>
    exact (sortExecutor_releases (ih ends) fuel schema orderBy).weaken id (fun _ => trivial) id id
  | aggregate fuel child groupByClause aggClauses ih =>
    exact (aggregateExecutor_releases (ih ends) fuel groupByClause aggClauses).weaken (fun _ => trivial) (fun _ => trivial)
      (fun always => ⟨always, always⟩) fun _ => trivial
  | join fuel left right leftSchema rightSchema predicate ihLeft ihRight =>
    simp only [discipline, Bool.and_eq_true] at ends
    refine (blockNestedLoopJoinExecutor_releases (watched_releases (ihLeft ends.1.1.1)) ends.1.1.2 (ihRight ends.1.2)
      ends.2 fuel leftSchema rightSchema predicate).weaken ?_ ?_ ?_ ?_ <;> simp only [discipline, Bool.and_eq_true]
    · exact fun wanted => wanted.1.1
    · exact fun wanted => ⟨wanted.1.1, wanted.2⟩
    · exact fun wanted => ⟨wanted.1.2, wanted.1.1, wanted.2⟩
    · exact fun wanted => ⟨wanted.1.2, wanted.2, wanted.2⟩

theorem clean_fresh (tree : Pipeline Leaf) : tree.Clean oid tree.sources.fresh := by
  induction tree with
  | leaf leaf =>
    cases leaf with
    | scan => exact ⟨⟨rfl, rfl⟩, forall_mem_nil _⟩
    | other => trivial
  | filter _ _ _ ih | projection _ _ ih | limit _ _ ih | sort _ _ _ _ ih | aggregate _ _ _ _ ih => exact ih
  | join _ _ _ _ _ _ ihLeft ihRight => exact ⟨ihLeft, ihRight⟩

variable {s : tree.sources.State}

theorem unheld_of_clean (clean : tree.Clean oid s) : ∀ page ∈ tree.latches s, page.oid ≠ oid := by
  induction tree with
  | leaf leaf =>
    cases leaf with
    | scan => exact clean.2
    | other => exact forall_mem_nil _
  | filter _ _ _ ih | projection _ _ ih | limit _ _ ih | sort _ _ _ _ ih | aggregate _ _ _ _ ih => exact ih clean
  | join _ _ _ _ _ _ ihLeft ihRight => exact forall_mem_append.mpr ⟨ihLeft clean.1, ihRight clean.2⟩

theorem clean_refresh (tableHeap : TableHeap) (clean : tree.Clean oid s) : tree.Clean oid (tree.refresh tableHeap s) := by
  induction tree with
  | leaf leaf =>
    cases leaf with
    | scan => exact LatchedScan.clean_refresh tableHeap clean
    | other => trivial
  | filter _ _ _ ih | projection _ _ ih | limit _ _ ih | sort _ _ _ _ ih | aggregate _ _ _ _ ih => exact ih clean
  | join _ _ _ _ _ _ ihLeft ihRight => exact ⟨ihLeft clean.1, ihRight clean.2⟩

theorem tidy_refresh (tableHeap : TableHeap) (tidy : tree.Tidy oid s) : tree.Tidy oid (tree.refresh tableHeap s) := by
  induction tree with
  | leaf leaf =>
    cases leaf with
    | scan => exact LatchedScan.tidy_refresh tableHeap tidy
    | other => trivial
  | filter _ _ _ ih | projection _ _ ih => exact ih tidy
  | limit | aggregate => exact clean_refresh tableHeap tidy
  | sort _ _ _ _ ih => exact tidy.imp (clean_refresh tableHeap) fun waiting => ⟨waiting.1, waiting.2.1, ih waiting.2.2⟩
  | join _ _ _ _ _ _ ihLeft ihRight =>
    exact ⟨ihLeft tidy.left, ihRight tidy.right, fun rows => clean_refresh tableHeap (tidy.block rows),
      fun current rows => clean_refresh tableHeap (tidy.row current rows),
      fun empty => ⟨clean_refresh tableHeap (tidy.ended empty).1, clean_refresh tableHeap (tidy.ended empty).2⟩⟩

end Pipeline
end GoDB.Execution
