import GoDB.Proofs.StreamedScans

/-! Statements that wait for a page latch that one of their own iterators holds. A deletion does so exactly when a limit
stops its scan at a row, and an insertion that scans its own table when it comes to a row of the last page. -/

namespace GoDB.Execution
open Common Lib Storage Indexing Planner List TableHeap Pipeline Tuple

namespace Root
variable {fuel : Nat} {tree : Pipeline Leaf} {table : TableState}

theorem insert_never_waits (ends : (tree.discipline table.heap.oid).ends = true)
    (streams : (tree.discipline table.heap.oid).rows = true) : (insert fuel tree table).waitsForItself ≠ some true := by
  intro waits
  have releases := releases ends
  obtain ⟨⟨err, below⟩, begun, rest⟩ := bind_eq_some.mp waits
  dsimp only at rest
  split at rest
  next => cases rest
  next fine =>
    have ready := ((releases.init (clean_fresh tree) begun).1 (Option.not_isSome_iff_eq_none.mp fine)).1
    have waited := repeatUntil_rule (fun state : Int64 × TableState × tree.sources.State =>
        tree.Tidy table.heap.oid state.2.2 ∧ state.2.1.heap.oid = table.heap.oid) (fun r => r = false) ?_ ⟨ready, rfl⟩ rest
    · cases waited
    rintro ⟨count, current, below⟩ outcome ⟨ready, same⟩ taken
    obtain ⟨⟨found, later⟩, advanced, rest⟩ := bind_eq_some.mp taken
    have left := releases.next ready advanced
    cases found with
    | false =>
      cases rest
      rfl
    | true =>
      simp only [if_true] at rest
      have unheld := unheld_of_clean (left.2 streams)
      have unasked : current.heap.insertionPage.any (tree.latches later).contains = false := by
        unfold insertionPage
        split
        next => rfl
        next =>
          simp only [Option.any_some, contains_eq_mem, decide_eq_false_iff_not]
          exact fun held => unheld _ held same
      rw [unasked, if_neg Bool.false_ne_true] at rest
      obtain ⟨tuple, -, rest⟩ := bind_eq_some.mp rest
      obtain ⟨⟨result, changed⟩, inserted, rest⟩ := bind_eq_some.mp rest
      cases result with
      | error =>
        cases rest
        rfl
      | ok total =>
        cases rest
        exact ⟨tidy_refresh _ left.1, (InsertExecutor.appended_insertRows inserted).oid.trans same⟩

theorem collect_never_waits {turns : List PageID → TableState → List Tuple → Option Bool}
    (passive : ∀ state rows, turns [] state rows ≠ some true)
    (settles : ∀ oid, (tree.discipline oid).ends = true ∧ (tree.discipline oid).always = true) :
    collectTurns fuel tree table turns ≠ some true := by
  intro waits
  obtain ⟨⟨err, below⟩, begun, rest⟩ := bind_eq_some.mp waits
  dsimp only at rest
  split at rest
  next => cases rest
  next fine =>
    obtain ⟨⟨rows, last⟩, drained, rest⟩ := bind_eq_some.mp rest
    have unheld : tree.latches last = [] := by
      refine eq_nil_iff_forall_not_mem.mpr fun page held => ?_
      obtain ⟨ends, always⟩ := settles page.oid
      have releases := releases ends
      have ready := ((releases.init (clean_fresh tree) begun).1 (Option.not_isSome_iff_eq_none.mp fine)).1
      exact unheld_of_clean ((drain_releases releases ready drained).2 always) page held rfl
    rw [unheld] at rest
    exact passive table rows rest

theorem deleteTurns_passive (state : TableState) (rows : List Tuple) : deleteTurns [] state rows ≠ some true := by
  induction rows generalizing state with
  | nil => simp [deleteTurns]
  | cons tuple rest ih =>
    intro waits
    obtain ⟨indexes, -, turned⟩ := bind_eq_some.mp waits
    rw [contains_nil, if_neg Bool.false_ne_true] at turned
    obtain ⟨⟨answer, heap⟩, -, turned⟩ := bind_eq_some.mp turned
    cases answer with
    | error => cases turned
    | ok => exact ih _ turned

theorem updateTurns_passive (expressions : List (Option PhysicalExpr)) (state : TableState) (rows : List Tuple) :
    updateTurns expressions [] state rows ≠ some true := by
  induction rows generalizing state with
  | nil => simp [updateTurns]
  | cons tuple rest ih =>
    intro waits
    obtain ⟨newValues, -, turned⟩ := bind_eq_some.mp waits
    obtain ⟨rawBuf, -, turned⟩ := bind_eq_some.mp turned
    rw [contains_nil, if_neg Bool.false_ne_true] at turned
    obtain ⟨⟨answer, heap⟩, -, turned⟩ := bind_eq_some.mp turned
    cases answer with
    | error => cases turned
    | ok =>
      obtain ⟨indexes, -, turned⟩ := bind_eq_some.mp turned
      exact ih _ turned

end Root

/-- The rows that are read from the earlier pages find room on the last page, and the tree then gives a row of that
page. -/
def MeetsLastPage (tree : Pipeline Leaf) (table : TableState) : Prop :=
  ∃ count later, InsertExecutor.insertRows table 0 ((tree.delivered table.heap.earlyTuples).map Prod.snd) =
      some (.ok count, later) ∧
    later.heap.pages.length = table.heap.pages.length ∧
    ∃ r ∈ tree.delivered later.heap.tuples, table.heap.insertionPage = some r.1

section Insertion
variable {tree : Pipeline Leaf} {table : TableState} {state : Int64 × TableState × tree.sources.State}
  {outcome : Int64 × TableState × tree.sources.State ⊕ Bool} {done : List (PageID × Tuple)} {ahead : List Tuple}

/-- A page before the last one is being read, and the last one has taken all new rows. -/
structure Early (tree : Pipeline Leaf) (table : TableState) (state : Int64 × TableState × tree.sources.State)
    (done : List (PageID × Tuple)) (ahead : List Tuple) : Prop where
  inserted : InsertExecutor.insertRows table 0 (done.map Prod.snd) = some (.ok state.1, state.2.1)
  pages : state.2.1.heap.pages.length = table.heap.pages.length
  scan : tree.view.ahead state.2.1.heap table.heap.pages.length state.2.2 (ahead ++ state.2.1.heap.lastTuples)
  before : ∀ t ∈ ahead, ∃ p < table.heap.pages.length - 1, t.rid.pageID = ⟨table.heap.oid, p⟩
  past : ∀ r ∈ done, table.heap.insertionPage ≠ some r.1
  delivered : ∀ rows, tree.delivered (table.heap.earlyTuples ++ rows) = done ++ tree.view.emits state.2.2 (ahead ++ rows)

/-- The new rows are on pages that the scan does not come to. -/
structure Grown (tree : Pipeline Leaf) (table : TableState) (state : Int64 × TableState × tree.sources.State)
    (ahead : List Tuple) : Prop where
  appended : table.heap.Appended state.2.1.heap
  pages : table.heap.pages.length < state.2.1.heap.pages.length
  scan : tree.view.ahead state.2.1.heap table.heap.pages.length state.2.2 ahead
  before : ∀ t ∈ ahead, ∃ p < table.heap.pages.length, t.rid.pageID = ⟨table.heap.oid, p⟩

theorem insertionPage_eq {heap later : TableHeap} (oid : later.oid = heap.oid)
    (pages : later.pages.length = heap.pages.length) : later.insertionPage = heap.insertionPage := by
  simp only [insertionPage, ← length_eq_zero_iff, oid, pages]

theorem insertionPage_free {heap : TableHeap} {held : List PageID} {p : Nat} (before : p < heap.pages.length - 1)
    (latched : held = [⟨heap.oid, p⟩]) : ¬ heap.insertionPage.any held.contains = true := by
  rw [insertionPage, if_neg (ne_nil_of_length_pos (by omega)), latched]
  simp
  omega

theorem Grown.turn (formed : table.heap.WellFormed) (grown : Grown tree table state ahead)
    (turned : insertTurn tree state = some outcome) :
    outcome.elim (fun later => ∃ ahead, Grown tree table later ahead) (· = false) := by
  obtain ⟨count, current, below⟩ := state
  obtain ⟨appended, pages, scan, before⟩ := grown
  dsimp only at appended pages scan
  obtain ⟨⟨found, later⟩, advanced, rest⟩ := bind_eq_some.mp turned
  have pulls := scanning (appended.formed formed) tree _ _ _ _ _ scan advanced
  cases found with
  | false =>
    cases rest
    rfl
  | true =>
    obtain ⟨passed, tuple, more, out, rfl, stands, -, latched, -, -⟩ := pulls
    obtain ⟨p, inside, on⟩ := before tuple (by simp)
    rw [on, ← appended.oid] at latched
    simp only [if_true] at rest
    rw [if_neg (insertionPage_free (by omega) latched)] at rest
    obtain ⟨tuple', -, rest⟩ := bind_eq_some.mp rest
    obtain ⟨⟨result, changed⟩, inserted, rest⟩ := bind_eq_some.mp rest
    cases result with
    | error =>
      cases rest
      rfl
    | ok total =>
      cases rest
      have added := InsertExecutor.appended_insertRows inserted
      obtain ⟨early, same, onward⟩ := ahead_refresh added (by omega) le_rfl inside stands latched
      have none (heap : TableHeap) : heap.tuplesUpTo table.heap.pages.length table.heap.pages.length 0 = [] := by
        rw [tuplesUpTo, rowsUpTo, if_pos le_rfl, map_nil]
      rw [none, append_nil] at same onward
      subst same
      exact ⟨more, appended.trans added, pages.trans_le added.grows, onward, fun t member => before t (by simp [member])⟩

theorem Early.meets_iff (early : Early tree table state done ahead) (none : tree.view.emits state.2.2 ahead = []) :
    MeetsLastPage tree table ↔ ∃ r ∈ tree.view.emits state.2.2 (ahead ++ state.2.1.heap.lastTuples),
      table.heap.insertionPage = some r.1 := by
  have tuples : state.2.1.heap.tuples = table.heap.earlyTuples ++ state.2.1.heap.lastTuples := by
    rw [tuples_eq, earlyTuples, early.pages, (InsertExecutor.appended_insertRows early.inserted).tuplesUpTo le_rfl]
    rfl
  have all : tree.delivered table.heap.earlyTuples = done := by simpa [none] using early.delivered []
  rw [MeetsLastPage, all, early.inserted]
  constructor
  · rintro ⟨_, _, ⟨⟩, -, r, member, last⟩
    rw [tuples, early.delivered, mem_append] at member
    exact ⟨r, member.resolve_left fun old => early.past r old last, last⟩
  · rintro ⟨r, member, last⟩
    exact ⟨_, _, rfl, early.pages, r, by rw [tuples, early.delivered]; exact mem_append_right _ member, last⟩

theorem not_meets {count : Int64} {current : TableState} {more : List (PageID × Tuple)}
    (inserted : InsertExecutor.insertRows table 0 (done.map Prod.snd) = some (.ok count, current))
    (delivered : tree.delivered table.heap.earlyTuples = done ++ more)
    (grown : ∀ total later, InsertExecutor.insertRows current count (more.map Prod.snd) = some (.ok total, later) →
      table.heap.pages.length < later.heap.pages.length) : ¬ MeetsLastPage tree table := by
  rintro ⟨total, later, added, same, -⟩
  rw [delivered, map_append, InsertExecutor.insertRows_append, inserted] at added
  exact absurd same (grown total later added).ne'

theorem Early.added {count total : Int64} {current changed : TableState} {below later : tree.sources.State}
    {passed rows : List Tuple} {tuple out : Tuple}
    (early : Early tree table (count, current, below) done (passed ++ tuple :: rows))
    (stands : tree.view.ahead current.heap table.heap.pages.length later (rows ++ current.heap.lastTuples))
    (latched : tree.latches later = [tuple.rid.pageID])
    (first : ∀ rows, tree.view.emits below (passed ++ tuple :: rows) = (tuple.rid.pageID, out) :: tree.view.emits later rows)
    (added : InsertExecutor.insertRows current count [out] = some (.ok total, changed)) :
    (∃ done ahead, Early tree table (total, changed, tree.refresh changed.heap later) done ahead) ∨
      (∃ ahead, Grown tree table (total, changed, tree.refresh changed.heap later) ahead) ∧ ¬ MeetsLastPage tree table := by
  obtain ⟨inserted, pages, -, before, past, delivered⟩ := early
  dsimp only at inserted pages delivered
  obtain ⟨p, inside, on⟩ := before tuple (by simp)
  have appended := InsertExecutor.appended_insertRows inserted
  have grows := InsertExecutor.appended_insertRows added
  have taken : InsertExecutor.insertRows table 0 ((done ++ [(tuple.rid.pageID, out)]).map Prod.snd) =
      some (.ok total, changed) := by
    rw [map_append, InsertExecutor.insertRows_append, inserted]
    exact added
  have delivers (others : List Tuple) : tree.delivered (table.heap.earlyTuples ++ others) =
      done ++ [(tuple.rid.pageID, out)] ++ tree.view.emits later (rows ++ others) := by
    rw [delivered, append_assoc, cons_append, first, append_assoc, singleton_append]
  rw [on, ← appended.oid] at latched
  obtain ⟨early, same, onward⟩ := @ahead_refresh _ _ (table.heap.pages.length - 1) _ _ grows (by omega) (Nat.sub_le ..)
    inside _ _ _ stands latched
  rw [lastTuples, pages, append_left_inj] at same
  subst same
  rcases grows.grows.eq_or_lt with even | longer
  · refine .inl ⟨_, rows, taken, by rw [← even, pages], ?_, fun t member => before t (by simp [member]), ?_, ?_⟩
    · rw [lastTuples, ← even, pages]
      exact onward
    · intro r member
      rcases mem_append.mp member with old | new
      · exact past r old
      · cases mem_singleton.mp new
        rw [on, insertionPage, if_neg (ne_nil_of_length_pos (by omega))]
        simp
        omega
    · intro others
      rw [delivers, emits_refresh]
  · refine .inr ⟨⟨_, appended.trans grows, by rw [← pages]; exact longer, onward, fun t member => ?_⟩, ?_⟩
    · rcases mem_append.mp member with old | new
      · obtain ⟨q, low, on⟩ := before t (by simp [old])
        exact ⟨q, by omega, on⟩
      · obtain ⟨q, -, high, on⟩ := page_of_mem_tuplesUpTo new
        exact ⟨q, high, by rw [on, (appended.trans grows).oid]⟩
    · refine not_meets taken (by simpa using delivers []) fun total last after => ?_
      have more := (InsertExecutor.appended_insertRows after).grows
      omega

theorem Early.turn (formed : table.heap.WellFormed) (early : Early tree table state done ahead)
    (turned : insertTurn tree state = some outcome) :
    outcome.elim (fun later => (∃ done ahead, Early tree table later done ahead) ∨
      (∃ ahead, Grown tree table later ahead) ∧ ¬ MeetsLastPage tree table) (· = true ↔ MeetsLastPage tree table) := by
  obtain ⟨count, current, below⟩ := state
  have ended := early.meets_iff
  have ⟨inserted, pages, scan, before, past, delivered⟩ := early
  dsimp only at inserted pages scan delivered ended
  have appended := InsertExecutor.appended_insertRows inserted
  obtain ⟨⟨found, later⟩, advanced, rest⟩ := bind_eq_some.mp turned
  have pulls := scanning (appended.formed formed) tree _ _ _ _ _ scan advanced
  cases found with
  | false =>
    cases rest
    have none := prefix_nil.mp (pulls.1 ▸ tree.isPrefix_emits below ahead current.heap.lastTuples)
    simp [ended none, pulls.1]
  | true =>
    obtain ⟨passed, tuple, more, out, split, stands, read, latched, unread, first⟩ := pulls
    simp only [if_true] at rest
    have meets (skipped : List Tuple) (same : passed = ahead ++ skipped)
        (lies : current.heap.lastTuples = skipped ++ tuple :: more) : outcome = .inr true ∧ MeetsLastPage tree table := by
      obtain ⟨p, low, high, on⟩ := page_of_mem_tuplesUpTo (lies ▸ mem_append_right skipped mem_cons_self :
        tuple ∈ current.heap.lastTuples)
      have page : current.heap.insertionPage = some tuple.rid.pageID := by
        rw [insertionPage, if_neg (ne_nil_of_length_pos (by omega)), on]
        congr
        omega
      rw [page, Option.any_some, latched, contains_cons, beq_self_eq_true, Bool.true_or, if_pos rfl] at rest
      cases rest
      subst same
      refine ⟨rfl, (ended (prefix_nil.mp (unread ▸ tree.isPrefix_emits below ahead skipped))).mpr
        ⟨(tuple.rid.pageID, out), ?_, ?_⟩⟩
      · rw [split, first]
        exact mem_cons_self
      · rw [← page, insertionPage_eq appended.oid pages]
    rcases append_eq_append_iff.mp split with ⟨skipped, same, lies⟩ | ⟨_ | ⟨_, rows⟩, same, onward⟩
    · obtain ⟨rfl, waits⟩ := meets skipped same lies
      exact iff_of_true rfl waits
    · obtain ⟨rfl, waits⟩ := meets [] (by simp [same]) (by simp [onward])
      exact iff_of_true rfl waits
    · obtain ⟨rfl, rfl⟩ := cons.inj onward
      subst same
      obtain ⟨p, inside, on⟩ := before tuple (by simp)
      rw [if_neg (@insertionPage_free _ _ p (by omega) (by rw [latched, on, appended.oid]))] at rest
      obtain ⟨out', read', rest⟩ := bind_eq_some.mp rest
      cases read.symm.trans read'
      obtain ⟨⟨result, changed⟩, added, rest⟩ := bind_eq_some.mp rest
      cases result with
      | ok total =>
        cases rest
        exact early.added stands latched first added
      | error =>
        cases rest
        refine iff_of_false Bool.false_ne_true (@not_meets _ _ _ _ _ ((tuple.rid.pageID, out) :: tree.view.emits later rows)
          inserted ?_ fun total later after => ?_)
        · simpa [first] using delivered []
        · rw [map_cons, ← singleton_append, InsertExecutor.insertRows_append, added] at after
          cases after

theorem insert_waits_iff {fuel : Nat} {verdict : Bool} (formed : table.heap.WellFormed) (streams : tree.Streams table.heap)
    (returned : (Root.insert fuel tree table).waitsForItself = some verdict) :
    verdict = true ↔ MeetsLastPage tree table := by
  obtain ⟨⟨err, below⟩, started, rest⟩ := bind_eq_some.mp returned
  obtain ⟨fine, here, -, same⟩ := begins streams started
  cases fine
  refine repeatUntil_rule (fun state => (∃ done ahead, Early tree table state done ahead) ∨
      (∃ ahead, Grown tree table state ahead) ∧ ¬ MeetsLastPage tree table)
    (· = true ↔ MeetsLastPage tree table) ?_ (.inl ⟨[], table.heap.earlyTuples, rfl, rfl, ?_, ?_, nofun, ?_⟩) rest
  · rintro state outcome (⟨done, ahead, early⟩ | ⟨⟨ahead, grown⟩, never⟩) turned
    · exact early.turn formed turned
    · have kept := grown.turn formed turned
      cases outcome with
      | inl later => exact .inr ⟨kept, never⟩
      | inr verdict => exact iff_of_false (by rw [kept]; exact Bool.false_ne_true) never
  · rw [← tuples_eq]
    exact here
  · intro t member
    obtain ⟨p, -, inside, on⟩ := page_of_mem_tuplesUpTo member
    exact ⟨p, inside, on⟩
  · intro rows
    rw [nil_append, same]

end Insertion

def passesAll (filters : List PhysicalExpr) (t : Tuple) : Bool :=
  filters.all fun predicate => predicate.test t.values == some true

section Limited
variable {σ : Type} {child : Executor σ} {held : σ → List PageID} {v : View σ} {passes : Tuple → Bool} {heap : TableHeap}

def lastPage (rows : List Tuple) : List PageID := (rows.getLast?.map fun t => t.rid.pageID).toList

structure View.Selects (v : View σ) (held : σ → List PageID) (passes : Tuple → Bool) : Prop where
  emits : ∀ s rows, v.emits s rows = (rows.filter passes).map fun t => (t.rid.pageID, t)
  ended : ∀ s, v.ended s → held s = []

theorem View.Selects.pulls {n : Nat} {s later : σ} {rest : List Tuple} (selects : v.Selects held passes)
    (pulls : Pulls child held v heap n s rest true later) :
    ∃ tuple more, rest.filter passes = tuple :: more.filter passes ∧ v.ahead heap n later more ∧
      child.current later = some tuple ∧ held later = [tuple.rid.pageID] := by
  obtain ⟨passed, tuple, more, out, rfl, ahead', current, latched, none, first⟩ := pulls
  have alone := first []
  simp only [selects.emits, map_eq_nil_iff] at none alone
  rw [filter_append, none, nil_append, filter_cons] at alone
  split at alone
  next kept =>
    cases alone
    exact ⟨tuple, more, by rw [filter_append, none, nil_append, filter_cons, if_pos kept], ahead', current, latched⟩
  next => cases alone

theorem selection_selects (fuel : Nat) (heap : TableHeap) (filters : List PhysicalExpr) :
    (selection fuel (.scan heap) filters).view.Selects (selection fuel (.scan heap) filters).latches (passesAll filters) := by
  induction filters with
  | nil => exact ⟨fun _ rows => congrArg (List.map _) (filter_eq_self.mpr fun _ _ => rfl).symm, fun _ => id⟩
  | cons predicate filters ih =>
    refine ⟨fun s rows => ?_, fun s => ih.ended s.child⟩
    refine (congrArg (List.filter _) (ih.emits s.child rows)).trans ?_
    rw [filter_map, filter_filter]
    rfl

theorem selection_streams (fuel : Nat) (heap : TableHeap) (filters : List PhysicalExpr) :
    (selection fuel (.scan heap) filters).Streams heap := by
  induction filters with
  | nil => rfl
  | cons predicate filters ih => exact ih

/-- The state of a loop that pulls rows through a limit: the copies taken so far, and the rows ahead. -/
def Collected (held : σ → List PageID) (passes : Tuple → Bool) (ahead : σ → List Tuple → Prop) (count : Int)
    (all rows : List Tuple) (e : LimitExecutor σ) : Prop :=
  ∃ rest, ahead e.child rest ∧ e.count = rows.length ∧
    (all.filter passes).map rid = rows.map rid ++ (rest.filter passes).map rid ∧
    held e.child = lastPage rows ∧ (rows = [] ∨ (rows.length : Int) ≤ count)

/-- At its end, the limit has stopped the loop with the latch of the last row, or the scan is over. -/
def Stopped (held : σ → List PageID) (passes : Tuple → Bool) (count : Int) (all rows : List Tuple)
    (last : σ) : Prop :=
  (rows.map rid).IsPrefix ((all.filter passes).map rid) ∧
  (count ≤ rows.length ∧ held last = lastPage rows ∧ (rows = [] ∨ (rows.length : Int) ≤ count) ∨
    (all.filter passes).length = rows.length ∧ (rows.length : Int) < count ∧ held last = [])

theorem limited_drain (scanning : Scanning child held v heap) (selects : v.Selects held passes) {fuel n : Nat}
    {desc : RawTupleDesc} {count : Int} {all rows : List Tuple} {e last : LimitExecutor σ}
    (here : Collected held passes (v.ahead heap n) count all [] e)
    (drained : drain fuel (limitExecutor child count) (fun rows tuple => do return rows ++ [← tuple.deepCopy desc]) [] e =
      some (rows, last)) :
    Stopped held passes count all rows last.child := by
  refine repeatUntil_rule (fun state : List Tuple × LimitExecutor σ =>
      Collected held passes (v.ahead heap n) count all state.1 state.2)
    (fun r : List Tuple × LimitExecutor σ => Stopped held passes count all r.1 r.2.child) ?_ here drained
  rintro ⟨rows, e⟩ outcome ⟨rest, here, counted, taken, latched, few⟩ turned
  obtain ⟨⟨found, later⟩, advanced, read⟩ := bind_eq_some.mp turned
  dsimp only [limitExecutor] at counted advanced
  split at advanced
  next reached =>
    cases advanced
    cases read
    exact ⟨⟨_, taken.symm⟩, .inl ⟨counted ▸ reached, latched, few⟩⟩
  next short =>
    rw [counted] at short
    obtain ⟨⟨found', below⟩, moved, made⟩ := bind_eq_some.mp advanced
    have pulls := scanning _ _ _ _ _ here moved
    cases found' with
    | false =>
      cases made
      cases read
      rw [map_eq_nil_iff.mp ((selects.emits _ _).symm.trans pulls.1), map_nil, append_nil] at taken
      refine ⟨taken ▸ prefix_rfl, .inr ⟨?_, Int.not_le.mp short, selects.ended _ pulls.2⟩⟩
      simpa using congrArg length taken
    | true =>
      obtain ⟨tuple, more, next, ahead', current, latch⟩ := selects.pulls pulls
      simp only [if_true, bind_eq_some] at made
      obtain ⟨tuple', current', made⟩ := made
      cases current.symm.trans current'
      cases made
      simp only [if_true, bind_eq_some] at read
      obtain ⟨_, ⟨⟩, _, ⟨copy, copied, ⟨⟩⟩, ⟨⟩⟩ := read
      refine ⟨more, ahead', ?_, ?_, ?_, .inr ?_⟩
      · simp [counted]
      · simp [taken, next, rid_deepCopy copied]
      · simp [lastPage, latch, rid_deepCopy copied]
      · simp only [length_append, length_singleton]
        omega

end Limited

namespace Root

theorem deleteTurns_waits {held : List PageID} {state : TableState} {rows : List Tuple} {verdict : Bool}
    (formed : state.heap.WellFormed) (live : ∀ t ∈ rows, ∃ row, state.heap.contents t.rid = .live row)
    (distinct : (rows.map rid).Nodup) (blocked : ∃ t ∈ rows, t.rid.pageID ∈ held)
    (returned : deleteTurns held state rows = some verdict) : verdict = true := by
  induction rows generalizing state with
  | nil => simp at blocked
  | cons tuple rest ih =>
    obtain ⟨indexes, -, turned⟩ := bind_eq_some.mp returned
    split at turned
    next =>
      cases turned
      rfl
    next free =>
      obtain ⟨row, here⟩ := live tuple mem_cons_self
      rcases deleteTuple_spec (names_of_live here) formed with
        ⟨_, later, -, deleted, kept, contents, -, -⟩ | ⟨dead, -⟩
      · rw [deleted] at turned
        rw [map_cons, nodup_cons] at distinct
        refine ih kept ?_ distinct.2 ?_ turned
        · intro t member
          obtain ⟨row, found⟩ := live t (mem_cons_of_mem _ member)
          refine ⟨row, ?_⟩
          rw [contents, Function.update_of_ne, found]
          exact fun same => distinct.1 (same ▸ mem_map_of_mem member)
        · obtain ⟨t, member, latched⟩ := blocked
          rcases mem_cons.mp member with rfl | later
          · simp [latched] at free
          · exact ⟨t, later, latched⟩
      · exact absurd here (dead row)

end Root

namespace TableHeap
variable {heap : TableHeap}

theorem rid_tuples (heap : TableHeap) : heap.tuples.map rid = (heap.rowsFrom 0 0).map Prod.fst := by
  simp [tuples, tuplesUpTo, rowsFrom, fromRawTuple]

theorem nodup_tuples (heap : TableHeap) : (heap.tuples.map rid).Nodup := by
  rw [rid_tuples]
  exact nodup_of_ordered heap.pairwise_rowsFrom

theorem live_of_mem_tuples {rid : RecordID} (member : rid ∈ heap.tuples.map Tuple.rid) :
    ∃ row, heap.contents rid = .live row := by
  rw [rid_tuples] at member
  obtain ⟨⟨_, row⟩, found, rfl⟩ := mem_map.mp member
  exact ⟨row, mem_rowsFrom.mp found⟩

end TableHeap

namespace Root
variable {fuel : Nat} {leaf : Leaf} {filters : List PhysicalExpr} {table : TableState} {verdict : Bool}

theorem discipline_selection (fuel : Nat) (leaf : Leaf) (filters : List PhysicalExpr) (oid : ObjectID) :
    (selection fuel leaf filters).discipline oid = (Pipeline.leaf leaf).discipline oid := by
  induction filters with
  | nil => rfl
  | cons predicate filters ih => exact ih

theorem selection_settles (oid : ObjectID) : ((selection fuel leaf filters).discipline oid).ends = true ∧
    ((selection fuel leaf filters).discipline oid).always = true := by
  rw [discipline_selection]
  cases leaf <;> exact ⟨rfl, rfl⟩

theorem deletion_settles {orderBy : Option (List FieldType × List (OrderByClause BoundValueExpr))} {limit : Option Int}
    (drained : (∃ source, leaf = .other source) ∨ orderBy.isSome ∨ limit = none) (oid : ObjectID) :
    ((deletion fuel leaf filters orderBy limit).discipline oid).ends = true ∧
      ((deletion fuel leaf filters orderBy limit).discipline oid).always = true := by
  cases limit with
  | none => cases orderBy <;> exact selection_settles oid
  | some count =>
    cases orderBy with
    | some order =>
      simp only [deletion, discipline, discipline_selection]
      cases leaf <;> exact ⟨rfl, rfl⟩
    | none =>
      simp only [Option.isSome_none, Bool.false_eq_true, reduceCtorEq, or_false] at drained
      obtain ⟨source, rfl⟩ := drained
      simp only [deletion, discipline, discipline_selection]
      exact ⟨rfl, rfl⟩

theorem limited_delete_waits_iff (formed : table.heap.WellFormed) {count : Int}
    (returned : collectTurns fuel (.limit (selection fuel (.scan table.heap) filters) count) table deleteTurns =
      some verdict) :
    verdict = true ↔ 0 < count ∧ count ≤ (table.heap.tuples.filter (passesAll filters)).length := by
  obtain ⟨⟨err, e⟩, begun, rest⟩ := bind_eq_some.mp returned
  obtain ⟨⟨err', below⟩, started, made⟩ := bind_eq_some.mp begun
  obtain ⟨fine, here, unheld, -⟩ := begins (selection_streams fuel table.heap filters) started
  cases fine
  cases made
  obtain ⟨⟨rows, last⟩, drained, turned⟩ := bind_eq_some.mp rest
  obtain ⟨taken, stopped⟩ := limited_drain (scanning formed _) (selection_selects fuel table.heap filters)
    ⟨_, here, rfl, rfl, unheld, .inl rfl⟩ drained
  change deleteTurns ((selection fuel (.scan table.heap) filters).latches last.child) table rows = some verdict at turned
  have few := taken.length_le
  rw [length_map, length_map] at few
  have sublist := taken.sublist.trans (filter_sublist.map rid)
  have quiet (released : (selection fuel (.scan table.heap) filters).latches last.child = []) : verdict ≠ true := by
    rintro rfl
    rw [released] at turned
    exact deleteTurns_passive table rows turned
  rcases stopped with ⟨reached, latched, bound⟩ | ⟨all, short, released⟩
  · cases last? : rows.getLast? with
    | none =>
      rw [getLast?_eq_none_iff] at last?
      subst last?
      refine ⟨fun waits => absurd waits (quiet latched), fun ⟨positive, _⟩ => ?_⟩
      exact absurd reached (by simpa using positive)
    | some t =>
      have member := mem_of_getLast? last?
      have nonempty := length_pos_of_mem member
      refine iff_of_true (deleteTurns_waits formed ?_ (table.heap.nodup_tuples.sublist sublist) ⟨t, member, ?_⟩ turned)
        ⟨?_, by omega⟩
      · exact fun t member => live_of_mem_tuples (sublist.mem (mem_map_of_mem member))
      · rw [latched, lastPage, last?]
        exact mem_singleton_self _
      · rcases bound with none | bound
        · rw [none] at nonempty
          exact absurd nonempty (Nat.lt_irrefl 0)
        · omega
  · exact ⟨fun waits => absurd waits (quiet released), fun ⟨_, enough⟩ => by omega⟩

/-- `SELECT * FROM t` for a table of one column. -/
def selectAll (heap : TableHeap) : Pipeline Leaf := .projection (.leaf (.scan heap)) [.column ⟨0, .int, "a"⟩]

def oneRow : TableState := ⟨ofInts [42], []⟩

theorem delete_waits :
    (delete 2 (deletion 2 (.scan oneRow.heap) [] none (some 1)) oneRow).waitsForItself = some true := by
  decide +kernel

theorem insert_waits : (insert 1 (selectAll oneRow.heap) oneRow).waitsForItself = some true := by
  decide +kernel

end Root
end GoDB.Execution
