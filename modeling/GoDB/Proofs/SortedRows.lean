import GoDB.Lib.StableSort
import GoDB.Proofs.AggregateResults
import GoDB.Proofs.NestedLoopJoin

/-! A sort returns the rows of its child in the order of its clauses, and rows that are equal in all
of them as they came. The rows are copied through their bytes on the way. -/

namespace GoDB.Execution
open Common Lib Storage Planner List PhysicalExpr Tuple Value Int64

/-- The place of a value in the order of a clause. The first part counts going up, the second going down. -/
def place : SortDirection → Value → (ℕ ×ₗ ℤ ×ₗ List Byte) ×ₗ (ℕ ×ₗ ℤ ×ₗ List Byte)ᵒᵈ
  | .ascending, val => toLex (val.rank, .toDual (null .int).rank)
  | .descending, val => toLex ((null .int).rank, .toDual val.rank)

variable {orderBy : List (OrderByClause BoundValueExpr)}

def sortKeys (orderBy : List (OrderByClause BoundValueExpr)) (row : Row) : List Value :=
  (orderBy.mapM fun ob => eval ob.expr row).getD []

/-- The place of a row is that of its first key and among equals that of the next. -/
def sortPlaces (orderBy : List (OrderByClause BoundValueExpr)) (row : Row) :
    List ((ℕ ×ₗ ℤ ×ₗ List Byte) ×ₗ (ℕ ×ₗ ℤ ×ₗ List Byte)ᵒᵈ) :=
  zipWith place (orderBy.map (·.direction)) (sortKeys orderBy row)

theorem place_lt_iff (direction : SortDirection) (first second : Value) : place direction first < place direction second ↔
    if direction = .descending then first.compare second = .gt else first.compare second = .lt := by
  rw [compare_eq_cmp, cmp_eq_lt_iff, cmp_eq_gt_iff]
  cases direction with
  | ascending | descending => simp [place, Prod.Lex.toLex_lt_toLex]

theorem place_eq_iff (direction : SortDirection) (first second : Value) : place direction first = place direction second ↔
    first.compare second = .eq := by
  rw [compare_eq_cmp, cmp_eq_eq_iff]
  cases direction <;> simp [place]

theorem less_iff {directions : List SortDirection} {first second : List Value} (length : first.length = directions.length)
    (length' : second.length = directions.length) :
    less directions first second = true ↔ zipWith place directions first < zipWith place directions second := by
  induction directions generalizing first second with
  | nil => simp [less]
  | cons direction directions ih =>
    rcases first with _ | ⟨va, a⟩
    · cases length
    rcases second with _ | ⟨vb, b⟩
    · cases length'
    rw [zipWith_cons_cons, zipWith_cons_cons, cons_lt_cons_iff, place_lt_iff, place_eq_iff,
      ← ih (Nat.succ.inj length) (Nat.succ.inj length')]
    cases direction <;> cases compared : va.compare vb <;> simp [less, compared]

def Sortable (orderBy : List (OrderByClause BoundValueExpr)) (row : Row) : Prop :=
  ∀ ob ∈ orderBy, (eval ob.expr row).isSome

instance (row : Row) : Decidable (Sortable orderBy row) :=
  inferInstanceAs (Decidable (∀ ob ∈ orderBy, (eval ob.expr row).isSome))

theorem Sortable.evaluated {row : Row} (sortable : Sortable orderBy row) :
    (orderBy.mapM fun ob => eval ob.expr row) = some (sortKeys orderBy row) := by
  rw [sortKeys, mapM_eq_some_iff.mpr ⟨sortable, rfl⟩]
  rfl

theorem less_sortKeys {first second : Row} (sortable : Sortable orderBy first) (sortable' : Sortable orderBy second) :
    less (orderBy.map (·.direction)) (sortKeys orderBy first) (sortKeys orderBy second) = true ↔
      sortPlaces orderBy first < sortPlaces orderBy second := by
  apply less_iff
  · simpa using length_mapM sortable.evaluated
  · simpa using length_mapM sortable'.evaluated

theorem strictWeakOrder_less {rows : List Row} (sortable : ∀ row ∈ rows, Sortable orderBy row) :
    IsStrictWeakOrder { row // row ∈ rows } (fun a b =>
      less (orderBy.map (·.direction)) (sortKeys orderBy a.1) (sortKeys orderBy b.1) = true) := by
  have ordered (a b : { row // row ∈ rows }) := less_sortKeys (sortable a.1 a.2) (sortable b.1 b.2)
  simp only [ordered]
  have connected := @isStrictWeakOrder_of_isOrderConnected (List ((ℕ ×ₗ ℤ ×ₗ List Byte) ×ₗ (ℕ ×ₗ ℤ ×ₗ List Byte)ᵒᵈ)) (· < ·)
  exact @Order.Preimage.instIsStrictWeakOrder _ _ _ connected _

theorem sortRows_spec {rows : List Tuple} (sortable : ∀ row ∈ rows, Sortable orderBy row.values) : ∃ sorted,
    sortRows values orderBy rows = some sorted ∧ StableSort (fun row => sortPlaces orderBy row.values) rows sorted := by
  unfold sortRows
  split
  next short => exact ⟨rows, rfl, .of_short short⟩
  next =>
    have keyed := @mapM_map_eq_some _ _ rows _ (fun row => do
      return (← orderBy.mapM fun ob => eval ob.expr (values row), row)) id
      (fun row => (sortKeys orderBy row.values, row)) (fun row member => by simp [(sortable row member).evaluated])
    rw [map_id] at keyed
    have same := @map_mergeSort Tuple (List Value × Tuple)
      (fun a b => sortPlaces orderBy a.values ≤ sortPlaces orderBy b.values)
      (fun a b => !less (orderBy.map (·.direction)) b.1 a.1) (fun row => (sortKeys orderBy row.values, row)) rows ?_
    · refine ⟨_, by rw [keyed]; rfl, ?_⟩
      rw [← same, map_map]
      convert stableSort_mergeSort (fun row => sortPlaces orderBy row.values) rows
      exact map_id _
    · intro a inside b inside'
      apply Bool.eq_iff_iff.mpr
      simp [← not_lt, ← less_sortKeys (sortable b inside') (sortable a inside)]

variable {σ : Type} {child : Executor σ} {schema : List FieldType} {fuel : Nat} {desc : RawTupleDesc}

theorem yields_buffer (buffer : List Tuple) (below : σ) :
    (sortExecutor fuel child schema orderBy).Yields ⟨below, some desc, buffer, -1, true, none⟩ buffer := by
  let at_ (i : Nat) : SortExecutor σ := ⟨below, some desc, buffer, (i : Int) - 1, true, none⟩
  refine (@Cursor.runs_of_places _ _ _ (sortExecutor fuel child schema orderBy) buffer at_ (fun i item here => ?_) ?_
    (fun _ => rfl) 0 (Nat.zero_le _)).yields
  · have bound := (List.getElem?_eq_some_iff.mp here).1
    constructor
    · simp [sortExecutor, loadBuffer, at_, bound]
    · simpa [sortExecutor, at_] using here
  · simp [sortExecutor, loadBuffer, at_]

variable {e : SortExecutor σ} {below last : σ} {tuples : List Tuple}

theorem sorts_copies (yields : child.Yields below tuples) (ends : child.Ends below last)
    (fine : child.error last = none) (enough : tuples.length < fuel) (fits : ∀ t ∈ tuples, t.Fits desc.fields)
    (sortable : ∀ t ∈ tuples, Sortable orderBy (storedRow t.values)) :
    ∃ sorted, loadBuffer fuel child orderBy ⟨below, some desc, [], -1, false, none⟩ =
        some ⟨last, some desc, sorted, -1, true, none⟩ ∧
      StableSort (fun row => sortPlaces orderBy row.1) (tuples.map fun t => (storedRow t.values, t.rid))
        (sorted.map fun t => (t.values, t.rid)) := by
  obtain ⟨rows, copied, same⟩ := @exists_mapM _ _ (·.deepCopy desc) tuples
    (fun t row => storedRow t.values = row.values ∧ t.rid = row.rid) fun t member => by
      obtain ⟨row, made, -, values⟩ := exists_deepCopy (fits t member)
      exact ⟨row, made, values.symm, (rid_deepCopy made).symm⟩
  have rowsOf : (tuples.map fun t => (storedRow t.values, t.rid)) = rows.map fun t => (t.values, t.rid) := by
    rw [← forall₂_eq_eq_eq, forall₂_map_left_iff, forall₂_map_right_iff]
    exact same.imp fun t row equal => Prod.ext equal.1 equal.2
  obtain ⟨sorted, made, stable⟩ := @sortRows_spec orderBy rows fun row member => by
    obtain ⟨t, inside, values, -⟩ := exists_left_of_forall₂ same row member
    exact values ▸ sortable t inside
  refine ⟨sorted, ?_, ?_⟩
  rotate_left
  · rw [rowsOf]
    exact @StableSort.map _ _ _ (fun row => sortPlaces orderBy row.1) _ (fun t : Tuple => (t.values, t.rid)) _ _ stable
  have drained := drain_eq yields ends (fun buffer tuple => do return buffer ++ [← tuple.deepCopy desc]) [] enough
  rw [foldlM_append, copied] at drained
  refine bind_eq_some.mpr ⟨_, drained, ?_⟩
  simp [fine, made]

theorem yields_of_loaded {start loaded : SortExecutor σ} (fresh : start.err = none)
    (loads : loadBuffer fuel child orderBy start = some loaded) (full : loaded.loaded = true) {sorted : List Tuple}
    (yields : (sortExecutor fuel child schema orderBy).Yields loaded sorted) (fine : loaded.err = none) :
    (sortExecutor fuel child schema orderBy).Yields start sorted := by
  refine yields.of_next ?_
  have again : loadBuffer fuel child orderBy loaded = some loaded := by simp [loadBuffer, full]
  simp [sortExecutor, fresh, fine, loads, again]

/-- A sort returns the rows of its child in the one order in which they are sorted by the clauses and rows
that are equal in all of them stay as they came, unless a value is changed by its bytes. -/
theorem sort_executor_stable_iff (began : child.init e.child = some (none, below)) (yields : child.Yields below tuples)
    (ends : child.Ends below last) (fine : child.error last = none) (enough : tuples.length < fuel)
    (fits : ∀ t ∈ tuples, t.Fits schema) (sortable : ∀ t ∈ tuples, Sortable orderBy (storedRow t.values)) :
    IsStrictWeakOrder { row // row ∈ tuples.map fun t => storedRow t.values } (fun a b =>
        less (orderBy.map (·.direction)) (sortKeys orderBy a.1) (sortKeys orderBy b.1) = true) ∧
      (∀ type val, isNull val = false →
        less [.ascending] [.null type] [val] = true ∧ less [.descending] [val] [.null type] = true) ∧
      ((∃ start loaded sorted, (sortExecutor fuel child schema orderBy).init e = some (none, start) ∧
          (sortExecutor fuel child schema orderBy).Yields start sorted ∧
          loadBuffer fuel child orderBy start = some loaded ∧
          (∀ later, (sortExecutor fuel child schema orderBy).Yields { loaded with child := later } sorted) ∧
          StableSort (fun row => sortPlaces orderBy row.1) (tuples.map fun t => (t.values, t.rid))
            (sorted.map fun t => (t.values, t.rid)) ∧
          ∀ others, StableSort (fun row => sortPlaces orderBy row.1) (tuples.map fun t => (t.values, t.rid)) others →
            others = sorted.map fun t => (t.values, t.rid)) ↔
        (newRawTupleDesc schema).isSome ∧ ∀ t ∈ tuples, storedRow t.values = t.values) := by
  refine ⟨?_, ?_, ?_⟩
  · refine strictWeakOrder_less fun row member => ?_
    obtain ⟨t, inside, rfl⟩ := mem_map.mp member
    exact sortable t inside
  · intro type val known
    cases val with
    | null => cases known
    | int | string => simp [less, Value.compare]
  cases described : newRawTupleDesc schema with
  | none => simp [sortExecutor, began, described]
  | some desc =>
    have fields : desc.fields = schema := by
      unfold newRawTupleDesc at described
      split at described <;> cases described
      rfl
    have inits : (sortExecutor fuel child schema orderBy).init e = some (none, ⟨below, some desc, [], -1, false, none⟩) := by
      simp [sortExecutor, began, described]
    obtain ⟨sorted, loads, stable⟩ := sorts_copies yields ends fine enough (fields ▸ fits) sortable
    constructor
    · rintro ⟨start, loaded, others, begun, -, loads', yielded, stable', -⟩
      cases inits.symm.trans begun
      cases loads.symm.trans loads'
      cases (yielded last).unique (yields_buffer sorted last)
      refine ⟨rfl, fun t member => ?_⟩
      have there := (stable'.perm.symm.trans stable.perm).subset (mem_map_of_mem member)
      obtain ⟨t', -, equal⟩ := mem_map.mp there
      have values : storedRow t'.values = t.values := (Prod.ext_iff.mp equal).1
      rw [← values, storedRow_storedRow]
    · rintro ⟨-, kept⟩
      have same : (tuples.map fun t => (storedRow t.values, t.rid)) = tuples.map fun t => (t.values, t.rid) :=
        map_congr_left fun t member => by rw [kept t member]
      rw [same] at stable
      exact ⟨_, _, sorted, inits, yields_of_loaded rfl loads rfl (yields_buffer sorted last) rfl, loads, yields_buffer sorted,
        stable, fun others stable' => stable'.unique stable⟩

def goingDown : List (OrderByClause BoundValueExpr) := [⟨.column ⟨0, .int, "a"⟩, .descending⟩]

def newSortOfValues : SortExecutor ValuesExecutor := ⟨⟨0, []⟩, none, [], -1, false, none⟩

def unsorted : List Row := [[.int 1, .int 10], [.null .int, .int 20], [.int 2, .int 30], [.int 1, .int 40]]

/-- Two rows have the same number, and the row without one comes last. -/
theorem rows_sorted : ∃ start sorted,
    (sortExecutor 5 (constants unsorted [.int, .int]) [.int, .int] goingDown).init newSortOfValues = some (none, start) ∧
      (sortExecutor 5 (constants unsorted [.int, .int]) [.int, .int] goingDown).Yields start sorted ∧
      sorted.map values = [[.int 2, .int 30], [.int 1, .int 10], [.int 1, .int 40], [.null .int, .int 20]] := by
  obtain ⟨start, -, sorted, begun, yields, -, -, -, only⟩ :=
    (@sort_executor_stable_iff goingDown _ (constants unsorted [.int, .int]) [.int, .int] 5 newSortOfValues
      ⟨0, [none, none]⟩ ⟨4, [some (.int 1), some (.int 40)]⟩ (unsorted.map fromValues) rfl
      (.more rfl rfl (.more rfl rfl (.more rfl rfl (.more rfl rfl (.done rfl)))))
      (.more rfl (.more rfl (.more rfl (.more rfl (.done rfl))))) rfl (by decide) (fits_constants (by decide))
      (by decide +kernel)).2.2.mpr (by decide +kernel)
  have expected := only [([.int 2, .int 30], ⟨⟨0, 0⟩, 0⟩), ([.int 1, .int 10], ⟨⟨0, 0⟩, 0⟩), ([.int 1, .int 40], ⟨⟨0, 0⟩, 0⟩),
    ([.null .int, .int 20], ⟨⟨0, 0⟩, 0⟩)] (.of_mem (by decide) (by decide +kernel) (by decide +kernel))
  have rows := congrArg (map Prod.fst) expected
  rw [map_map] at rows
  exact ⟨start, sorted, begun, yields, rows.symm⟩

/-- The smallest number has the bytes of NULL. -/
theorem smallest_int_sorted_as_null : ∃ start sorted,
    (sortExecutor 2 (constants [[.int minValue]] [.int]) [.int] goingDown).init newSortOfValues = some (none, start) ∧
      (sortExecutor 2 (constants [[.int minValue]] [.int]) [.int] goingDown).Yields start sorted ∧
      sorted.map values = [[.null .int]] := by
  obtain ⟨sorted, loads, stable⟩ := @sorts_copies goingDown _ (constants [[.int minValue]] [.int]) 2 .oneInt ⟨0, [none]⟩
    ⟨1, [some (.int minValue)]⟩ [fromValues [.int minValue]] (.more rfl rfl (.done rfl)) (.more rfl (.done rfl)) rfl
    (by decide) (@fits_constants [[.int minValue]] _ (by decide)) (by decide +kernel)
  have only := congrArg (map Prod.fst) (perm_singleton.mp stable.perm)
  rw [map_map] at only
  exact ⟨_, sorted, rfl, yields_of_loaded rfl loads rfl (yields_buffer sorted _) rfl, only.trans (by decide)⟩

end GoDB.Execution
