import GoDB.Storage.Tuple

/-! Search keys. A key is the bytes of its columns; the descriptor that reads
them is the one of the index it belongs to. -/

namespace GoDB.Indexing
open Common Lib Storage List

abbrev Key := RawTuple

def compareValues : List Value → List Value → Ordering
  | [], [] => .eq
  | [], _ :: _ => .lt
  | _ :: _, [] => .gt
  | v1 :: rest1, v2 :: rest2 =>
    match v1.compare v2 with
    | .eq => compareValues rest1 rest2
    | cmp => cmp

namespace Key

/-- Both keys are read with one descriptor, as the source asserts, so neither
runs out of columns before the other. -/
def compare (schema : RawTupleDesc) (key other : Key) : Ordering :=
  compareValues (schema.values key) (schema.values other)

def rank (schema : RawTupleDesc) (key : Key) : List (ℕ ×ₗ ℤ ×ₗ List Byte) := (schema.values key).map Value.rank

end Key

theorem compareValues_eq_cmp (first second : List Value) :
    compareValues first second = cmp (first.map Value.rank) (second.map Value.rank) := by
  induction first generalizing second with
  | nil => cases second <;> simp [compareValues, cmp, cmpUsing]
  | cons v1 rest1 ih =>
    cases second with
    | nil => simp [compareValues, cmp, cmpUsing]
    | cons v2 rest2 =>
      rw [compareValues, Value.compare_eq_cmp, ih]
      rcases lt_trichotomy v1.rank v2.rank with less | same | more
      · have lists : v1.rank :: rest1.map Value.rank < v2.rank :: rest2.map Value.rank :=
          List.cons_lt_cons_iff.mpr (.inl less)
        rw [map_cons, map_cons, (cmp_eq_lt_iff ..).mpr less, (cmp_eq_lt_iff ..).mpr lists]
      · have mono : StrictMono (List.cons v2.rank) := fun _ _ less => List.cons_lt_cons_iff.mpr (.inr ⟨rfl, less⟩)
        rw [map_cons, map_cons, same, cmp_self_eq_eq]
        exact (mono.cmp_map_eq _ _).symm
      · have lists : v2.rank :: rest2.map Value.rank < v1.rank :: rest1.map Value.rank :=
          List.cons_lt_cons_iff.mpr (.inl more)
        rw [map_cons, map_cons, (cmp_eq_gt_iff ..).mpr more, (cmp_eq_gt_iff ..).mpr lists]

theorem Key.compare_eq_cmp (schema : RawTupleDesc) (key other : Key) :
    key.compare schema other = cmp (key.rank schema) (other.rank schema) :=
  compareValues_eq_cmp ..

end GoDB.Indexing
