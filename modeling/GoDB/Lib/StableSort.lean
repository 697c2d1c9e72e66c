import Mathlib.Data.List.Perm.Basic
import Mathlib.Order.Lattice

/-! Sorting by a key, with the items of one key in the order they came in. -/

namespace GoDB.Lib
open List

variable {α κ : Type} [LinearOrder κ] {key : α → κ} {items first second : List α}

structure StableSort (key : α → κ) (items sorted : List α) : Prop where
  perm : sorted.Perm items
  ordered : sorted.Pairwise fun a b => key a ≤ key b
  stable : ∀ k, sorted.filter (key · = k) = items.filter (key · = k)

theorem stableSort_mergeSort (key : α → κ) (items : List α) :
    StableSort key items (items.mergeSort fun a b => key a ≤ key b) := by
  have trans (a b c : α) (before : decide (key a ≤ key b) = true) (after : decide (key b ≤ key c) = true) :
      decide (key a ≤ key c) = true :=
    decide_eq_true (le_trans (of_decide_eq_true before) (of_decide_eq_true after))
  have total (a b : α) : (decide (key a ≤ key b) || decide (key b ≤ key a)) = true := by
    simp [le_total (key a) (key b)]
  refine ⟨mergeSort_perm .., ?_, fun k => ?_⟩
  · exact (pairwise_mergeSort trans total items).imp of_decide_eq_true
  · have equal : (items.filter (key · = k)).Pairwise fun a b => decide (key a ≤ key b) = true := by
      rw [pairwise_iff_forall_sublist]
      intro a b inside
      have here := of_mem_filter (inside.subset mem_cons_self)
      have there := of_mem_filter (inside.subset (mem_cons_of_mem a mem_cons_self))
      simp_all
    have kept := (sublist_mergeSort trans total equal filter_sublist).filter (key · = k)
    simp only [filter_filter, Bool.and_self] at kept
    exact (kept.eq_of_length ((mergeSort_perm ..).filter _).length_eq.symm).symm

theorem StableSort.of_mem {sorted : List α} (perm : sorted.Perm items) (ordered : sorted.Pairwise fun a b => key a ≤ key b)
    (stable : ∀ a ∈ items, sorted.filter (key · = key a) = items.filter (key · = key a)) : StableSort key items sorted := by
  refine ⟨perm, ordered, fun k => ?_⟩
  by_cases some : ∃ a ∈ items, key a = k
  · obtain ⟨a, member, rfl⟩ := some
    exact stable a member
  · have none : items.filter (key · = k) = [] := by simpa [filter_eq_nil_iff] using some
    have perm := perm.filter (key · = k)
    rw [none] at perm ⊢
    exact perm.eq_nil

theorem StableSort.of_short (short : items.length ≤ 1) : StableSort key items items := by
  refine ⟨.refl _, ?_, fun _ => rfl⟩
  rcases items with _ | ⟨a, _ | _⟩
  · exact .nil
  · exact pairwise_singleton ..
  · simp at short

theorem StableSort.map {β : Type} (f : β → α) {items sorted : List β} (stable : StableSort (fun b => key (f b)) items sorted) :
    StableSort key (items.map f) (sorted.map f) := by
  refine ⟨stable.perm.map f, List.pairwise_map.mpr stable.ordered, fun k => ?_⟩
  rw [filter_map, filter_map]
  exact congrArg (List.map f) (stable.stable k)

theorem head_le {a b : α} {rest : List α} (ordered : (a :: rest).Pairwise fun a b => key a ≤ key b)
    (member : b ∈ a :: rest) : key a ≤ key b := by
  rcases List.mem_cons.mp member with rfl | inside
  · exact le_refl _
  · exact rel_of_pairwise_cons ordered inside

theorem eq_of_ordered (perm : first.Perm second) (ordered : first.Pairwise fun a b => key a ≤ key b)
    (ordered' : second.Pairwise fun a b => key a ≤ key b)
    (same : ∀ k, first.filter (key · = k) = second.filter (key · = k)) : first = second := by
  induction first generalizing second with
  | nil => exact perm.nil_eq
  | cons a rest ih =>
    cases second with
    | nil => exact perm.eq_nil
    | cons b others =>
      have equal : key b = key a :=
        le_antisymm (head_le ordered' (perm.mem_iff.mp mem_cons_self)) (head_le ordered (perm.mem_iff.mpr mem_cons_self))
      have heads := same (key a)
      simp only [filter_cons, equal, decide_true, if_true, List.cons.injEq] at heads
      obtain ⟨rfl, -⟩ := heads
      refine congrArg (a :: ·) (ih perm.cons_inv ordered.of_cons ordered'.of_cons fun k => ?_)
      have tails := same k
      simp only [filter_cons] at tails
      split at tails
      · exact (List.cons.inj tails).2
      · exact tails

theorem StableSort.unique (sorted : StableSort key items first) (sorted' : StableSort key items second) : first = second :=
  eq_of_ordered (sorted.perm.trans sorted'.perm.symm) sorted.ordered sorted'.ordered fun k =>
    (sorted.stable k).trans (sorted'.stable k).symm

end GoDB.Lib
