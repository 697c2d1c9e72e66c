import Mathlib.Data.List.Induction
import Mathlib.Data.List.Lex
import Mathlib.Order.Cover

/-! Neighbours in the lexicographic order of the lists up to a given length, over
any alphabet with a least and a greatest letter. A list comes before its
extensions, so its neighbours are found at its end. -/

namespace GoDB.Lib.BoundedLex
open List

universe u

theorem exists_append_replicate {β : Type u} {greatest : β} (s : List β) (other : s ≠ replicate s.length greatest) :
    ∃ front letter count, letter ≠ greatest ∧ s = front ++ letter :: replicate count greatest := by
  induction s using reverseRecOn with
  | nil => exact absurd rfl other
  | append_singleton front last ih =>
    by_cases same : last = greatest
    · subst same
      have before : front ≠ replicate front.length last := by
        intro all
        apply other
        rw [length_append, length_singleton, replicate_succ', ← all]
      obtain ⟨start, letter, count, differs, rfl⟩ := ih before
      refine ⟨start, letter, count + 1, differs, ?_⟩
      rw [append_assoc, cons_append, replicate_succ']
    · exact ⟨front, last, 0, same, rfl⟩

variable {α : Type u} [LinearOrder α]

theorem nil_le (s : List α) : [] ≤ s := not_lt.mp (not_lt_nil s)

theorem lt_append_cons (front : List α) (letter : α) (rest : List α) : front < front ++ letter :: rest := by
  induction front with
  | nil => exact nil_lt_cons ..
  | cons head front ih => exact cons_lt_cons_iff.mpr (.inr ⟨rfl, ih⟩)

theorem append_least_le {least : α} (bottom : ∀ letter, least ≤ letter) : ∀ {s t : List α}, s < t → s ++ [least] ≤ t
  | _, [], below => absurd below (not_lt_nil _)
  | [], letter :: rest, _ => by
    rcases (bottom letter).lt_or_eq with less | same
    · exact (cons_lt_cons_iff.mpr (.inl less)).le
    · subst same
      exact cons_le_cons least (nil_le rest)
  | head :: s, letter :: rest, below => by
    rcases cons_lt_cons_iff.mp below with less | ⟨rfl, later⟩
    · exact (cons_lt_cons_iff.mpr (.inl less)).le
    · exact cons_le_cons head (append_least_le bottom later)

theorem le_of_lt_append_least {least : α} (bottom : ∀ letter, least ≤ letter) {s t : List α}
    (below : t < s ++ [least]) : t ≤ s :=
  le_of_not_gt fun above => absurd below (not_lt.mpr (append_least_le bottom above))

section Greatest
variable {greatest : α}

theorem le_replicate (top : ∀ letter, letter ≤ greatest) :
    ∀ {count : Nat} {t : List α}, t.length ≤ count → t ≤ replicate count greatest
  | _, [], _ => nil_le _
  | count + 1, letter :: rest, short => by
    rcases (top letter).lt_or_eq with less | same
    · exact (cons_lt_cons_iff.mpr (.inl less)).le
    · rw [same]
      exact cons_le_cons greatest (le_replicate top (Nat.le_of_succ_le_succ short))

theorem append_next_le (top : ∀ letter, letter ≤ greatest) {letter next : α} (covers : letter ⋖ next)
    {count : Nat} : ∀ {front t : List α}, t.length ≤ front.length + 1 + count →
      front ++ letter :: replicate count greatest < t → front ++ [next] ≤ t
  | _, [], _, below => absurd below (not_lt_nil _)
  | [], other :: rest, short, below => by
    rcases cons_lt_cons_iff.mp below with less | ⟨_, later⟩
    · rcases (covers.ge_of_gt less).lt_or_eq with beyond | same
      · exact (cons_lt_cons_iff.mpr (.inl beyond)).le
      · subst same
        exact cons_le_cons next (nil_le rest)
    · have fits : rest.length ≤ count := by
        rw [length_cons, length_nil] at short
        omega
      exact absurd later (not_lt.mpr (le_replicate top fits))
  | head :: front, other :: rest, short, below => by
    rcases cons_lt_cons_iff.mp below with less | ⟨rfl, later⟩
    · exact (cons_lt_cons_iff.mpr (.inl less)).le
    · have fits : rest.length ≤ front.length + 1 + count := by
        rw [length_cons, length_cons] at short
        omega
      exact cons_le_cons head (append_next_le top covers fits later)

theorem le_append_replicate (top : ∀ letter, letter ≤ greatest) {letter next : α} (covers : letter ⋖ next)
    {count : Nat} {front t : List α} (short : t.length ≤ front.length + 1 + count) (below : t < front ++ [next]) :
    t ≤ front ++ letter :: replicate count greatest :=
  le_of_not_gt fun above => absurd below (not_lt.mpr (append_next_le top covers short above))

end Greatest
end GoDB.Lib.BoundedLex
