import Mathlib.Data.List.Pairwise
import Mathlib.Order.Defs.Unbundled

/-! An ordered set over a strict order, kept as its items in order. Items that
neither precedes the other count as one. -/

namespace GoDB.Lib
open List

universe u

variable {α : Type u} (less : α → α → Bool)

def Same (first second : α) : Prop := less first second = false ∧ less second first = false

instance (first second : α) : Decidable (Same less first second) := inferInstanceAs (Decidable (_ ∧ _))

structure OrderedSet where
  items : List α
  sorted : items.Pairwise fun first second => less first second = true

namespace OrderedSet
variable {less}

def empty : OrderedSet less := ⟨[], .nil⟩

variable (tree : OrderedSet less)

def set [IsTrans α fun first second => less first second = true] (tree : OrderedSet less) (item : α) : OrderedSet less where
  items := tree.items.filter (less · item) ++ item :: tree.items.filter (less item ·)
  sorted := by
    refine pairwise_append.mpr ⟨tree.sorted.filter _, pairwise_cons.mpr ⟨?_, tree.sorted.filter _⟩, ?_⟩
    · intro later member
      exact (mem_filter.mp member).2
    · intro earlier below later member
      have first := (mem_filter.mp below).2
      rcases mem_cons.mp member with rfl | above
      · exact first
      · exact trans_of (fun first second => less first second = true) first (mem_filter.mp above).2

variable (item : α)

def delete : OrderedSet less :=
  ⟨tree.items.filter fun other => less other item || less item other, tree.sorted.filter _⟩

def get : Option α := tree.items.find? fun other => Same less other item

theorem mem_set [IsTrans α fun first second => less first second = true] (tree : OrderedSet less) (item other : α) :
    other ∈ (tree.set item).items ↔ other = item ∨ other ∈ tree.items ∧ ¬ Same less other item := by
  simp only [set, Same, mem_append, mem_cons, mem_filter]
  by_cases present : other ∈ tree.items <;> cases less other item <;> cases less item other <;> simp [present]

theorem mem_delete (other : α) : other ∈ (tree.delete item).items ↔ other ∈ tree.items ∧ ¬ Same less other item := by
  simp only [delete, Same, mem_filter]
  cases less other item <;> cases less item other <;> simp

theorem get_eq_none_iff : tree.get item = none ↔ ∀ other ∈ tree.items, ¬ Same less other item := by
  simp [get]

theorem get_eq_some {tree : OrderedSet less} {item found : α} (gotten : tree.get item = some found) :
    found ∈ tree.items ∧ Same less found item :=
  ⟨mem_of_find?_eq_some gotten, by simpa using find?_some gotten⟩

theorem nodup (irreflexive : ∀ item, less item item = false) : tree.items.Nodup := by
  apply tree.sorted.imp
  intro first second precedes
  rintro rfl
  simp [irreflexive] at precedes

end OrderedSet

variable {test : α → Bool} {items : List α}

theorem split_findIdx (mono : items.Pairwise fun first second => test first = true → test second = true) :
    items.drop (items.findIdx test) = items.filter test ∧
      items.take (items.findIdx test) = items.filter fun item => !test item := by
  induction items with
  | nil => simp
  | cons item rest ih =>
    obtain ⟨first, others⟩ := pairwise_cons.mp mono
    by_cases passed : test item = true
    · have all : ∀ other ∈ rest, test other = true := fun other member => first other member passed
      have none : rest.filter (fun other => !test other) = [] := by
        apply filter_eq_nil_iff.mpr
        intro other member
        simp [all other member]
      simp [findIdx_cons, passed, filter_eq_self.mpr all, none]
    · obtain ⟨after, before⟩ := ih others
      simp only [Bool.not_eq_true] at passed
      simp [findIdx_cons, passed, after, before]

theorem takeWhile_eq_filter (mono : items.Pairwise fun first second => test second = true → test first = true) :
    items.takeWhile test = items.filter test := by
  induction items with
  | nil => rfl
  | cons item rest ih =>
    obtain ⟨first, others⟩ := pairwise_cons.mp mono
    by_cases passed : test item = true
    · simp [passed, ih others]
    · have none : rest.filter test = [] := by
        apply filter_eq_nil_iff.mpr
        intro other member holds
        exact passed (first other member holds)
      simp [passed, none]

end GoDB.Lib
