import Mathlib.Data.List.Basic

/-! Disjunctions of conjunctions, kept as lists of lists of literals. -/

namespace GoDB.Lib.Terms
open List

universe u

variable {α : Type u} {holds : α → Prop} {left right : List (List α)}

def Holds (holds : α → Prop) (terms : List (List α)) : Prop :=
  ∃ term ∈ terms, ∀ literal ∈ term, holds literal

def cross (left right : List (List α)) : List (List α) := left.flatMap fun l => right.map fun r => l ++ r

theorem holds_singleton (literals : List α) : Holds holds [literals] ↔ ∀ literal ∈ literals, holds literal := by
  simp [Holds]

theorem holds_append : Holds holds (left ++ right) ↔ Holds holds left ∨ Holds holds right := by
  constructor
  · intro ⟨term, member, all⟩
    rcases List.mem_append.mp member with inLeft | inRight
    · exact .inl ⟨term, inLeft, all⟩
    · exact .inr ⟨term, inRight, all⟩
  · rintro (⟨term, member, all⟩ | ⟨term, member, all⟩)
    · exact ⟨term, mem_append_left _ member, all⟩
    · exact ⟨term, mem_append_right _ member, all⟩

theorem mem_cross {term : List α} : term ∈ cross left right ↔ ∃ l ∈ left, ∃ r ∈ right, l ++ r = term := by
  simp [cross, mem_flatMap]

theorem holds_cross : Holds holds (cross left right) ↔ Holds holds left ∧ Holds holds right := by
  constructor
  · intro ⟨term, member, all⟩
    obtain ⟨l, inLeft, r, inRight, rfl⟩ := mem_cross.mp member
    refine ⟨⟨l, inLeft, ?_⟩, ⟨r, inRight, ?_⟩⟩
    · exact fun literal inside => all literal (mem_append_left _ inside)
    · exact fun literal inside => all literal (mem_append_right _ inside)
  · intro ⟨⟨l, inLeft, allLeft⟩, r, inRight, allRight⟩
    refine ⟨l ++ r, mem_cross.mpr ⟨l, inLeft, r, inRight, rfl⟩, ?_⟩
    intro literal inside
    rcases List.mem_append.mp inside with inside | inside
    · exact allLeft literal inside
    · exact allRight literal inside

theorem cross_ne_nil (left_ne : left ≠ []) (right_ne : right ≠ []) : cross left right ≠ [] := by
  obtain ⟨l, inLeft⟩ := exists_mem_of_ne_nil left left_ne
  obtain ⟨r, inRight⟩ := exists_mem_of_ne_nil right right_ne
  exact ne_nil_of_mem (mem_cross.mpr ⟨l, inLeft, r, inRight, rfl⟩)

end GoDB.Lib.Terms
