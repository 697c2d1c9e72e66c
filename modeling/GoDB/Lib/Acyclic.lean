import Mathlib.Data.Finset.Card
import Mathlib.Logic.Relation

/-! How far a relation without cycles may grow: by edges into a node that leads
nowhere, or by edges out of a node that does not lead back to itself. -/

namespace GoDB.Lib
universe u

variable {α : Type u} {edge later : α → α → Prop} {node : α}

def Acyclic (edge : α → α → Prop) : Prop := ∀ node, ¬ Relation.TransGen edge node node

namespace Acyclic

theorem of_empty (empty : ∀ source target, ¬ edge source target) : Acyclic edge := by
  intro node cycle
  cases cycle with
  | single step | tail _ step => exact empty _ _ step

theorem mono (acyclic : Acyclic edge) (fewer : ∀ source target, later source target → edge source target) : Acyclic later :=
  fun node cycle => acyclic node (Relation.TransGen.mono fewer _ _ cycle)

theorem add_sink (acyclic : Acyclic edge) (grown : ∀ source target, later source target → edge source target ∨ target = node)
    (sink : ∀ target, ¬ later node target) : Acyclic later := by
  have paths : ∀ first last, Relation.TransGen later first last → Relation.TransGen edge first last ∨ last = node := by
    intro first last path
    induction path with
    | single step => exact (grown _ _ step).imp_left .single
    | tail _ step ih =>
      rcases grown _ _ step with old | new
      · rcases ih with path | rfl
        · exact .inl (path.tail old)
        · exact absurd step (sink _)
      · exact .inr new
  intro start cycle
  rcases paths start start cycle with old | rfl
  · exact acyclic start old
  · obtain ⟨next, step, -⟩ := Relation.TransGen.head'_iff.mp cycle
    exact sink next step

theorem add_source (acyclic : Acyclic edge)
    (grown : ∀ source target, later source target → edge source target ∨ source = node)
    (clear : ¬ Relation.TransGen later node node) : Acyclic later := by
  have paths : ∀ first last, Relation.TransGen later first last →
      Relation.TransGen edge first last ∨ Relation.ReflTransGen later first node ∧ Relation.TransGen later node last := by
    intro first last path
    induction path with
    | single step =>
      rcases grown _ _ step with old | rfl
      · exact .inl (.single old)
      · exact .inr ⟨.refl, .single step⟩
    | tail earlier step ih =>
      rcases grown _ _ step with old | rfl
      · rcases ih with path | ⟨into, out⟩
        · exact .inl (path.tail old)
        · exact .inr ⟨into, out.tail step⟩
      · exact .inr ⟨earlier.to_reflTransGen, .single step⟩
  intro start cycle
  rcases paths start start cycle with old | ⟨into, out⟩
  · exact acyclic start old
  · exact clear (out.trans_left into)

theorem exists_end (acyclic : Acyclic edge) {targets : Finset α}
    (inside : ∀ source target, edge source target → target ∈ targets)
    (start : α) : ∃ last, Relation.ReflTransGen edge start last ∧ ∀ next, ¬ edge last next := by
  classical
  -- The induction is on the number of nodes that can be reached; a step leaves its target behind.
  induction number : (targets.filter (Relation.TransGen edge start)).card using Nat.strong_induction_on generalizing start with
  | _ number ih =>
    subst number
    by_cases stops : ∀ next, ¬ edge start next
    · exact ⟨start, .refl, stops⟩
    · obtain ⟨next, step⟩ := not_forall_not.mp stops
      have fewer : targets.filter (Relation.TransGen edge next) ⊂ targets.filter (Relation.TransGen edge start) := by
        refine (Finset.ssubset_iff_of_subset fun node member => ?_).mpr ⟨next, ?_, ?_⟩
        · obtain ⟨listed, path⟩ := Finset.mem_filter.mp member
          exact Finset.mem_filter.mpr ⟨listed, path.head step⟩
        · exact Finset.mem_filter.mpr ⟨inside _ _ step, .single step⟩
        · exact fun member => acyclic next (Finset.mem_filter.mp member).2
      obtain ⟨last, path, ends⟩ := ih _ (Finset.card_lt_card fewer) next rfl
      exact ⟨last, path.head step, ends⟩

end Acyclic
end GoDB.Lib
