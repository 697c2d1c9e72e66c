import GoDB.Planner.Schema

/-! Names of ASCII letters, with which the planner can be run. -/

namespace GoDB.Planner.Ascii

def lower (s : String) : String := String.ofList (s.toList.map Char.toLower)

/-- Any other character becomes an underscore. -/
def written (s : String) : String :=
  String.ofList <| s.toList.zipIdx.map fun entry =>
    if entry.1.isAlpha || entry.1 = '_' || entry.1 = '@' || entry.2 ≠ 0 && entry.1.isDigit then entry.1 else '_'

theorem lower_equivalence : Equivalence fun s t : String => decide (lower s = lower t) = true := by
  simp only [decide_eq_true_eq]
  exact ⟨fun _ => rfl, Eq.symm, Eq.trans⟩

scoped instance identifiers : Identifiers where
  equalFold s t := lower s = lower t
  equalFold_equivalence := lower_equivalence
  toLower := lower
  toUpper s := String.ofList (s.toList.map Char.toUpper)
  equalString s t := lower s = lower t
  equalString_equivalence := lower_equivalence
  compliantName := written
  isAggregate name := lower name ∈ ["avg", "count", "max", "min", "sum"]

end GoDB.Planner.Ascii
