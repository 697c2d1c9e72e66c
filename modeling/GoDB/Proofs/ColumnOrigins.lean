import GoDB.Proofs.PredicateTerms

/-! Columns with an origin, for which the search for an index returns. -/

namespace GoDB.Planner
open Common Lib Option

def Originated (e : LogicalExpr) : Prop := ∀ col ∈ e.getReferencedColumns, col.origin.isSome = true

variable {tableAlias : String} {e : LogicalExpr}

theorem isSome_ifOn {α : Type} {col : LogicalColumn} {found : α} :
    (ifOn tableAlias col found).isSome = col.origin.isSome := isSome_map

theorem isSome_isEqualityScan (originated : Originated e) : (isEqualityScan tableAlias e).isSome = true := by
  unfold isEqualityScan
  split
  case h_3 => rfl
  all_goals exact isSome_ifOn.trans (originated _ (by simp [Expr.getReferencedColumns]))

theorem isSome_isRangeScan (originated : Originated e) : (isRangeScan tableAlias e).isSome = true := by
  induction e with
  | negation address child ih => exact isSome_map.trans (ih originated)
  | comparison address left right compType =>
    unfold isRangeScan
    split
    case h_3 same => cases same
    case h_4 => rfl
    all_goals
      rename_i same
      cases same
      exact isSome_ifOn.trans (originated _ (by simp [Expr.getReferencedColumns]))
  | _ => rfl

variable {predicates : List LogicalExpr}

section
variable (originated : ∀ pred ∈ predicates, Originated pred)

include originated

theorem isSome_equalityOn (colName : String) : (equalityOn predicates tableAlias colName).isSome = true := by
  apply isSome_findSomeM?
  intro pred inside
  obtain ⟨found, made⟩ := isSome_iff_exists.mp (@isSome_isEqualityScan tableAlias _ (originated pred inside))
  rw [made]
  cases found <;> rfl

theorem isSome_rangeOn (colName : String) : (rangeOn predicates tableAlias colName).isSome = true := by
  apply isSome_findSomeM?
  intro pred inside
  obtain ⟨found, made⟩ := isSome_iff_exists.mp (@isSome_isRangeScan tableAlias _ (originated pred inside))
  rw [made]
  cases found <;> rfl

theorem isSome_matchColumns (keySchema : List String) (result : IndexMatchResult) :
    (matchColumns predicates tableAlias keySchema result).isSome = true := by
  induction keySchema generalizing result with
  | nil => rfl
  | cons colName rest ih =>
    obtain ⟨equality, made⟩ := isSome_iff_exists.mp (@isSome_equalityOn tableAlias _ originated colName)
    obtain ⟨range, made'⟩ := isSome_iff_exists.mp (@isSome_rangeOn tableAlias _ originated colName)
    rw [matchColumns, made, bind_eq_bind, bind_some]
    cases equality with
    | some found => exact ih _
    | none =>
      rw [made']
      cases range <;> rfl

end

theorem originated_andTerms {left right : List (List LogicalExpr)}
    (inLeft : ∀ term ∈ left, ∀ literal ∈ term, Originated literal)
    (inRight : ∀ term ∈ right, ∀ literal ∈ term, Originated literal) :
    ∀ term ∈ andTerms left right, ∀ literal ∈ term, Originated literal := by
  unfold andTerms
  split
  · exact inRight
  · split
    · exact inLeft
    · exact forall_mem_cross inLeft inRight

theorem originated_terms (call : Nat) (originated : Originated e) :
    (∀ terms, toDNFTerms call e = some terms → ∀ term ∈ terms, ∀ literal ∈ term, Originated literal) ∧
      ∀ terms, negateToDNF call e = some terms → ∀ term ∈ terms, ∀ literal ∈ term, Originated literal := by
  induction e with
  | logic address left right logicType ihLeft ihRight =>
    obtain ⟨originatedLeft, originatedRight⟩ := List.forall_mem_append.mp originated
    obtain ⟨plainLeft, negatedLeft⟩ := ihLeft originatedLeft
    obtain ⟨plainRight, negatedRight⟩ := ihRight originatedRight
    cases logicType with
    | or =>
      simp only [toDNFTerms, negateToDNF, bind_eq_some, pure_def, some.injEq]
      constructor
      · rintro terms ⟨first, madeLeft, second, madeRight, rfl⟩
        exact List.forall_mem_append.mpr ⟨plainLeft first madeLeft, plainRight second madeRight⟩
      · rintro terms ⟨first, madeLeft, second, madeRight, rfl⟩
        exact originated_andTerms (negatedLeft first madeLeft) (negatedRight second madeRight)
    | and =>
      simp only [toDNFTerms, negateToDNF, bind_eq_some, pure_def, some.injEq]
      constructor
      · rintro terms ⟨first, madeLeft, second, madeRight, rfl⟩
        exact originated_andTerms (plainLeft first madeLeft) (plainRight second madeRight)
      · rintro terms ⟨first, madeLeft, second, madeRight, rfl⟩
        exact List.forall_mem_append.mpr ⟨negatedLeft first madeLeft, negatedRight second madeRight⟩
  | negation address child ih => exact (ih originated).symm
  | comparison | nullCheck | like =>
    simp only [toDNFTerms, negateToDNF, some.injEq, forall_eq', List.forall_mem_singleton]
    exact ⟨originated, originated⟩
  | _ =>
    simp only [toDNFTerms, negateToDNF, some.injEq, forall_eq', List.forall_mem_singleton, reduceCtorEq,
      false_imp_iff, implies_true, true_and]
    exact originated

theorem originated_foldl {first : LogicalExpr} (originated : Originated first) {rest : List LogicalExpr}
    (others : ∀ pred ∈ rest, Originated pred) : Originated (rest.foldl conjunction first) := by
  induction rest generalizing first with
  | nil => exact originated
  | cons next rest ih =>
    obtain ⟨here, later⟩ := List.forall_mem_cons.mp others
    exact ih (List.forall_mem_append.mpr ⟨originated, here⟩) later

theorem isSome_analyzeIndex (originated : ∀ pred ∈ predicates, Originated pred) (idx : Catalog.Index) :
    (analyzeIndex idx predicates tableAlias).isSome = (predicatesToDNFTerms 0 predicates).isSome := by
  unfold analyzeIndex
  cases converted : predicatesToDNFTerms 0 predicates with
  | none => rfl
  | some terms =>
    have literals : ∀ term ∈ terms, ∀ literal ∈ term, Originated literal := by
      cases predicates with
      | nil =>
        cases converted
        simp
      | cons first rest =>
        obtain ⟨here, others⟩ := List.forall_mem_cons.mp originated
        exact (originated_terms 0 (originated_foldl here others)).1 terms converted
    have analyzed : ∀ term ∈ terms, (analyzeIndexTerm idx term tableAlias).isSome = true := by
      intro term inside
      obtain ⟨result, made⟩ := isSome_iff_exists.mp (@isSome_matchColumns tableAlias _ (literals term inside) idx.keySchema {})
      rw [analyzeIndexTerm, made]
      rfl
    simp [mapM_eq_some_iff.mpr ⟨analyzed, rfl⟩]

end GoDB.Planner
