import GoDB.Planner.ScanRules
import GoDB.Proofs.FilteredPlans

/-! The disjunctive normal form of a predicate: it is true exactly when some term
has all its literals true, NULLs included. -/

namespace GoDB.Planner
open Common Lib List Planner.Expr Bool Terms BinaryLogicType

variable {read : LogicalColumn → Option Value}

theorem eq_of_ifOn {α : Type} {tableAlias : String} {col : LogicalColumn} {offered found : α}
    (here : ifOn tableAlias col offered = some (some found)) : offered = found := by
  obtain ⟨origin, -, same⟩ := Option.map_eq_some_iff.mp here
  split at same
  · exact Option.some.inj same
  · cases same

def IsTruth (val : Value) : Prop := val = .int 1 ∨ val = .int 0 ∨ val = .null .int

theorem isTruth_boolValue (result : Bool) : IsTruth (boolValue result) := by
  cases result
  · exact .inr (.inl rfl)
  · exact .inl rfl

theorem isTruth_logic (logicType : BinaryLogicType) (val1 val2 : Value) : IsTruth (logicType.eval val1 val2) := by
  unfold IsTruth
  cases logicType <;> simp only [eval] <;> split <;> try split
  all_goals simp

theorem isTruth_negate (val : Value) : IsTruth (negate val) := by
  unfold negate
  split
  · exact .inr (.inr rfl)
  · exact isTruth_boolValue _

variable {val1 val2 result : Value}

theorem isTruth_comparison {compType : ComparisonType}
    (compared : compType.eval val1 val2 = some result) : IsTruth result := by
  unfold ComparisonType.eval at compared
  split at compared
  · cases compared
    exact .inr (.inr rfl)
  · split at compared
    · cases compared
      exact isTruth_boolValue _
    · cases compared

variable {val : Value}

theorem isTruth_like {patternVal : Value} (matched : like val patternVal = some result) : IsTruth result := by
  unfold like at matched
  split at matched
  · cases matched
    exact .inr (.inr rfl)
  · cases matched
    exact isTruth_boolValue _
  · cases matched

variable {e : LogicalExpr}

theorem isTruth_of_isCondition (condition : e.isCondition = true)
    (evaluated : e.evalWith read = some val) : IsTruth val := by
  cases e with
  | comparison =>
    simp only [evalWith, bind_eq_some] at evaluated
    obtain ⟨_, -, _, -, compared⟩ := evaluated
    exact isTruth_comparison compared
  | logic =>
    obtain ⟨_, -, _, -, rfl⟩ := evalWith_logic.mp evaluated
    exact isTruth_logic ..
  | negation =>
    obtain ⟨_, -, rfl⟩ := evalWith_negation.mp evaluated
    exact isTruth_negate _
  | nullCheck address child checkType =>
    obtain ⟨inner, -, checked⟩ := bind_eq_some.mp evaluated
    cases checked
    cases checkType <;> exact isTruth_boolValue _
  | like =>
    obtain ⟨inner, -, evaluated⟩ := bind_eq_some.mp evaluated
    split at evaluated
    · cases evaluated
      exact .inr (.inr rfl)
    · obtain ⟨_, -, matched⟩ := bind_eq_some.mp evaluated
      exact isTruth_like matched
  | _ => cases condition

theorem Expr.isCondition_of_isPredicate (predicate : e.isPredicate = true) : e.isCondition = true := by
  induction e with
  | comparison => rfl
  | logic address left right logicType ihLeft ihRight =>
    obtain ⟨predLeft, predRight⟩ := and_eq_true_iff.mp predicate
    exact and_eq_true_iff.mpr ⟨ihLeft predLeft, ihRight predRight⟩
  | negation address child ih => exact ih predicate
  | _ => cases predicate

theorem exprIsTrue_negate (truth : IsTruth val) : exprIsTrue (negate val) = exprIsFalse val := by
  rcases truth with rfl | rfl | rfl <;> decide

theorem exprIsFalse_negate (truth : IsTruth val) : exprIsFalse (negate val) = exprIsTrue val := by
  rcases truth with rfl | rfl | rfl <;> decide

theorem exprIsTrue_or (val1 val2 : Value) : exprIsTrue (or.eval val1 val2) = (exprIsTrue val1 || exprIsTrue val2) := by
  unfold eval
  cases exprIsTrue val1 <;> cases exprIsTrue val2 <;> cases exprIsFalse val1 <;> cases exprIsFalse val2 <;> rfl

theorem exprIsFalse_logic (logicType : BinaryLogicType) (truth1 : IsTruth val1) (truth2 : IsTruth val2) :
    exprIsFalse (logicType.eval val1 val2) =
      match logicType with
      | .and => exprIsFalse val1 || exprIsFalse val2
      | .or => exprIsFalse val1 && exprIsFalse val2 := by
  rcases truth1 with rfl | rfl | rfl <;> rcases truth2 with rfl | rfl | rfl <;> cases logicType <;> decide

def comparisons : LogicalExpr → List LogicalExpr
  | .logic _ left right _ => comparisons left ++ comparisons right
  | .negation _ child => comparisons child
  | .comparison address left right compType => [.comparison address left right compType]
  | .column _ | .constant _ | .nullCheck _ _ _ | .arithmetic _ _ _ | .concat _ _ | .like _ _ _ => []

def leaves : LogicalExpr → List LogicalExpr
  | .logic _ left right _ => leaves left ++ leaves right
  | .negation _ child => leaves child
  | .comparison address left right compType => [.comparison address left right compType]
  | .nullCheck address child checkType => [.nullCheck address child checkType]
  | .like address left right => [.like address left right]
  | .column _ | .constant _ | .arithmetic _ _ _ | .concat _ _ => []

theorem leaves_of_isPredicate (predicate : e.isPredicate = true) : leaves e = comparisons e := by
  induction e with
  | comparison => rfl
  | logic address left right logicType ihLeft ihRight =>
    obtain ⟨predLeft, predRight⟩ := and_eq_true_iff.mp predicate
    rw [leaves, comparisons, ihLeft predLeft, ihRight predRight]
  | negation address child ih => exact ih predicate
  | _ => cases predicate

structure ComparisonOf (e atom : LogicalExpr) : Prop where
  shape : ∃ address left right compType, atom = .comparison address left right compType
  built : atom.isBuilt = true
  typed : e.isTyped LogicalColumn.ctype = true → atom.isTyped LogicalColumn.ctype = true
  columns : ∀ col ∈ atom.getReferencedColumns, col ∈ e.getReferencedColumns

theorem comparisonOf {e atom : LogicalExpr} (predicate : e.isPredicate = true) (member : atom ∈ comparisons e) :
    ComparisonOf e atom := by
  induction e with
  | comparison address left right compType =>
    cases mem_singleton.mp member
    exact ⟨⟨_, _, _, _, rfl⟩, predicate, id, fun _ => id⟩
  | logic address left right logicType ihLeft ihRight =>
    obtain ⟨predLeft, predRight⟩ := and_eq_true_iff.mp predicate
    rcases mem_append.mp member with inside | inside
    · obtain ⟨shape, built, typed, columns⟩ := ihLeft predLeft inside
      refine ⟨shape, built, fun whole => typed (and_eq_true_iff.mp whole).1, fun col used => ?_⟩
      exact mem_append_left _ (columns col used)
    · obtain ⟨shape, built, typed, columns⟩ := ihRight predRight inside
      refine ⟨shape, built, fun whole => typed (and_eq_true_iff.mp whole).2, fun col used => ?_⟩
      exact mem_append_right _ (columns col used)
  | negation address child ih =>
    obtain ⟨shape, built, typed, columns⟩ := ih predicate member
    exact ⟨shape, built, typed, columns⟩
  | _ => cases predicate

structure TermsOver (atoms : List LogicalExpr) (terms : List (List LogicalExpr)) : Prop where
  nonempty : terms ≠ []
  literals : ∀ term ∈ terms, ∀ literal ∈ term, literal ∈ atoms ∨ ∃ address, ∃ atom ∈ atoms, literal = .negation address atom

/-- Each literal can be evaluated, and some term is true exactly when this is. -/
structure TermsMean (read : LogicalColumn → Option Value) (result : Bool) (terms : List (List LogicalExpr)) : Prop where
  defined : ∀ term ∈ terms, ∀ literal ∈ term, (literal.testWith read).isSome = true
  truth : result = true ↔ Terms.Holds (fun literal => literal.testWith read = some true) terms

section
variable {atoms leftAtoms rightAtoms : List LogicalExpr} {left right : List (List LogicalExpr)} {first second : Bool}

theorem termsMean_literal {literal : LogicalExpr} {result : Bool} (test : literal.testWith read = some result) :
    TermsMean read result [[literal]] := by
  refine ⟨?_, ?_⟩
  · simp [test]
  · simp [Terms.Holds, test]

theorem TermsOver.mono {others : List LogicalExpr} {terms : List (List LogicalExpr)} (covered : TermsOver atoms terms)
    (subset : atoms ⊆ others) : TermsOver others terms := by
  refine ⟨covered.nonempty, fun term member literal inside => ?_⟩
  rcases covered.literals term member literal inside with plain | ⟨address, atom, listed, rfl⟩
  · exact .inl (subset plain)
  · exact .inr ⟨address, atom, subset listed, rfl⟩

theorem TermsOver.append (overLeft : TermsOver leftAtoms left) (overRight : TermsOver rightAtoms right) :
    TermsOver (leftAtoms ++ rightAtoms) (left ++ right) :=
  ⟨by simp [overLeft.nonempty], forall_mem_append.mpr
    ⟨(overLeft.mono (subset_append_left ..)).literals, (overRight.mono (subset_append_right ..)).literals⟩⟩

theorem TermsMean.append (meanLeft : TermsMean read first left) (meanRight : TermsMean read second right) :
    TermsMean read (first || second) (left ++ right) := by
  refine ⟨forall_mem_append.mpr ⟨meanLeft.defined, meanRight.defined⟩, ?_⟩
  rw [holds_append, ← meanLeft.truth, ← meanRight.truth, or_eq_true]

theorem andTerms_eq (overLeft : TermsOver leftAtoms left) (overRight : TermsOver rightAtoms right) :
    andTerms left right = cross left right := by
  simp [andTerms, overLeft.nonempty, overRight.nonempty]

theorem forall_mem_cross {P : LogicalExpr → Prop} (inLeft : ∀ term ∈ left, ∀ literal ∈ term, P literal)
    (inRight : ∀ term ∈ right, ∀ literal ∈ term, P literal) :
    ∀ term ∈ cross left right, ∀ literal ∈ term, P literal := by
  intro term member
  obtain ⟨l, memLeft, r, memRight, rfl⟩ := mem_cross.mp member
  exact forall_mem_append.mpr ⟨inLeft l memLeft, inRight r memRight⟩

theorem TermsOver.cross (overLeft : TermsOver leftAtoms left) (overRight : TermsOver rightAtoms right) :
    TermsOver (leftAtoms ++ rightAtoms) (cross left right) :=
  ⟨cross_ne_nil overLeft.nonempty overRight.nonempty, forall_mem_cross
    (overLeft.mono (subset_append_left ..)).literals (overRight.mono (subset_append_right ..)).literals⟩

theorem TermsMean.cross (meanLeft : TermsMean read first left) (meanRight : TermsMean read second right) :
    TermsMean read (first && second) (cross left right) := by
  refine ⟨forall_mem_cross meanLeft.defined meanRight.defined, ?_⟩
  rw [holds_cross, ← meanLeft.truth, ← meanRight.truth, and_eq_true]

end

/-- The terms are made, and some term is true exactly when the expression passes this test. -/
def Converts (e : LogicalExpr) (made : Option (List (List LogicalExpr))) (truth : Value → Bool) : Prop :=
  ∃ terms, made = some terms ∧ TermsOver (leaves e) terms ∧
    ∀ read val, e.evalWith read = some val → TermsMean read (truth val) terms

theorem leaf_spec {call : Nat} (condition : e.isCondition = true) (listed : leaves e = [e])
    (made : toDNFTerms call e = some [[e]]) (madeNegated : negateToDNF call e = some [[.negation call e]]) :
    Converts e (toDNFTerms call e) exprIsTrue ∧ Converts e (negateToDNF call e) exprIsFalse := by
  unfold Converts
  rw [listed]
  refine ⟨⟨_, made, ⟨by simp, by simp⟩, ?_⟩, ⟨_, madeNegated, ⟨by simp, by simp⟩, ?_⟩⟩
  · intro read val evaluated
    exact termsMean_literal (by rw [testWith, evaluated]; rfl)
  · intro read val evaluated
    have truth := isTruth_of_isCondition condition evaluated
    apply termsMean_literal
    rw [testWith, evalWith, evaluated, ← exprIsTrue_negate truth]
    rfl

section
variable {address : Nat} {left right : LogicalExpr} {logicType : BinaryLogicType}
  {first second : Option (List (List LogicalExpr))} {truth : Value → Bool}

theorem Converts.append (convertsLeft : Converts left first truth) (convertsRight : Converts right second truth)
    (splits : ∀ {read val1 val2}, left.evalWith read = some val1 → right.evalWith read = some val2 →
      truth (logicType.eval val1 val2) = (truth val1 || truth val2)) :
    Converts (.logic address left right logicType) (do return (← first) ++ (← second)) truth := by
  obtain ⟨terms, rfl, covered, mean⟩ := convertsLeft
  obtain ⟨others, rfl, covered', mean'⟩ := convertsRight
  refine ⟨_, rfl, covered.append covered', fun read val evaluated => ?_⟩
  obtain ⟨val1, here, val2, there, rfl⟩ := evalWith_logic.mp evaluated
  rw [splits here there]
  exact (mean read val1 here).append (mean' read val2 there)

theorem Converts.cross (convertsLeft : Converts left first truth) (convertsRight : Converts right second truth)
    (splits : ∀ {read val1 val2}, left.evalWith read = some val1 → right.evalWith read = some val2 →
      truth (logicType.eval val1 val2) = (truth val1 && truth val2)) :
    Converts (.logic address left right logicType) (do return andTerms (← first) (← second)) truth := by
  obtain ⟨terms, rfl, covered, mean⟩ := convertsLeft
  obtain ⟨others, rfl, covered', mean'⟩ := convertsRight
  refine ⟨_, congrArg some (andTerms_eq covered covered'), covered.cross covered', fun read val evaluated => ?_⟩
  obtain ⟨val1, here, val2, there, rfl⟩ := evalWith_logic.mp evaluated
  rw [splits here there]
  exact (mean read val1 here).cross (mean' read val2 there)

end

variable (call : Nat)

theorem dnf_spec (condition : e.isCondition = true) :
    Converts e (toDNFTerms call e) exprIsTrue ∧ Converts e (negateToDNF call e) exprIsFalse := by
  induction e with
  | comparison | nullCheck | like => exact leaf_spec rfl rfl rfl rfl
  | negation address child ih =>
    have condChild : child.isCondition = true := condition
    obtain ⟨⟨terms, made, covered, mean⟩, terms', made', covered', mean'⟩ := ih condChild
    refine ⟨⟨terms', made', covered', ?_⟩, ⟨terms, made, covered, ?_⟩⟩
    · intro read val evaluated
      obtain ⟨inner, below, rfl⟩ := evalWith_negation.mp evaluated
      rw [exprIsTrue_negate (isTruth_of_isCondition condChild below)]
      exact mean' read inner below
    · intro read val evaluated
      obtain ⟨inner, below, rfl⟩ := evalWith_negation.mp evaluated
      rw [exprIsFalse_negate (isTruth_of_isCondition condChild below)]
      exact mean read inner below
  | logic address left right logicType ihLeft ihRight =>
    obtain ⟨condLeft, condRight⟩ := and_eq_true_iff.mp condition
    obtain ⟨converts, negated⟩ := ihLeft condLeft
    obtain ⟨converts', negated'⟩ := ihRight condRight
    have falsehood : ∀ {read val1 val2}, left.evalWith read = some val1 → right.evalWith read = some val2 →
        exprIsFalse (logicType.eval val1 val2) = _ := fun first second =>
      exprIsFalse_logic logicType (isTruth_of_isCondition condLeft first) (isTruth_of_isCondition condRight second)
    cases logicType with
    | and => exact ⟨converts.cross converts' fun _ _ => exprIsTrue_and .., negated.append negated' falsehood⟩
    | or => exact ⟨converts.append converts' fun _ _ => exprIsTrue_or .., negated.cross negated' falsehood⟩
  | _ => cases condition

theorem isPredicate_foldl {first : LogicalExpr} (predicate : first.isPredicate = true) {rest : List LogicalExpr}
    (others : ∀ pred ∈ rest, pred.isPredicate = true) : (rest.foldl conjunction first).isPredicate = true := by
  induction rest generalizing first with
  | nil => exact predicate
  | cons next rest ih =>
    obtain ⟨here, later⟩ := forall_mem_cons.mp others
    exact ih (and_eq_true_iff.mpr ⟨predicate, here⟩) later

theorem comparisons_foldl (first : LogicalExpr) (rest : List LogicalExpr) :
    comparisons (rest.foldl conjunction first) = comparisons first ++ rest.flatMap comparisons := by
  induction rest generalizing first with
  | nil => simp
  | cons next rest ih => simp [ih, conjunction, comparisons]

variable {preds : List LogicalExpr}

theorem predicatesToDNFTerms_spec (nonempty : preds ≠ []) (predicate : ∀ pred ∈ preds, pred.isPredicate = true) :
    ∃ terms, predicatesToDNFTerms call preds = some terms ∧ TermsOver (preds.flatMap comparisons) terms ∧
      ∀ read, (∀ pred ∈ preds, (pred.testWith read).isSome = true) →
        TermsMean read (decide (∀ pred ∈ preds, pred.testWith read = some true)) terms := by
  obtain ⟨first, rest, rfl⟩ := exists_cons_of_ne_nil nonempty
  obtain ⟨here, later⟩ := forall_mem_cons.mp predicate
  have merged := isPredicate_foldl here later
  obtain ⟨⟨terms, made, covered, mean⟩, -⟩ := dnf_spec call (isCondition_of_isPredicate merged)
  rw [leaves_of_isPredicate merged, comparisons_foldl] at covered
  refine ⟨terms, made, covered, fun read defined => ?_⟩
  have merged : Conjunction read (first :: rest) ((rest.foldl conjunction first).testWith read) :=
    conjunction_mergePredicates rfl
  obtain ⟨val, evaluated⟩ := Option.isSome_iff_exists.mp (Option.isSome_map.symm.trans (merged.1.mpr defined))
  have test : (rest.foldl conjunction first).testWith read = some (exprIsTrue val) := by rw [testWith, evaluated]; rfl
  have truth : exprIsTrue val = decide (∀ pred ∈ first :: rest, pred.testWith read = some true) := by
    rw [Bool.eq_iff_iff, decide_eq_true_iff, ← merged.2, test, Option.some.injEq]
  rw [← truth]
  exact mean read val evaluated

/-- The normal form of a condition has a term, and on every row that the condition can be
evaluated on it is true exactly when some term has all its members true. -/
theorem toDNFTerms_true_iff (call : Nat) (e : LogicalExpr) (condition : e.isCondition = true) :
    ∃ terms, toDNFTerms call e = some terms ∧ terms ≠ [] ∧
      ∀ (read : LogicalColumn → Option Value) (val : Value), e.evalWith read = some val →
        (∀ term ∈ terms, ∀ member ∈ term, (member.evalWith read).isSome) ∧
        (exprIsTrue val = true ↔
          ∃ term ∈ terms, ∀ member ∈ term, ∃ result, member.evalWith read = some result ∧ exprIsTrue result = true) := by
  obtain ⟨⟨terms, made, covered, mean⟩, -⟩ := dnf_spec call condition
  refine ⟨terms, made, covered.nonempty, fun read val evaluated => ⟨fun term member literal inside => ?_, ?_⟩⟩
  · have defined := (mean read val evaluated).defined term member literal inside
    rwa [testWith, Option.isSome_map] at defined
  · rw [(mean read val evaluated).truth]
    simp [Terms.Holds, testWith]

theorem negated_like_of_null :
    ∃ terms, toDNFTerms 2 (.negation 1 (.like 0 (.constant (.null .string)) (.constant (.null .string)))) = some terms ∧
      ¬ ∃ term ∈ terms, ∀ member ∈ term, ∃ result, member.evalWith (fun _ => none) = some result ∧
        exprIsTrue result = true := by
  obtain ⟨terms, made, -, meaning⟩ :=
    toDNFTerms_true_iff 2 (.negation 1 (.like 0 (.constant (.null .string)) (.constant (.null .string)))) rfl
  refine ⟨terms, made, fun some' => ?_⟩
  cases (meaning (fun _ => none) (.null .int) rfl).2.mpr some'

/-- A comparison, negated any number of times. -/
def isLiteral : LogicalExpr → Bool
  | .comparison _ _ _ _ => true
  | .negation _ child => isLiteral child
  | .column _ | .constant _ | .logic _ _ _ _ | .nullCheck _ _ _ | .arithmetic _ _ _ | .concat _ _ | .like _ _ _ => false

def isConjunction : LogicalExpr → Bool
  | .logic _ left right .and => isConjunction left && isConjunction right
  | e => isLiteral e

theorem terms_of_isLiteral (literal : isLiteral e = true) :
    (∃ term, toDNFTerms call e = some [term]) ∧ ∃ term, negateToDNF call e = some [term] := by
  induction e with
  | comparison => exact ⟨⟨_, rfl⟩, ⟨_, rfl⟩⟩
  | negation address child ih => exact (ih literal).symm
  | _ => cases literal

theorem term_of_isConjunction (plain : isConjunction e = true) : ∃ term, toDNFTerms call e = some [term] := by
  induction e with
  | logic address left right logicType ihLeft ihRight =>
    cases logicType with
    | or => cases plain
    | and =>
      obtain ⟨plainLeft, plainRight⟩ := and_eq_true_iff.mp plain
      obtain ⟨first, made⟩ := ihLeft plainLeft
      obtain ⟨second, made'⟩ := ihRight plainRight
      exact ⟨first ++ second, by rw [toDNFTerms, made, made']; rfl⟩
  | comparison => exact ⟨_, rfl⟩
  | negation address child => exact (terms_of_isLiteral call plain).1
  | _ => cases plain

theorem exists_term (nonempty : preds ≠ [])
    (plain : ∀ pred ∈ preds, isConjunction pred = true) : ∃ term, predicatesToDNFTerms call preds = some [term] := by
  obtain ⟨first, rest, rfl⟩ := exists_cons_of_ne_nil nonempty
  apply term_of_isConjunction
  obtain ⟨here, later⟩ := forall_mem_cons.mp plain
  clear plain nonempty
  induction rest generalizing first with
  | nil => exact here
  | cons next rest ih =>
    obtain ⟨plainNext, later⟩ := forall_mem_cons.mp later
    exact ih (conjunction first next) (and_eq_true_iff.mpr ⟨here, plainNext⟩) later

end GoDB.Planner
