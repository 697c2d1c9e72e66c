import GoDB.Execution.Operators
import Mathlib.Algebra.BigOperators.Group.List.Basic
import Mathlib.Data.List.Induction

/-! What an aggregate has come to after some arguments, against the aggregate of
these arguments as SQL has it: NULLs do not count, and without an argument there is
no result but that of COUNT. -/

namespace GoDB.Execution
open Common Planner List Value

def known (args : List Value) : List Value := args.filter (!·.isNull)

def asInt : Value → Int64
  | .int v => v
  | .string _ | .null _ => 0

def IsAggregate (type : AggregatorType) (args : List Value) (result : Value) : Prop :=
  match type with
  | .count => result = .int (Int64.ofNat (known args).length)
  | .sum => result = if known args = [] then .null .int else .int ((known args).map asInt).sum
  | .min => if known args = [] then result = .null .int
    else result ∈ known args ∧ ∀ v ∈ known args, result.compare v ≠ .gt
  | .max => if known args = [] then result = .null .int
    else result ∈ known args ∧ ∀ v ∈ known args, result.compare v ≠ .lt

def IsState (type : AggregatorType) (args : List Value) : Option Value → Prop
  | none => known args = []
  | some result => known args ≠ [] ∧ IsAggregate type args result

section Known
variable {args : List Value}

theorem known_concat_null {v : Value} (null : v.isNull = true) : known (args ++ [v]) = known args := by
  simp [known, null]

theorem known_concat {v : Value} (some : v.isNull = false) : known (args ++ [v]) = known args ++ [v] := by
  simp [known, some]

variable {type : AggregatorType} {others : List Value}

theorem isAggregate_congr (same : known args = known others)
    (result : Value) : IsAggregate type args result ↔ IsAggregate type others result := by
  cases type <;> simp only [IsAggregate, same]

theorem isState_congr (same : known args = known others)
    (state : Option Value) : IsState type args state ↔ IsState type others state := by
  cases state with
  | none => simp only [IsState, same]
  | some result => simp only [IsState, same, isAggregate_congr same]

end Known

section Order

theorem compare_ne_gt {first second : Value} : first.compare second ≠ .gt ↔ first.rank ≤ second.rank := by
  rw [compare_eq_cmp, ne_eq, cmp_eq_gt_iff, not_lt]

theorem compare_ne_lt {first second : Value} : first.compare second ≠ .lt ↔ second.rank ≤ first.rank := by
  rw [compare_eq_cmp, ne_eq, cmp_eq_lt_iff, not_lt]

theorem least_concat {α β : Type} [LinearOrder β] (f : α → β) {items : List α} {least : α} (member : least ∈ items)
    (below : ∀ item ∈ items, f least ≤ f item) (v : α) {less : Prop} [Decidable less] (decides : less ↔ f v < f least) :
    (if less then v else least) ∈ items ++ [v] ∧ ∀ item ∈ items ++ [v], f (if less then v else least) ≤ f item := by
  simp only [mem_append, mem_singleton]
  split
  · next taken =>
    refine ⟨.inr rfl, ?_⟩
    rintro item (earlier | rfl)
    · exact (decides.mp taken).le.trans (below item earlier)
    · exact le_refl _
  · next kept =>
    refine ⟨.inl member, ?_⟩
    rintro item (earlier | rfl)
    · exact below item earlier
    · exact not_lt.mp (fun less => kept (decides.mpr less))

end Order

theorem exists_int {v : Value} (some : v.isNull = false) (int : v.type = .int) : ∃ n, v = .int n := by
  cases v with
  | int n => exact ⟨n, rfl⟩
  | string => cases int
  | null => cases some

variable {type : AggregatorType} {args : List Value} {state : Option Value}

theorem stepAggregate_spec {v : Value}
    (reached : IsState type args state) (summed : type = .sum → v.isNull ∨ v.type = .int) :
    ∃ later, stepAggregate type state v = some later ∧ IsState type (args ++ [v]) later := by
  by_cases null : v.isNull = true
  · exact ⟨state, if_pos null, (isState_congr (known_concat_null null) state).mpr reached⟩
  have some : v.isNull = false := Bool.eq_false_iff.mpr null
  have seen : known (args ++ [v]) = known args ++ [v] := known_concat some
  have nonempty : known (args ++ [v]) ≠ [] := by simp [seen]
  cases state with
  | none =>
    have first : known (args ++ [v]) = [v] := by rw [seen, reached, nil_append]
    cases type with
    | count => exact ⟨_, if_neg null, nonempty, by simp [IsAggregate, first]⟩
    | sum =>
      obtain ⟨n, rfl⟩ := exists_int some ((summed rfl).resolve_left null)
      exact ⟨_, if_neg null, nonempty, by simp [IsAggregate, first, asInt]⟩
    | min | max => exact ⟨_, if_neg null, nonempty, by simp [IsAggregate, first, compare_ne_gt, compare_ne_lt]⟩
  | some best =>
    obtain ⟨before, result⟩ := reached
    cases type with
    | count =>
      cases result
      refine ⟨_, if_neg null, nonempty, ?_⟩
      rw [IsAggregate, seen, length_append, Int64.ofNat_add]
      rfl
    | sum =>
      obtain ⟨n, rfl⟩ := exists_int some ((summed rfl).resolve_left null)
      simp only [IsAggregate, if_neg before] at result
      cases result
      refine ⟨_, if_neg null, nonempty, ?_⟩
      simp [IsAggregate, seen, asInt]
    | min =>
      simp only [IsAggregate, if_neg before, compare_ne_gt] at result
      have decides : v.compare best = .lt ↔ v.rank < best.rank := by rw [compare_eq_cmp, cmp_eq_lt_iff]
      refine ⟨_, if_neg null, nonempty, ?_⟩
      rw [IsAggregate, if_neg nonempty, seen]
      simp only [compare_ne_gt]
      exact least_concat rank result.1 result.2 v decides
    | max =>
      simp only [IsAggregate, if_neg before, compare_ne_lt] at result
      have decides : v.compare best = .gt ↔ best.rank < v.rank := by rw [compare_eq_cmp, cmp_eq_gt_iff]
      refine ⟨_, if_neg null, nonempty, ?_⟩
      rw [IsAggregate, if_neg nonempty, seen]
      simp only [compare_ne_lt]
      exact least_concat (OrderDual.toDual ∘ rank) result.1 result.2 v decides

def foldAggregate (type : AggregatorType) (args : List Value) : Option (Option Value) :=
  args.foldlM (stepAggregate type) none

theorem foldAggregate_concat (type : AggregatorType) (args : List Value) (v : Value) :
    foldAggregate type (args ++ [v]) = (foldAggregate type args).bind (stepAggregate type · v) := by
  rw [foldAggregate, foldAggregate, foldlM_append]
  cases args.foldlM (stepAggregate type) none with
  | none => rfl
  | some state =>
    rw [Option.bind_eq_bind, Option.bind_some, Option.bind_some, foldlM_cons]
    cases stepAggregate type state v <;> rfl

theorem foldAggregate_spec (args : List Value) (summed : type = .sum → ∀ v ∈ args, v.isNull ∨ v.type = .int) :
    ∃ state, foldAggregate type args = some state ∧ IsState type args state := by
  induction args using List.reverseRecOn with
  | nil => exact ⟨none, rfl, rfl⟩
  | append_singleton args v ih =>
    obtain ⟨state, folded, reached⟩ := ih fun sum other member => summed sum other (mem_append_left _ member)
    obtain ⟨later, stepped, reached⟩ := stepAggregate_spec reached fun sum =>
      summed sum v (mem_append_right _ (mem_singleton_self v))
    exact ⟨later, by rw [foldAggregate_concat, folded, Option.bind_some, stepped], reached⟩

theorem aggregateResult_spec (reached : IsState type args state) : IsAggregate type args (aggregateResult type state) := by
  cases state with
  | some result => exact reached.2
  | none => cases type <;> simp [IsAggregate, show known args = [] from reached, aggregateResult]

end GoDB.Execution
