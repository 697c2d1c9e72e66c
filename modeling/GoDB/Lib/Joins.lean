import Mathlib.Data.List.Basic

/-! Joins of two lists. An outer join keeps an item without a partner, with
nothing in the partner's place. -/

namespace GoDB.Lib
open List

variable {α β : Type} (related : α → β → Bool) (left : List α) (right : List β)

def innerJoin : List (α × β) :=
  left.flatMap fun a => (right.filter (related a)).map (Prod.mk a)

def partners (found : List β) : List (Option β) := if found.isEmpty then [none] else found.map some

def leftJoin : List (α × Option β) :=
  left.flatMap fun a => (partners (right.filter (related a))).map (Prod.mk a)

def rightJoin : List (Option α × β) :=
  right.flatMap fun b => (partners (left.filter (related · b))).map (·, b)

def fullJoin : List (Option α × Option β) :=
  (leftJoin related left right).map (fun pair => (some pair.1, pair.2)) ++
    (right.filter fun b => left.all (!related · b)).map fun b => (none, some b)

section Members
variable {related : α → β → Bool} {left : List α} {right : List β}

theorem mem_of_mem_partners {found : List β} {partner : Option β} (member : partner ∈ partners found) :
    ∀ b ∈ partner, b ∈ found := by
  rintro b rfl
  rw [partners] at member
  split at member
  next => cases mem_singleton.mp member
  next =>
    obtain ⟨b, inside, same⟩ := mem_map.mp member
    cases same
    exact inside

theorem mem_of_mem_innerJoin {pair : α × β} (member : pair ∈ innerJoin related left right) :
    pair.1 ∈ left ∧ pair.2 ∈ right := by
  obtain ⟨a, inLeft, made⟩ := mem_flatMap.mp member
  obtain ⟨b, found, rfl⟩ := mem_map.mp made
  exact ⟨inLeft, (mem_filter.mp found).1⟩

theorem mem_of_mem_leftJoin {pair : α × Option β} (member : pair ∈ leftJoin related left right) :
    pair.1 ∈ left ∧ ∀ b ∈ pair.2, b ∈ right := by
  obtain ⟨a, inLeft, made⟩ := mem_flatMap.mp member
  obtain ⟨partner, found, rfl⟩ := mem_map.mp made
  exact ⟨inLeft, fun b same => (mem_filter.mp (mem_of_mem_partners found b same)).1⟩

theorem mem_of_mem_rightJoin {pair : Option α × β} (member : pair ∈ rightJoin related left right) :
    (∀ a ∈ pair.1, a ∈ left) ∧ pair.2 ∈ right := by
  obtain ⟨b, inRight, made⟩ := mem_flatMap.mp member
  obtain ⟨partner, found, rfl⟩ := mem_map.mp made
  exact ⟨fun a same => (mem_filter.mp (mem_of_mem_partners found a same)).1, inRight⟩

theorem mem_of_mem_fullJoin {pair : Option α × Option β} (member : pair ∈ fullJoin related left right) :
    (∀ a ∈ pair.1, a ∈ left) ∧ ∀ b ∈ pair.2, b ∈ right := by
  rcases mem_append.mp member with matched | alone
  · obtain ⟨found, inside, rfl⟩ := mem_map.mp matched
    obtain ⟨inLeft, inRight⟩ := mem_of_mem_leftJoin inside
    refine ⟨?_, inRight⟩
    rintro a ⟨⟩
    exact inLeft
  · obtain ⟨b, inside, rfl⟩ := mem_map.mp alone
    refine ⟨nofun, ?_⟩
    rintro b ⟨⟩
    exact (mem_filter.mp inside).1

end Members

section Filters
variable {related : α → β → Bool} {left : List α} {right : List β}

theorem filter_flatMap_of_source {γ : Type} {items : List α} {made : α → List γ} {test : γ → Bool} {source : α → Bool}
    (same : ∀ a, ∀ c ∈ made a, test c = source a) :
    (items.flatMap made).filter test = (items.filter source).flatMap made := by
  induction items with
  | nil => rfl
  | cons a items ih =>
    rw [flatMap_cons, filter_append, ih]
    cases passed : source a with
    | true =>
      rw [filter_cons_of_pos passed, flatMap_cons, filter_eq_self.mpr]
      exact fun c member => (same a c member).trans passed
    | false =>
      rw [filter_cons_of_neg (by simp [passed]), filter_eq_nil_iff.mpr, nil_append]
      intro c member
      simp [same a c member, passed]

theorem filter_innerJoin_left (test : α → Bool) :
    (innerJoin related left right).filter (fun pair => test pair.1) = innerJoin related (left.filter test) right := by
  apply filter_flatMap_of_source
  intro a pair member
  obtain ⟨b, -, rfl⟩ := mem_map.mp member
  rfl

theorem filter_innerJoin (test : α → β → Bool) : (innerJoin related left right).filter (fun pair => test pair.1 pair.2) =
    innerJoin (fun a b => related a b && test a b) left right := by
  simp only [innerJoin, filter_flatMap, filter_map, filter_filter, Function.comp_def, Bool.and_comm]

theorem filter_innerJoin_right (test : β → Bool) :
    (innerJoin related left right).filter (fun pair => test pair.2) = innerJoin related left (right.filter test) := by
  rw [filter_innerJoin fun _ b => test b]
  simp [innerJoin]

theorem filter_leftJoin (test : α → Bool) :
    (leftJoin related left right).filter (fun pair => test pair.1) = leftJoin related (left.filter test) right := by
  apply filter_flatMap_of_source
  intro a pair member
  obtain ⟨b, -, rfl⟩ := mem_map.mp member
  rfl

theorem filter_rightJoin (test : β → Bool) :
    (rightJoin related left right).filter (fun pair => test pair.2) = rightJoin related left (right.filter test) := by
  apply filter_flatMap_of_source
  intro b pair member
  obtain ⟨a, -, rfl⟩ := mem_map.mp member
  rfl

end Filters
end GoDB.Lib
