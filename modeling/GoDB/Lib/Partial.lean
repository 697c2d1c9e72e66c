import Mathlib.Data.List.Forall2
import Mathlib.Data.List.Perm.Basic

/-! Lists run through tests and functions that may fail. -/

namespace GoDB.Lib
open List Option

variable {α β : Type}

theorem bind_eq_some {x : Option α} {next : α → Option β} {b : β} :
    (x >>= next) = some b ↔ ∃ a, x = some a ∧ next a = some b :=
  bind_eq_some_iff

def select (test : α → Option Bool) : List α → Option (List α)
  | [] => some []
  | a :: rest => do
    let passed ← test a
    let kept ← select test rest
    return if passed then a :: kept else kept

theorem select_eq_some_iff {test : α → Option Bool} {items kept : List α} : select test items = some kept ↔
      (∀ a ∈ items, (test a).isSome) ∧ kept = items.filter fun a => test a = some true := by
  induction items generalizing kept with
  | nil =>
    simp only [select, some.injEq, not_mem_nil, false_imp_iff, implies_true, true_and, filter_nil]
    exact eq_comm
  | cons a rest ih =>
    cases result : test a with
    | none => simp [select, result]
    | some passed =>
      simp only [select, result, Option.bind_eq_bind, Option.bind_some, Option.bind_eq_some_iff, ih, Option.pure_def,
        some.injEq, forall_mem_cons, isSome_some, true_and, filter_cons, decide_eq_true_eq]
      constructor
      · rintro ⟨_, ⟨defined, rfl⟩, rfl⟩
        exact ⟨defined, rfl⟩
      · rintro ⟨defined, rfl⟩
        exact ⟨_, ⟨defined, rfl⟩, rfl⟩

variable {f : α → Option β} {items : List α} {results : List β}

theorem mapM_eq_some_iff : items.mapM f = some results ↔ (∀ a ∈ items, (f a).isSome) ∧ results = items.filterMap f := by
  induction items generalizing results with
  | nil =>
    simp only [mapM_nil, Option.pure_def, Option.some.injEq, not_mem_nil, false_imp_iff, implies_true,
      true_and, filterMap_nil]
    exact eq_comm
  | cons a rest ih =>
    cases result : f a with
    | none => simp [result]
    | some b =>
      simp only [mapM_cons, result, bind_eq_bind, bind_some, bind_eq_some_iff, ih,
        Option.pure_def, Option.some.injEq, forall_mem_cons, Option.isSome_some, true_and,
        filterMap_cons_some result]
      constructor
      · rintro ⟨_, ⟨defined, rfl⟩, rfl⟩
        exact ⟨defined, rfl⟩
      · rintro ⟨defined, rfl⟩
        exact ⟨_, ⟨defined, rfl⟩, rfl⟩

section
variable (made : items.mapM f = some results)

include made

theorem mem_of_mapM : (∀ a ∈ items, ∃ b ∈ results, f a = some b) ∧ ∀ b ∈ results, ∃ a ∈ items, f a = some b := by
  obtain ⟨defined, rfl⟩ := mapM_eq_some_iff.mp made
  refine ⟨fun a member => ?_, fun b member => mem_filterMap.mp member⟩
  obtain ⟨b, found⟩ := isSome_iff_exists.mp (defined a member)
  exact ⟨b, mem_filterMap.mpr ⟨a, member, found⟩, found⟩

theorem map_of_mapM {g : β → α} (back : ∀ a b, f a = some b → g b = a) : results.map g = items := by
  obtain ⟨defined, rfl⟩ := mapM_eq_some_iff.mp made
  rw [map_filterMap]
  refine (filterMap_congr fun a member => ?_).trans filterMap_some
  obtain ⟨b, found⟩ := isSome_iff_exists.mp (defined a member)
  rw [found, map_some, back a b found]

omit made in
theorem mapM_congr {f g : α → Option β} (same : ∀ a ∈ items, f a = g a) : items.mapM f = items.mapM g := by
  induction items with
  | nil => rfl
  | cons a rest ih =>
    obtain ⟨here, later⟩ := forall_mem_cons.mp same
    rw [mapM_cons, mapM_cons, here, ih later]

theorem length_mapM : results.length = items.length := by
  induction items generalizing results with
  | nil =>
    cases made
    rfl
  | cons a rest ih =>
    rw [mapM_cons, bind_eq_bind, bind_eq_some_iff] at made
    obtain ⟨b, -, made⟩ := made
    obtain ⟨others, later, same⟩ := bind_eq_some_iff.mp made
    cases same
    rw [length_cons, length_cons, ih later]

omit made in
theorem exists_mapM {P : α → β → Prop}
    (all : ∀ a ∈ items, ∃ b, f a = some b ∧ P a b) : ∃ results, items.mapM f = some results ∧ List.Forall₂ P items results := by
  induction items with
  | nil => exact ⟨[], rfl, .nil⟩
  | cons a rest ih =>
    obtain ⟨⟨b, found, here⟩, others⟩ := forall_mem_cons.mp all
    obtain ⟨results, made, later⟩ := ih others
    exact ⟨b :: results, by rw [mapM_cons, found, made]; rfl, .cons here later⟩

theorem forall₂_of_mapM : List.Forall₂ (fun a b => f a = some b) items results := by
  obtain ⟨defined, -⟩ := mapM_eq_some_iff.mp made
  obtain ⟨others, again, all⟩ := exists_mapM fun a member =>
    (isSome_iff_exists.mp (defined a member)).imp fun _ found => ⟨found, found⟩
  cases made.symm.trans again
  exact all

end

theorem exists_mapM_iff {P : β → Prop} :
    (∃ results, items.mapM f = some results ∧ ∀ b ∈ results, P b) ↔ ∀ a ∈ items, ∃ b, f a = some b ∧ P b := by
  constructor
  · rintro ⟨results, made, all⟩ a member
    obtain ⟨b, inside, found⟩ := (mem_of_mapM made).1 a member
    exact ⟨b, found, all b inside⟩
  · intro all
    obtain ⟨results, made, each⟩ := exists_mapM all
    refine ⟨results, made, fun b inside => ?_⟩
    obtain ⟨a, member, found⟩ := (mem_of_mapM made).2 b inside
    obtain ⟨b', found', holds⟩ := all a member
    exact some.inj (found'.symm.trans found) ▸ holds

theorem mapM_bind_zip {γ : Type} (f : α → Option β) (g : α → β → Option γ) (items : List α) :
    items.mapM (fun a => (f a).bind (g a)) =
      (items.mapM f).bind fun results => (items.zip results).mapM fun entry => g entry.1 entry.2 := by
  induction items with
  | nil => rfl
  | cons a rest ih =>
    rw [mapM_cons, mapM_cons, ih]
    cases f a with
    | none => rfl
    | some b =>
      cases later : rest.mapM f with
      | none => cases made : g a b <;> simp [made]
      | some bs => simp

theorem foldlM_rule {step : β → α → Option β} (kept : β → Prop)
    (steps : ∀ b a later, kept b → step b a = some later → kept later) {start final : β}
    (initially : kept start) (folded : items.foldlM step start = some final) : kept final := by
  induction items generalizing start with
  | nil =>
    cases folded
    exact initially
  | cons a rest ih =>
    rw [foldlM_cons, bind_eq_bind, bind_eq_some_iff] at folded
    obtain ⟨later, taken, more⟩ := folded
    exact ih (steps start a later initially taken) more

theorem foldlM_append (f : α → Option β) (items : List α) (before : List β) :
    items.foldlM (fun made a => do return made ++ [← f a]) before = (items.mapM f).map (before ++ ·) := by
  induction items generalizing before with
  | nil => simp
  | cons a rest ih =>
    rw [foldlM_cons, mapM_cons]
    cases f a with
    | none => rfl
    | some b =>
      refine (ih (before ++ [b])).trans ?_
      cases rest.mapM f <;> simp

theorem exists_left_of_forall₂ {relation : α → β → Prop}
    (related : List.Forall₂ relation items results) : ∀ b ∈ results, ∃ a ∈ items, relation a b := by
  induction related with
  | nil => simp
  | cons first _ ih =>
    refine forall_mem_cons.mpr ⟨⟨_, mem_cons_self, first⟩, fun b inside => ?_⟩
    obtain ⟨a, listed, holds⟩ := ih b inside
    exact ⟨a, mem_cons_of_mem _ listed, holds⟩

theorem getElem?_of_forall₂ {relation : α → β → Prop}
    (related : List.Forall₂ relation items results) {i : Nat} {a : α} (here : items[i]? = some a) :
    ∃ b, results[i]? = some b ∧ relation a b := by
  induction related generalizing i with
  | nil => cases here
  | cons first _ ih =>
    cases i with
    | zero =>
      cases here
      exact ⟨_, rfl, first⟩
    | succ i => exact ih here

theorem place_of_filter_singleton {test : α → Bool} {kept : α} (only : items.filter test = [kept])
    {i j : Nat} {a b : α} (first : items[i]? = some a) (second : items[j]? = some b) (passed : test a = true)
    (passedToo : test b = true) : i = j := by
  induction items generalizing i j with
  | nil => cases first
  | cons head rest ih =>
    rw [filter_cons] at only
    split at only
    next passedHead =>
      have none := filter_eq_nil_iff.mp (cons.inj only).2
      have atHead {k : Nat} {x : α} (here : (head :: rest)[k]? = some x) (passes : test x = true) : k = 0 := by
        cases k with
        | zero => rfl
        | succ k => exact absurd passes (none x (mem_of_getElem? here))
      rw [atHead first passed, atHead second passedToo]
    next failedHead =>
      have later {k : Nat} {x : α} (here : (head :: rest)[k]? = some x) (passes : test x = true) :
          ∃ k', k = k' + 1 ∧ rest[k']? = some x := by
        cases k with
        | zero =>
          cases here
          exact absurd passes failedHead
        | succ k => exact ⟨k, rfl, here⟩
      obtain ⟨i, rfl, first⟩ := later first passed
      obtain ⟨j, rfl, second⟩ := later second passedToo
      rw [ih only first second]

theorem isSome_findSomeM? {f : α → Option (Option β)} (returns : ∀ a ∈ items, (f a).isSome = true) :
    (items.findSomeM? f).isSome = true := by
  induction items with
  | nil => rfl
  | cons a rest ih =>
    obtain ⟨first, others⟩ := forall_mem_cons.mp returns
    obtain ⟨found, made⟩ := isSome_iff_exists.mp first
    rw [findSomeM?, made, bind_eq_bind, bind_some]
    cases found with
    | none => exact ih others
    | some b => rfl

theorem mem_of_findSomeM? {f : α → Option (Option β)} {b : β} (found : items.findSomeM? f = some (some b)) :
    ∃ a ∈ items, f a = some (some b) := by
  induction items with
  | nil => cases found
  | cons a rest ih =>
    obtain ⟨first, made, found⟩ := Option.bind_eq_some_iff.mp found
    cases first with
    | some b' =>
      cases found
      exact ⟨a, mem_cons_self, made⟩
    | none =>
      obtain ⟨other, inside, made⟩ := ih found
      exact ⟨other, mem_cons_of_mem _ inside, made⟩

theorem isSome_anyM {f : α → Option Bool} (returns : ∀ a ∈ items, (f a).isSome = true) : (items.anyM f).isSome = true := by
  induction items with
  | nil => rfl
  | cons a rest ih =>
    obtain ⟨first, others⟩ := forall_mem_cons.mp returns
    obtain ⟨found, made⟩ := isSome_iff_exists.mp first
    rw [anyM, made, bind_eq_bind, bind_some]
    cases found with
    | true => rfl
    | false => exact ih others

theorem mem_of_anyM {f : α → Option Bool} (found : items.anyM f = some true) : ∃ a ∈ items, f a = some true := by
  induction items with
  | nil => cases found
  | cons a rest ih =>
    obtain ⟨first, made, found⟩ := Option.bind_eq_some_iff.mp found
    cases first with
    | true => exact ⟨a, mem_cons_self, made⟩
    | false =>
      obtain ⟨other, inside, made⟩ := ih found
      exact ⟨other, mem_cons_of_mem _ inside, made⟩

theorem mapM_map_eq_some {γ : Type} {f : β → Option γ} {g : α → β} {h : α → γ}
    (all : ∀ a ∈ items, f (g a) = some (h a)) : (items.map g).mapM f = some (items.map h) := by
  refine mapM_eq_some_iff.mpr ⟨forall_mem_map.mpr fun a member => isSome_of_eq_some (all a member), ?_⟩
  rw [filterMap_map, ← filterMap_eq_map]
  exact filterMap_congr fun a member => (all a member).symm

theorem mapM_perm {items others : List α} (perm : items.Perm others)
    (mapped : items.mapM f = some results) : ∃ reordered, others.mapM f = some reordered ∧ reordered.Perm results := by
  obtain ⟨defined, rfl⟩ := mapM_eq_some_iff.mp mapped
  refine ⟨others.filterMap f, mapM_eq_some_iff.mpr ⟨?_, rfl⟩, perm.symm.filterMap f⟩
  intro a member
  exact defined a (perm.mem_iff.mpr member)

theorem filter_perm_iff {first second : α → Bool} :
    (items.filter first).Perm (items.filter second) ↔ ∀ a ∈ items, first a = second a := by
  constructor
  · intro perm a member
    have same : a ∈ items.filter first ↔ a ∈ items.filter second := perm.mem_iff
    simp only [mem_filter, member, true_and] at same
    exact Bool.eq_iff_iff.mpr same
  · intro same
    rw [filter_congr same]

theorem filter_eq_of_length {first second : α → Bool} (weaker : ∀ a ∈ items, first a = true → second a = true)
    (same : (items.filter first).length = (items.filter second).length) : ∀ a ∈ items, first a = second a := by
  have nested : (items.filter second).filter first = items.filter first := by
    rw [List.filter_filter]
    apply filter_congr
    intro a member
    cases passed : first a with
    | false => rfl
    | true => simp [weaker a member passed]
  have whole : (items.filter second).filter first = items.filter second := by
    apply filter_sublist.eq_of_length
    rw [nested, same]
  intro a member
  rw [Bool.eq_iff_iff]
  refine ⟨weaker a member, fun passed => ?_⟩
  exact filter_eq_self.mp whole a (mem_filter.mpr ⟨member, passed⟩)

/-- Filtering after a projection of a type onto part of itself gives the items of the
filter only where nothing that either of them keeps is moved. -/
theorem filter_projected_perm_iff {f : α → α} (idempotent : ∀ a, f (f a) = f a) {test : α → Bool} :
    ((items.map f).filter test).Perm (items.filter test) ↔
      ∀ a ∈ items, f a = a ∨ (test a = false ∧ test (f a) = false) := by
  rw [List.filter_map]
  constructor
  · intro perm
    have fixed : ∀ a ∈ items.filter test, f a = a := by
      intro a member
      obtain ⟨b, -, rfl⟩ := mem_map.mp (perm.mem_iff.mpr member)
      exact idempotent b
    have sizes := perm.length_eq
    rw [length_map] at sizes
    have weaker : ∀ a ∈ items, test a = true → (test ∘ f) a = true := by
      intro a member passed
      rwa [Function.comp_apply, fixed a (mem_filter.mpr ⟨member, passed⟩)]
    intro a member
    cases passed : test a with
    | true => exact .inl (fixed a (mem_filter.mpr ⟨member, passed⟩))
    | false => exact .inr ⟨rfl, (filter_eq_of_length weaker sizes.symm a member).symm.trans passed⟩
  · intro same
    induction items with
    | nil => exact .refl _
    | cons a items ih =>
      obtain ⟨here, others⟩ := forall_mem_cons.mp same
      rcases here with kept | ⟨fails, fails'⟩
      · cases passed : test a with
        | true => simpa [passed, kept] using ih others
        | false => simpa [passed, kept] using ih others
      · simpa [fails, fails'] using ih others

/-- The same for the images of two filters, when one of them looks at the image
only. -/
theorem filter_map_perm_iff [DecidableEq β] {f : α → β} {first : β → Bool} {second : α → Bool} :
    ((items.filter fun a => first (f a)).map f).Perm ((items.filter second).map f) ↔
      ∀ a ∈ items, first (f a) = second a := by
  constructor
  · intro perm a member
    have size : ∀ test : α → Bool, (((items.filter test).map f).filter (· = f a)).length =
        ((items.filter (f · = f a)).filter test).length := by
      intro test
      simp only [List.filter_map, List.length_map, List.filter_filter, Function.comp_def, Bool.and_comm]
    have counts := (perm.filter (· = f a)).length_eq
    rw [size, size] at counts
    have whole : ((items.filter (f · = f a)).filter fun b => first (f b)) =
        if first (f a) then items.filter (f · = f a) else [] := by
      split
      next passed =>
        apply filter_eq_self.mpr
        intro b inside
        rwa [of_decide_eq_true (mem_filter.mp inside).2]
      next failed =>
        apply filter_eq_nil_iff.mpr
        intro b inside
        rwa [of_decide_eq_true (mem_filter.mp inside).2]
    have here : a ∈ items.filter (f · = f a) := mem_filter.mpr ⟨member, by simp⟩
    rw [whole] at counts
    cases passed : first (f a) with
    | true =>
      rw [passed, if_pos rfl, eq_comm, length_filter_eq_length_iff] at counts
      exact (counts a here).symm
    | false =>
      rw [passed, if_neg (by decide), length_nil, eq_comm, length_eq_zero_iff, filter_eq_nil_iff] at counts
      exact (Bool.eq_false_iff.mpr (counts a here)).symm
  · intro same
    rw [filter_congr same]

end GoDB.Lib
