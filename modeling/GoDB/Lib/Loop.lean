import GoDB.Lib.Partial

/-! Loops whose end is not known beforehand, and a way to compare two computations
that may not return. -/

namespace GoDB.Lib
open Option

variable {σ ρ α β γ δ : Type}

/-- Take a step until one of them returns. There is no result when a step has none
and when the fuel runs out before. -/
def repeatUntil (step : σ → Option (σ ⊕ ρ)) : Nat → σ → Option ρ
  | 0, _ => none
  | fuel + 1, s => do
    match ← step s with
    | .inl s => repeatUntil step fuel s
    | .inr r => return r

section
variable {step : σ → Option (σ ⊕ ρ)} {fuel : Nat} {s later : σ} {r : ρ}

theorem repeatUntil_continue (continues : step s = some (.inl later)) :
    repeatUntil step (fuel + 1) s = repeatUntil step fuel later := by
  rw [repeatUntil, continues, bind_eq_bind, bind_some]

theorem repeatUntil_return (returns : step s = some (.inr r)) : repeatUntil step (fuel + 1) s = some r := by
  rw [repeatUntil, returns, bind_eq_bind, bind_some, pure_def]

theorem repeatUntil_rule (going : σ → Prop) (result : ρ → Prop)
    (steps : ∀ s outcome, going s → step s = some outcome → outcome.elim going result) (start : going s)
    (returned : repeatUntil step fuel s = some r) : result r := by
  induction fuel generalizing s with
  | zero => cases returned
  | succ fuel ih =>
    obtain ⟨outcome, taken, rest⟩ := bind_eq_some_iff.mp returned
    have kept := steps s outcome start taken
    cases outcome with
    | inl later => exact ih kept rest
    | inr last =>
      cases rest
      exact kept

theorem repeatUntil_mono {step' : σ → Option (σ ⊕ ρ)} (extends' : ∀ s outcome, step s = some outcome → step' s = some outcome)
    (returned : repeatUntil step fuel s = some r) {more : Nat} (enough : fuel ≤ more) :
    repeatUntil step' more s = some r := by
  induction fuel generalizing s more with
  | zero => cases returned
  | succ fuel ih =>
    obtain ⟨more, rfl⟩ := Nat.exists_eq_add_of_lt enough
    obtain ⟨outcome, taken, rest⟩ := bind_eq_some_iff.mp returned
    cases outcome with
    | inl later =>
      rw [repeatUntil_continue (extends' s _ taken)]
      exact ih rest (Nat.le_add_right fuel more)
    | inr last =>
      rw [repeatUntil_return (extends' s _ taken)]
      exact rest

end

/-- Whenever the first computation returns, so does the second, with a related
result. -/
def Follows (relation : α → β → Prop) (first : Option α) (second : Option β) : Prop :=
  ∀ a, first = some a → ∃ b, second = some b ∧ relation a b

namespace Follows
variable {relation : α → β → Prop}

theorem of_some {a : α} {b : β} (related : relation a b) : Follows relation (some a) (some b) := by
  intro a' same
  cases same
  exact ⟨b, rfl, related⟩

variable {first : Option α}

theorem of_eq {second : Option α} (same : first = second) : Follows Eq first second := by
  intro a returned
  exact ⟨a, same ▸ returned, rfl⟩

variable {result : γ → δ → Prop} {second : Option β} {f : α → Option γ}

theorem bind {g : β → Option δ} (follows : Follows relation first second)
    (rest : ∀ a b, relation a b → Follows result (f a) (g b)) : Follows result (first.bind f) (second.bind g) := by
  intro c returned
  obtain ⟨a, here, more⟩ := bind_eq_some_iff.mp returned
  obtain ⟨b, there, related⟩ := follows a here
  obtain ⟨d, last, final⟩ := rest a b related c more
  exact ⟨d, bind_eq_some_iff.mpr ⟨b, there, last⟩, final⟩

theorem bind_same {g : α → Option δ}
    (rest : ∀ a, Follows result (f a) (g a)) : Follows result (first.bind f) (first.bind g) :=
  (of_eq rfl).bind fun a _ same => same ▸ rest a

theorem with_eq (follows : Follows relation first second) :
    Follows (fun a b => relation a b ∧ first = some a) first second := by
  intro a returned
  obtain ⟨b, there, related⟩ := follows a returned
  exact ⟨b, there, related, returned⟩

theorem mono {weaker : α → β → Prop}
    (follows : Follows relation first second) (implies : ∀ a b, relation a b → weaker a b) :
    Follows weaker first second := by
  intro a returned
  obtain ⟨b, there, related⟩ := follows a returned
  exact ⟨b, there, implies a b related⟩

end Follows

inductive SumRel (going : α → β → Prop) (returned : γ → δ → Prop) : α ⊕ γ → β ⊕ δ → Prop where
  | inl {a b} (related : going a b) : SumRel going returned (.inl a) (.inl b)
  | inr {c d} (related : returned c d) : SumRel going returned (.inr c) (.inr d)

theorem follows_repeatUntil {going : α → β → Prop} {result : γ → δ → Prop} {step : α → Option (α ⊕ γ)}
    {step' : β → Option (β ⊕ δ)} (steps : ∀ a b, going a b → Follows (SumRel going result) (step a) (step' b))
    (fuel : Nat) {a : α} {b : β} (start : going a b) :
    Follows result (repeatUntil step fuel a) (repeatUntil step' fuel b) := by
  induction fuel generalizing a b with
  | zero => nofun
  | succ fuel ih =>
    refine (steps a b start).bind ?_
    rintro _ _ (going | returned)
    · exact ih going
    · exact .of_some returned

end GoDB.Lib
