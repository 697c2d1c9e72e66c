import Mathlib.Data.List.Forall2

/-! Computations that return a result, report an error or panic. -/

namespace GoDB.Lib

inductive Outcome (ε α : Type) where
  | ok (a : α)
  | error (err : ε)
  | panics
deriving DecidableEq

namespace Outcome
variable {ε α β : Type}

protected def bind (x : Outcome ε α) (f : α → Outcome ε β) : Outcome ε β :=
  match x with
  | .ok a => f a
  | .error err => .error err
  | .panics => .panics

instance : Monad (Outcome ε) where
  pure := .ok
  bind := Outcome.bind

@[simp] theorem pure_eq (a : α) : (pure a : Outcome ε α) = .ok a := rfl

@[simp] theorem ok_bind (a : α) (f : α → Outcome ε β) : (Outcome.ok a >>= f) = f a := rfl

@[simp] theorem error_bind (err : ε) (f : α → Outcome ε β) : (Outcome.error err >>= f) = .error err := rfl

@[simp] theorem panics_bind (f : α → Outcome ε β) : (Outcome.panics >>= f) = .panics := rfl

variable {x : Outcome ε α} {f : α → Outcome ε β}

theorem bind_eq_ok {b : β} : (x >>= f) = .ok b ↔ ∃ a, x = .ok a ∧ f a = .ok b := by
  cases x <;> simp

theorem bind_eq_panics : (x >>= f) = .panics ↔ x = .panics ∨ ∃ a, x = .ok a ∧ f a = .panics := by
  cases x <;> simp

instance : LawfulMonad (Outcome ε) := by
  refine LawfulMonad.mk' _ (fun x => ?_) (fun a f => rfl) fun x f g => ?_
  · cases x <;> rfl
  · cases x <;> rfl

theorem mapM_eq_ok {items : List α} {results : List β} :
    items.mapM f = .ok results ↔ List.Forall₂ (fun a b => f a = .ok b) items results := by
  induction items generalizing results with
  | nil =>
    rw [List.mapM_nil, pure_eq, ok.injEq, List.forall₂_nil_left_iff]
    exact eq_comm
  | cons a rest ih =>
    simp only [List.mapM_cons, bind_eq_ok, pure_eq, ok.injEq, ih]
    constructor
    · rintro ⟨b, first, others, later, rfl⟩
      exact .cons first later
    · intro all
      cases all with
      | cons first later => exact ⟨_, first, _, later, rfl⟩

def ofOption (x : Option α) : Outcome ε α :=
  match x with
  | some a => .ok a
  | none => .panics

variable {δ : Type}

def ofExcept (wrap : δ → ε) (x : Except δ α) : Outcome ε α :=
  match x with
  | .ok a => .ok a
  | .error err => .error (wrap err)

def mapError (wrap : ε → δ) (x : Outcome ε α) : Outcome δ α :=
  match x with
  | .ok a => .ok a
  | .error err => .error (wrap err)
  | .panics => .panics

variable {a : α}

theorem ofOption_eq_ok {x : Option α} : (ofOption x : Outcome ε α) = .ok a ↔ x = some a := by
  cases x <;> simp [ofOption]

theorem ofOption_eq_panics {x : Option α} : (ofOption x : Outcome ε α) = .panics ↔ x = none := by
  cases x <;> simp [ofOption]

theorem ofExcept_eq_ok {wrap : δ → ε} {x : Except δ α} : ofExcept wrap x = .ok a ↔ x = .ok a := by
  cases x <;> simp [ofExcept]

theorem mapError_eq_ok {wrap : ε → δ} : x.mapError wrap = .ok a ↔ x = .ok a := by
  cases x <;> simp [mapError]

end Outcome
end GoDB.Lib
