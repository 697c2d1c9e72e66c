import Mathlib.Logic.Function.Basic

/-! Code that reads and writes a memory, one access at a time. Other code may change the
memory between two accesses. -/

namespace GoDB.Lib

inductive Accesses (σ α : Type) where
  | done (result : α)
  | failed
  | load (next : σ → Accesses σ α)
  | store (change : σ → Option σ) (next : Accesses σ α)

namespace Accesses
variable {σ α β : Type}

def bind : Accesses σ α → (α → Accesses σ β) → Accesses σ β
  | .done result, rest => rest result
  | .failed, _ => .failed
  | .load next, rest => .load fun s => (next s).bind rest
  | .store change next, rest => .store change (next.bind rest)

instance : Monad (Accesses σ) where
  pure := .done
  bind := bind

def run : Accesses σ α → σ → Option (α × σ)
  | .done result, s => some (result, s)
  | .failed, _ => none
  | .load next, s => (next s).run s
  | .store change next, s => (change s).bind next.run

def step : Accesses σ α → σ → Accesses σ α × σ
  | .load next, s => (next s, s)
  | .store change next, s =>
    match change s with
    | some later => (next, later)
    | none => (.failed, s)
  | .done result, s => (.done result, s)
  | .failed, s => (.failed, s)

variable {code : Accesses σ α} {rest : α → Accesses σ β} {s : σ}

@[simp] theorem run_bind (code : Accesses σ α) (rest : α → Accesses σ β) (s : σ) :
    (code >>= rest).run s = (code.run s).bind fun r => (rest r.1).run r.2 := by
  change (code.bind rest).run s = _
  induction code generalizing s with
  | done result => rfl
  | failed => rfl
  | load next ih => exact ih s s
  | store change next ih =>
    simp only [bind, run, Option.bind_assoc]
    exact congrArg (Option.bind (change s)) (funext ih)

theorem run_step (code : Accesses σ α) (s : σ) : (code.step s).1.run (code.step s).2 = code.run s := by
  cases code with
  | done | failed | load => rfl
  | store change next => cases changed : change s <;> simp [step, run, changed]

/-- Code that is left alone comes to the rest, with the memory as it is there. -/
inductive Reaches : Accesses σ α → σ → Accesses σ α → σ → Prop where
  | here {code : Accesses σ α} {s : σ} : Reaches code s code s
  | load {next : σ → Accesses σ α} {rest : Accesses σ α} {s t : σ} (later : Reaches (next s) s rest t) :
      Reaches (.load next) s rest t
  | store {change : σ → Option σ} {next rest : Accesses σ α} {s changed t : σ} (changes : change s = some changed)
      (later : Reaches next changed rest t) : Reaches (.store change next) s rest t

namespace Reaches
variable {first second third : Accesses σ α} {s t u : σ}

theorem trans (early : Reaches first s second t) (late : Reaches second t third u) : Reaches first s third u := by
  induction early with
  | here => exact late
  | load _ ih => exact .load (ih late)
  | store changes _ ih => exact .store changes (ih late)

theorem bind (reaches : Reaches first s second t) (rest : α → Accesses σ β) :
    Reaches (first >>= rest) s (second >>= rest) t := by
  induction reaches with
  | here => exact .here
  | load _ ih => exact .load ih
  | store changes _ ih => exact .store changes ih

end Reaches

theorem reaches_of_run {code : Accesses σ α} {result : α} {s t : σ} (runs : code.run s = some (result, t))
    (rest : α → Accesses σ β) : Reaches (code >>= rest) s (rest result) t := by
  induction code generalizing s with
  | done =>
    cases runs
    exact .here
  | failed => cases runs
  | load next ih => exact .load (ih s runs)
  | store change next ih =>
    obtain ⟨changed, changes, runs⟩ := Option.bind_eq_some_iff.mp runs
    exact .store changes (ih runs)

end Accesses
end GoDB.Lib
