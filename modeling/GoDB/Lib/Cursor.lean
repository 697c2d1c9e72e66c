import GoDB.Lib.Loop
import Mathlib.Logic.Relation

/-! Cursors: a state that is set up, moved on by one item at a time and asked for
the item that it is at. A call without a result does not return. -/

namespace GoDB.Lib

/-- Setting up may report an error, and so may the state later on. -/
structure Cursor (σ α ε : Type) where
  init : σ → Option (Option ε × σ)
  next : σ → Option (Bool × σ)
  current : σ → Option α
  error : σ → Option ε

namespace Cursor
variable {σ α ε : Type} {c : Cursor σ α ε} {s later : σ} {items : List α}

inductive Yields (c : Cursor σ α ε) : σ → List α → Prop where
  | done {s later : σ} (finished : c.next s = some (false, later)) : Yields c s []
  | more {s later : σ} {item : α} {rest : List α} (advanced : c.next s = some (true, later))
      (at_ : c.current later = some item) (others : Yields c later rest) : Yields c s (item :: rest)

theorem Yields.of_next (same : c.next s = c.next later) (yields : Yields c later items) : Yields c s items := by
  cases yields with
  | done finished => exact .done (same.trans finished)
  | more advanced at_ others => exact .more (same.trans advanced) at_ others

theorem Yields.unique {others : List α} (yields : Yields c s items) (again : Yields c s others) : items = others := by
  induction yields generalizing others with
  | done finished =>
    cases again with
    | done => rfl
    | more advanced => simp [finished] at advanced
  | more advanced at_ _ ih =>
    cases again with
    | done finished => simp [finished] at advanced
    | more advanced' at' others =>
      obtain ⟨-, rfl⟩ := Prod.ext_iff.mp (Option.some.inj (advanced.symm.trans advanced'))
      rw [Option.some.inj (at_.symm.trans at'), ih others]

inductive Ends (c : Cursor σ α ε) : σ → σ → Prop where
  | done {s last : σ} (finished : c.next s = some (false, last)) : Ends c s last
  | more {s later last : σ} (advanced : c.next s = some (true, later)) (rest : Ends c later last) : Ends c s last

def Moves (c : Cursor σ α ε) (s later : σ) : Prop := ∃ found, c.next s = some (found, later)

def Calls (c : Cursor σ α ε) (s later : σ) : Prop := (∃ err, c.init s = some (err, later)) ∨ c.Moves s later

/-- No item is found here, however often one asks, and no error is reported. -/
def Exhausted (c : Cursor σ α ε) (s : σ) : Prop :=
  ∀ later, Relation.ReflTransGen c.Moves s later → ∃ last, c.next later = some (false, last) ∧ c.error last = none

namespace Exhausted

theorem of_invariant (inv : σ → Prop)
    (stays : ∀ s, inv s → ∃ last, c.next s = some (false, last) ∧ c.error last = none ∧ inv last) (here : inv s) :
    c.Exhausted s := by
  intro later reached
  have kept : inv later := by
    induction reached with
    | refl => exact here
    | tail _ moved ih =>
      obtain ⟨found, advanced⟩ := moved
      obtain ⟨last, finished, -, still⟩ := stays _ ih
      cases advanced.symm.trans finished
      exact still
  obtain ⟨last, finished, clean, -⟩ := stays _ kept
  exact ⟨last, finished, clean⟩

theorem next (exhausted : c.Exhausted s) : ∃ last, c.next s = some (false, last) ∧ c.error last = none ∧ c.Exhausted last := by
  obtain ⟨last, finished, clean⟩ := exhausted s .refl
  exact ⟨last, finished, clean, fun later reached => exhausted later (.head ⟨false, finished⟩ reached)⟩

end Exhausted

/-- A run to the end without errors, after which the cursor stays exhausted. -/
inductive Runs (c : Cursor σ α ε) : σ → List α → Prop where
  | done {s : σ} (exhausted : c.Exhausted s) : Runs c s []
  | more {s later : σ} {item : α} {rest : List α} (advanced : c.next s = some (true, later))
      (at_ : c.current later = some item) (clean : c.error later = none) (others : Runs c later rest) : Runs c s (item :: rest)

theorem Runs.yields (runs : c.Runs s items) : c.Yields s items := by
  induction runs with
  | done exhausted =>
    obtain ⟨last, finished, -⟩ := exhausted _ .refl
    exact .done finished
  | more advanced at_ _ _ ih => exact .more advanced at_ ih

theorem runs_of_places (place : Nat → σ)
    (more : ∀ i item, items[i]? = some item → c.next (place i) = some (true, place (i + 1)) ∧
      c.current (place (i + 1)) = some item)
    (stays : c.next (place items.length) = some (false, place items.length)) (clean : ∀ i, c.error (place i) = none) (i : Nat)
    (inside : i ≤ items.length) : c.Runs (place i) (items.drop i) := by
  obtain ⟨left, same⟩ := Nat.exists_eq_add_of_le inside
  induction left generalizing i with
  | zero =>
    rw [List.drop_of_length_le (by omega)]
    have finished : c.next (place i) = some (false, place i) := by
      rw [Nat.add_zero] at same
      exact same ▸ stays
    exact .done (.of_invariant (· = place i) (fun _ here => ⟨_, here ▸ finished, clean i, rfl⟩) rfl)
  | succ left ih =>
    have bound : i < items.length := by omega
    obtain ⟨advanced, at_⟩ := more i _ (List.getElem?_eq_getElem bound)
    rw [List.drop_eq_getElem_cons bound]
    exact .more advanced at_ (clean _) (ih (i + 1) bound (by omega))

/-- Whatever was called before, setting up starts a run over the same items. -/
def Repeats (c : Cursor σ α ε) (s : σ) (items : List α) : Prop :=
  ∀ later, Relation.ReflTransGen c.Calls s later → ∃ start, c.init later = some (none, start) ∧ c.Runs start items

structure Ahead (c : Cursor σ α ε) (items : List α) (s : σ) (rest : List α) : Prop where
  runs : c.Runs s rest
  again : c.Repeats s items

theorem Repeats.of_calls (repeats : c.Repeats s items) (calls : c.Calls s later) : c.Repeats later items :=
  fun last reached => repeats last (.head calls reached)

theorem Repeats.init (repeats : c.Repeats s items) : ∃ start, c.init s = some (none, start) ∧ c.Ahead items start items := by
  obtain ⟨start, began, runs⟩ := repeats s .refl
  exact ⟨start, began, runs, repeats.of_calls (.inl ⟨none, began⟩)⟩

namespace Ahead
variable {rest : List α} {item : α}

theorem more (ahead : c.Ahead items s (item :: rest)) : ∃ later, c.next s = some (true, later) ∧
    c.current later = some item ∧ c.error later = none ∧ c.Ahead items later rest := by
  obtain ⟨runs, again⟩ := ahead
  cases runs with
  | more advanced at_ clean others =>
    exact ⟨_, advanced, at_, clean, others, again.of_calls (.inr ⟨true, advanced⟩)⟩

theorem done (ahead : c.Ahead items s []) : ∃ later, c.next s = some (false, later) ∧ c.error later = none ∧
    c.Ahead items later [] := by
  obtain ⟨runs, again⟩ := ahead
  cases runs with
  | done exhausted =>
    obtain ⟨later, finished, clean, spent⟩ := exhausted.next
    exact ⟨later, finished, clean, .done spent, again.of_calls (.inr ⟨false, finished⟩)⟩

end Ahead

/-- The calls that report no error; the others are taken as not returning. -/
def quiet (c : Cursor σ α ε) : Cursor σ α ε :=
  { c with
    init := fun s => (c.init s).filter fun result => result.1.isNone && (c.error result.2).isNone
    next := fun s => (c.next s).filter fun result => (c.error result.2).isNone }

theorem quiet_init {result : Option ε × σ} :
    c.quiet.init s = some result ↔ c.init s = some result ∧ result.1 = none ∧ c.error result.2 = none := by
  simp [quiet, Option.filter_eq_some_iff]

theorem quiet_next {result : Bool × σ} :
    c.quiet.next s = some result ↔ c.next s = some result ∧ c.error result.2 = none := by
  simp [quiet, Option.filter_eq_some_iff]

/-- Setting up makes any two clean states alike, and states that are alike stay so
and find the same items. The first state is moved by one cursor and the second by
the other. -/
structure Restarts (c d : Cursor σ α ε) (clean : σ → Prop) (alike : σ → σ → Prop) : Prop where
  init : ∀ s other, clean s → clean other →
    Follows (fun first second => first.1 = none ∧ second.1 = none ∧ alike first.2 second.2) (c.init s) (d.init other)
  next : ∀ s other, alike s other → Follows (fun first second => first.1 = second.1 ∧ alike first.2 second.2 ∧
      (first.1 = true → c.current first.2 = d.current second.2)) (c.next s) (d.next other)
  clean : ∀ s other, alike s other → clean s ∧ clean other
  errors : ∀ s other, alike s other → c.error s = none ∧ d.error other = none

namespace Restarts
variable {d : Cursor σ α ε} {clean : σ → Prop} {alike : σ → σ → Prop} {other : σ}

theorem of_quiet (init : ∀ s other, clean s → clean other →
      Follows (fun first second => first.1 = none → second.1 = none ∧ alike first.2 second.2) (c.init s) (d.init other))
    (next : ∀ s other, alike s other →
      Follows (fun first second => c.error first.2 = none → first.1 = second.1 ∧ alike first.2 second.2 ∧
        (first.1 = true → c.current first.2 = d.current second.2)) (c.next s) (d.next other))
    (cleaned : ∀ s other, alike s other → clean s ∧ clean other)
    (errors : ∀ s other, alike s other → c.error s = none ∧ d.error other = none) : c.quiet.Restarts d clean alike where
  init s other first second := by
    intro result returned
    obtain ⟨returned, fine, -⟩ := quiet_init.mp returned
    obtain ⟨result', returned', same⟩ := init s other first second result returned
    exact ⟨result', returned', fine, same fine⟩
  next s other same := by
    intro result returned
    obtain ⟨returned, fine⟩ := quiet_next.mp returned
    obtain ⟨result', returned', same'⟩ := next s other same result returned
    exact ⟨result', returned', same' fine⟩
  clean := cleaned
  errors := errors

section
variable (restarts : c.Restarts d clean alike)

include restarts

theorem quiet : c.quiet.Restarts d clean alike :=
  of_quiet (fun s other first second => (restarts.init s other first second).mono fun _ _ same _ => same.2)
    (fun s other same => (restarts.next s other same).mono fun _ _ same _ => same) restarts.clean restarts.errors

theorem yields (same : alike s other) (yields : c.Yields s items) : d.Yields other items := by
  induction yields generalizing other with
  | done finished =>
    obtain ⟨⟨found, after⟩, advanced, rfl, -⟩ := restarts.next _ _ same _ finished
    exact .done advanced
  | more advanced at_ _ ih =>
    obtain ⟨⟨found, after⟩, advanced', rfl, same', agree⟩ := restarts.next _ _ same _ advanced
    exact .more advanced' ((agree rfl).symm.trans at_) (ih same')

theorem clean_of_moves (same : alike s other) (moves : Relation.ReflTransGen c.Moves s later) : clean later := by
  have kept : ∃ other, alike later other := by
    induction moves with
    | refl => exact ⟨other, same⟩
    | tail _ moved ih =>
      obtain ⟨found, advanced⟩ := moved
      obtain ⟨other, same⟩ := ih
      obtain ⟨⟨found', after⟩, -, -, same', -⟩ := restarts.next _ _ same _ advanced
      exact ⟨after, same'⟩
  obtain ⟨other, same⟩ := kept
  exact (restarts.clean _ _ same).1

theorem again (ready : clean s) {start : σ} (began : c.init s = some (none, start)) (complete : c.Yields start items)
    (moves : Relation.ReflTransGen c.Moves start later) :
    ∃ start', d.init later = some (none, start') ∧ d.Yields start' items := by
  obtain ⟨_, -, -, -, same⟩ := restarts.init s s ready ready _ began
  have middle := restarts.clean_of_moves same moves
  obtain ⟨⟨err, start'⟩, began', -, rfl, same'⟩ := restarts.init s later ready middle _ began
  exact ⟨start', began', restarts.yields same' complete⟩

end

end Restarts
end Cursor
end GoDB.Lib
