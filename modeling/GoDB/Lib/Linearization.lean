import Mathlib.Data.List.Nodup
import Mathlib.Order.Interval.Finset.Nat

/-! Histories of calls that overlap, and orders of the calls that explain them. -/

namespace GoDB.Lib
open List Function

/-- What the callers see. A call keeps its number. -/
inductive Event (κ ρ : Type) where
  | invoke (id : Nat) (call : κ)
  | respond (id : Nat) (answer : ρ)

structure Effect (κ ρ : Type) where
  id : Nat
  call : κ
  answer : ρ

variable {σ κ ρ : Type}

inductive Sequential (applies : σ → κ → ρ → σ → Prop) (start : σ) : List (Effect κ ρ) → σ → Prop where
  | nil : Sequential applies start [] start
  | snoc {order state effect final} (earlier : Sequential applies start order state)
      (last : applies state effect.call effect.answer final) :
      Sequential applies start (order ++ [effect]) final

/-- The order explains the history: it is a sequential execution in which every call
that was answered has its answer, and in which no call comes before one that was
answered before it was made. -/
structure Linearization (applies : σ → κ → ρ → σ → Prop) (start : σ) (history : List (Event κ ρ))
    (order : List (Effect κ ρ)) (final : σ) : Prop where
  sequential : Sequential applies start order final
  once : (order.map Effect.id).Nodup
  invoked : ∀ effect ∈ order, .invoke effect.id effect.call ∈ history
  answered : ∀ id answer, .respond id answer ∈ history → ∃ call, ⟨id, call, answer⟩ ∈ order
  in_time : ∀ early answer late call, [.respond early answer, .invoke late call].Sublist history →
    late ∈ order.map Effect.id → [early, late].Sublist (order.map Effect.id)

namespace Linearization
variable {applies : σ → κ → ρ → σ → Prop} {start final later : σ} {history : List (Event κ ρ)}
variable {order : List (Effect κ ρ)} {id : Nat} {call : κ} {answer : ρ}

def Pending (order : List (Effect κ ρ)) (id : Nat) : Prop := id ∉ order.map Effect.id

theorem nil : Linearization applies start [] [] start where
  sequential := .nil
  once := .nil
  invoked _ absent := by cases absent
  answered _ _ absent := by cases absent
  in_time _ _ _ _ absent := by cases absent

theorem pair_of_append {α : Type} {first second last : α} {items : List α} (other : second ≠ last)
    (pair : [first, second].Sublist (items ++ [last])) : [first, second].Sublist items := by
  obtain ⟨before, after, split, inside, rest⟩ := sublist_append_iff.mp pair
  rcases sublist_singleton.mp rest with rfl | rfl
  · rwa [split, append_nil]
  · have same := congrArg getLast? split
    simp [other] at same

section
variable (linear : Linearization applies start history order final)

include linear

theorem invoke (fresh : Pending order id) : Linearization applies start (history ++ [.invoke id call]) order final where
  sequential := linear.sequential
  once := linear.once
  invoked effect listed := mem_append_left _ (linear.invoked effect listed)
  answered other answer responded := by
    have earlier : .respond other answer ∈ history := by simpa using responded
    exact linear.answered other answer earlier
  in_time early answer late _ apart took := by
    have other : late ≠ id := fun same => fresh (same ▸ took)
    exact linear.in_time early answer late _ (pair_of_append (by simp [other]) apart) took

theorem respond (took : ⟨id, call, answer⟩ ∈ order) :
    Linearization applies start (history ++ [.respond id answer]) order final where
  sequential := linear.sequential
  once := linear.once
  invoked effect listed := mem_append_left _ (linear.invoked effect listed)
  answered other answer responded := by
    rcases mem_append.mp responded with earlier | last
    · exact linear.answered other answer earlier
    · cases mem_singleton.mp last
      exact ⟨call, took⟩
  in_time early answer late _ apart took :=
    linear.in_time early answer late _ (pair_of_append (by simp) apart) took

theorem effect (invoked : .invoke id call ∈ history) (pending : Pending order id) (made : applies final call answer later) :
    Linearization applies start history (order ++ [⟨id, call, answer⟩]) later where
  sequential := .snoc linear.sequential made
  once := by
    rw [map_append]
    exact linear.once.append (nodup_singleton id) (disjoint_singleton.mpr pending)
  invoked effect listed := by
    rcases mem_append.mp listed with earlier | last
    · exact linear.invoked effect earlier
    · cases mem_singleton.mp last
      exact invoked
  answered other answer responded := by
    obtain ⟨call, listed⟩ := linear.answered other answer responded
    exact ⟨call, mem_append_left _ listed⟩
  in_time early answer late _ apart took := by
    rw [map_append] at took ⊢
    rcases mem_append.mp took with earlier | last
    · exact (linear.in_time early answer late _ apart earlier).trans (sublist_append_left ..)
    · obtain ⟨call, listed⟩ := linear.answered early answer (apart.subset (mem_cons_self ..))
      rw [mem_singleton.mp last]
      have before : [early].Sublist (order.map Effect.id) := singleton_sublist.mpr (mem_map_of_mem listed)
      exact before.append (List.Sublist.refl _)

end

end Linearization

theorem filterMap_concat {α β : Type} (f : α → Option β) (items : List α) (last : α) :
    (items ++ [last]).filterMap f = items.filterMap f ++ (f last).toList := by
  cases found : f last <;> simp [found]

inductive Progress (ρ : Type) where
  | pending
  | took (answer : ρ)
  | returned

/-- The order explains the history, and every call is in the order once it has taken effect. -/
structure Explained (applies : σ → κ → ρ → σ → Prop) (start : σ) (calls : Nat → Option (κ × Progress ρ))
    (history : List (Event κ ρ)) (order : List (Effect κ ρ)) (final : σ) : Prop where
  linear : Linearization applies start history order final
  known : ∀ id call, .invoke id call ∈ history ↔ ∃ progress, calls id = some (call, progress)
  listed : ∀ id call answer, calls id = some (call, .took answer) → ⟨id, call, answer⟩ ∈ order
  pending : ∀ id call, calls id = some (call, .pending) → Linearization.Pending order id

namespace Explained
variable {applies : σ → κ → ρ → σ → Prop} {start final later : σ} {calls : Nat → Option (κ × Progress ρ)}
variable {history : List (Event κ ρ)} {order : List (Effect κ ρ)} {id : Nat} {call : κ} {answer : ρ}

theorem nil : Explained applies start (fun _ => none) [] [] start where
  linear := .nil
  known := by simp
  listed := by simp
  pending := by simp

variable (explained : Explained applies start calls history order final)

include explained

theorem move {grown : List (Event κ ρ)} {longer : List (Effect κ ρ)} {progress : Progress ρ}
    (linear : Linearization applies start grown longer later) (kept : order ⊆ longer)
    (known : ∀ call', .invoke id call' ∈ grown ↔ call = call')
    (others : ∀ other, other ≠ id → (∀ call', .invoke other call' ∈ grown ↔ .invoke other call' ∈ history) ∧
      (Linearization.Pending order other → Linearization.Pending longer other))
    (listed : ∀ answer, progress = .took answer → ⟨id, call, answer⟩ ∈ longer)
    (pending : progress = .pending → Linearization.Pending longer id) :
    Explained applies start (Function.update calls id (some (call, progress))) grown longer later := by
  refine ⟨linear, fun other call' => ?_, fun other call' answer there => ?_, fun other call' there => ?_⟩
  · rcases eq_or_ne other id with rfl | apart
    · simp [known]
    · rw [(others other apart).1, explained.known, update_of_ne apart]
  · rcases eq_or_ne other id with rfl | apart
    · rw [update_self] at there
      cases there
      exact listed answer rfl
    · rw [update_of_ne apart] at there
      exact kept (explained.listed other call' answer there)
  · rcases eq_or_ne other id with rfl | apart
    · rw [update_self] at there
      cases there
      exact pending rfl
    · rw [update_of_ne apart] at there
      exact (others other apart).2 (explained.pending other call' there)

theorem invoke (fresh : calls id = none) :
    Explained applies start (Function.update calls id (some (call, .pending))) (history ++ [.invoke id call]) order final := by
  have unknown : Linearization.Pending order id := by
    intro member
    obtain ⟨effect, listed, rfl⟩ := mem_map.mp member
    obtain ⟨progress, known⟩ := (explained.known _ _).mp (explained.linear.invoked effect listed)
    rw [fresh] at known
    cases known
  exact explained.move (explained.linear.invoke unknown) (List.Subset.refl _)
    (fun _ => by simp [explained.known, fresh, eq_comm])
    (fun _ apart => ⟨fun _ => by simp [apart], fun waits => waits⟩) nofun fun _ => unknown

theorem effect (here : calls id = some (call, .pending)) (made : applies final call answer later) :
    Explained applies start (Function.update calls id (some (call, .took answer))) history (order ++ [⟨id, call, answer⟩])
      later := by
  have invoked := (explained.known id call).mpr ⟨_, here⟩
  refine explained.move (explained.linear.effect invoked (explained.pending id call here) made) (subset_append_left ..)
    (fun _ => by simp [explained.known, here]) (fun _ apart => ⟨fun _ => Iff.rfl, fun waits => ?_⟩) ?_ nofun
  · simpa [Linearization.Pending, apart] using waits
  · rintro _ ⟨⟩
    exact mem_append_right _ (mem_singleton_self _)

theorem respond (here : calls id = some (call, .took answer)) :
    Explained applies start (Function.update calls id (some (call, .returned))) (history ++ [.respond id answer]) order
      final :=
  explained.move (explained.linear.respond (explained.listed id call answer here)) (List.Subset.refl _)
    (fun _ => by simp [explained.known, here]) (fun _ _ => ⟨fun _ => by simp, fun waits => waits⟩) nofun nofun

theorem effects {more : List (Effect κ ρ)} {after : Nat → Option (κ × Progress ρ)} (distinct : (more.map Effect.id).Nodup)
    (ready : ∀ effect ∈ more, calls effect.id = some (effect.call, .pending) ∧ applies final effect.call effect.answer final)
    (took : ∀ effect ∈ more, after effect.id = some (effect.call, .took effect.answer))
    (others : ∀ id, id ∉ more.map Effect.id → after id = calls id) :
    Explained applies start after history (order ++ more) final := by
  induction more generalizing order calls with
  | nil => rwa [append_nil, funext fun id => others id not_mem_nil]
  | cons first rest ih =>
    obtain ⟨⟨waits, made⟩, ready⟩ := forall_mem_cons.mp ready
    obtain ⟨tookFirst, took⟩ := forall_mem_cons.mp took
    obtain ⟨apart, distinct⟩ := nodup_cons.mp distinct
    rw [← singleton_append, ← append_assoc]
    refine ih (explained.effect waits made) distinct (fun effect listed => ?_) took fun id absent => ?_
    · have other : effect.id ≠ first.id := fun same => apart (same ▸ mem_map_of_mem listed)
      rw [update_of_ne other]
      exact ready effect listed
    · rcases eq_or_ne id first.id with rfl | other
      · rw [update_self, tookFirst]
      · rw [update_of_ne other]
        exact others id (by simp [other, absent])

end Explained

/-! Calls that are kept in a list. -/

section Calls
variable {γ : Type} {calls later : List γ} {id : Nat} {running turned : γ}

/-- One of the calls is where it is now, and the others are where they were. -/
def Turned (calls later : List γ) (id : Nat) (turned : γ) : Prop :=
  ∀ other : Nat, later[other]? = if other = id then some turned else calls[other]?

theorem turned_modify (here : calls[id]? = some running) (f : γ → γ) : Turned calls (calls.modify id f) id (f running) := by
  intro other
  by_cases same : other = id
  · subst other
    simp [here]
  · simp [same, Ne.symm same]

theorem turned_concat (calls : List γ) (last : γ) : Turned calls (calls ++ [last]) calls.length last := by
  intro other
  by_cases same : other = calls.length
  · subst other
    simp
  · rw [if_neg same]
    rcases Nat.lt_or_gt_of_ne same with inside | beyond
    · exact getElem?_append_left inside
    · rw [getElem?_eq_none beyond.le, getElem?_eq_none (by simpa [Nat.succ_le_iff] using beyond)]

namespace Turned
variable (turns : Turned calls later id turned)

include turns

theorem self : later[id]? = some turned := by
  rw [turns, if_pos rfl]

theorem other {other : Nat} (apart : other ≠ id) : later[other]? = calls[other]? := by
  rw [turns, if_neg apart]

theorem cases {other : Nat} (here : later[other]? = some running) :
    other = id ∧ running = turned ∨ other ≠ id ∧ calls[other]? = some running := by
  by_cases same : other = id
  · subst other
    exact .inl ⟨rfl, Option.some.inj (here.symm.trans turns.self)⟩
  · exact .inr ⟨same, (turns.other same).symm.trans here⟩

end Turned

def progressOf (view : γ → κ × Progress ρ) (calls : List γ) (id : Nat) : Option (κ × Progress ρ) := (calls[id]?).map view

variable {view after : γ → κ × Progress ρ}

theorem progressOf_of (here : calls[id]? = some running) : progressOf view calls id = some (view running) := by
  rw [progressOf, here, Option.map_some]

theorem progressOf_turned (turns : Turned calls later id turned)
    (kept : ∀ other running, other ≠ id → calls[other]? = some running → after running = view running) :
    progressOf after later = Function.update (progressOf view calls) id (some (after turned)) := by
  funext other
  rcases eq_or_ne other id with rfl | apart
  · rw [update_self, progressOf_of turns.self]
  · rw [update_of_ne apart, progressOf, progressOf, turns.other apart]
    exact Option.map_congr fun running there => kept other running apart there

namespace Explained
variable {applies : σ → κ → ρ → σ → Prop} {start final changed : σ} {history : List (Event κ ρ)}
variable {order : List (Effect κ ρ)} {call : κ} {answer : ρ}
variable (explained : Explained applies start (progressOf view calls) history order final)
variable (turns : Turned calls later id turned)
variable (kept : ∀ other running, other ≠ id → calls[other]? = some running → after running = view running)

include explained turns kept

theorem silent (here : calls[id]? = some running) (same : after turned = view running) :
    Explained applies start (progressOf after later) history order final := by
  rwa [progressOf_turned turns kept, same, ← progressOf_of here, update_eq_self]

theorem single (here : calls[id]? = some running) (idle : view running = (call, .pending))
    (took : after turned = (call, .took answer)) (made : applies final call answer changed) :
    Explained applies start (progressOf after later) history (order ++ [⟨id, call, answer⟩]) changed := by
  rw [progressOf_turned turns kept, took]
  exact explained.effect (idle ▸ progressOf_of here) made

theorem entered (absent : calls[id]? = none) (begins : after turned = (call, .pending)) :
    Explained applies start (progressOf after later) (history ++ [.invoke id call]) order final := by
  rw [progressOf_turned turns kept, begins]
  exact explained.invoke (by rw [progressOf, absent, Option.map_none])

theorem answered (here : calls[id]? = some running) (took : view running = (call, .took answer))
    (ends : after turned = (call, .returned)) :
    Explained applies start (progressOf after later) (history ++ [.respond id answer]) order final := by
  rw [progressOf_turned turns kept, ends]
  exact explained.respond (took ▸ progressOf_of here)

end Explained

end Calls

theorem exists_listing {bound : Nat} {chosen : Effect κ ρ → Prop} (bounded : ∀ effect, chosen effect → effect.id < bound)
    (unique : ∀ one other, chosen one → chosen other → one.id = other.id → one = other) :
    ∃ list : List (Effect κ ρ), (list.map Effect.id).Nodup ∧ ∀ effect, effect ∈ list ↔ chosen effect := by
  have injective : Set.InjOn Effect.id {effect | chosen effect} := fun one first other second => unique one other first second
  have maps : Set.MapsTo Effect.id {effect | chosen effect} (Set.Iio bound) := bounded
  have finite := Set.Finite.of_injOn maps injective (Set.finite_Iio bound)
  refine ⟨finite.toFinset.toList, finite.toFinset.nodup_toList.map_on fun one first other second => ?_, by simp⟩
  rw [Finset.mem_toList, finite.mem_toFinset] at first second
  exact injective first second

end GoDB.Lib
