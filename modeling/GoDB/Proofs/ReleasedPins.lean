import GoDB.Execution.PinnedScan

/-! What a sequential scan has taken is released at its end, unless an iterator that has a
page is replaced. -/

namespace GoDB.Execution
open Lib List

namespace PinnedScan

def own (currentFrame : Option Nat) (hasLock : Bool) : List Hold :=
  match currentFrame with
  | some frame => (if hasLock then [.latch frame] else []) ++ [.pin frame]
  | none => []

structure Holding (s : PinnedScan) (leaked : List Hold) : Prop where
  held : s.held = own s.currentFrame s.hasLock ++ leaked
  framed : s.hasLock = true → s.currentFrame.isSome = true

variable {s : PinnedScan} {leaked : List Hold}

theorem holding_of_unlocked (unlocked : s.hasLock = false) (held : s.held = own s.currentFrame false ++ leaked) :
    s.Holding leaked :=
  ⟨unlocked ▸ held, by simp [unlocked]⟩

theorem release_cons (hold : Hold) (held : List Hold) : hold.release (hold :: held) = some held := by
  simp [Hold.release]

theorem unlock_of_holding (holding : s.Holding leaked) :
    s.unlock = some { s with hasLock := false, held := own s.currentFrame false ++ leaked } := by
  obtain ⟨held, framed⟩ := holding
  cases locked : s.hasLock with
  | false =>
    cases s
    simp_all [unlock]
  | true =>
    obtain ⟨frame, at_⟩ := Option.isSome_iff_exists.mp (framed locked)
    simp [unlock, locked, at_, held, own, release_cons]

theorem close_of_holding (holding : s.Holding leaked) :
    s.close = some { s with currentFrame := none, hasLock := false, held := leaked } := by
  rw [close, unlock_of_holding holding]
  cases at_ : s.currentFrame with
  | none => simp [own]
  | some frame => simp [own, release_cons]

theorem frame_of_holding {pages : PagesNow} {frame : Nat} {held : List Hold} (holding : s.Holding leaked)
    (unlocked : s.hasLock = false) (found : s.frame pages = some (frame, held)) : held = .pin frame :: leaked := by
  obtain ⟨same, -⟩ := holding
  rw [PinnedScan.frame] at found
  split at found
  next at_ =>
    cases found
    simpa [at_, unlocked, own] using same
  next at_ =>
    split at found
    · cases found
      simpa [at_, own] using same
    · cases found

theorem walk_of_holding (pages : PagesNow) (holding : s.Holding leaked) (unlocked : s.hasLock = false) :
    ∃ found later, walk pages s = some (found, later) ∧ later.Holding leaked := by
  fun_induction walk pages s with
  | case1 s past => exact ⟨_, _, rfl, holding.held, holding.framed⟩
  | case2 s inside missing => exact ⟨_, _, rfl, holding.held, holding.framed⟩
  | case3 s inside frame held found past unclosed =>
    obtain rfl := frame_of_holding holding unlocked found
    rw [@close_of_holding _ leaked ⟨by simp [own, unlocked], by simp⟩] at unclosed
    cases unclosed
  | case4 s inside frame held found past closed left ih =>
    obtain rfl := frame_of_holding holding unlocked found
    rw [@close_of_holding _ leaked ⟨by simp [own, unlocked], by simp⟩] at left
    cases left
    exact ih (holding_of_unlocked rfl rfl) rfl
  | case5 s inside frame held found =>
    obtain rfl := frame_of_holding holding unlocked found
    exact ⟨_, _, rfl, rfl, fun _ => rfl⟩
  | case6 s inside frame held found before free ih =>
    obtain rfl := frame_of_holding holding unlocked found
    exact ih (holding_of_unlocked unlocked rfl) unlocked

def Forgets (s : PinnedScan) (call : SeqScanCall) : Prop :=
  match call with
  | .init _ => s.currentFrame.isSome
  | .next _ | .close => False

theorem perform_of_holding (holding : s.Holding leaked) (call : SeqScanCall) : ∃ later forgotten, s.perform call = some later ∧
    later.Holding (forgotten ++ leaked) ∧ (forgotten = [] ↔ ¬ s.Forgets call) := by
  cases call with
  | init numPages =>
    refine ⟨_, own s.currentFrame s.hasLock, rfl, ?_, ?_⟩
    · cases numPages <;> exact holding_of_unlocked rfl holding.held
    · cases at_ : s.currentFrame <;> simp [own, Forgets, at_]
  | next pages =>
    obtain ⟨found, later, walked, kept⟩ := @walk_of_holding
      { s with hasLock := false, held := own s.currentFrame false ++ leaked } leaked pages (holding_of_unlocked rfl rfl) rfl
    refine ⟨later, [], ?_, kept, by simp [Forgets]⟩
    simp [perform, next, unlock_of_holding holding, walked]
  | close => exact ⟨_, [], close_of_holding holding, holding_of_unlocked rfl rfl, by simp [Forgets]⟩

def Performs (s : PinnedScan) (call : SeqScanCall) (later : PinnedScan) : Prop := s.perform call = some later

def isPin : Hold → Bool
  | .pin _ => true
  | .latch _ => false

def Modest (s : PinnedScan) : Prop := s.held.countP isPin ≤ 1 ∧ s.held.countP (!isPin ·) ≤ 1

theorem modest_of_holding (holding : s.Holding []) : s.Modest := by
  rw [Modest, holding.held]
  cases s.currentFrame <;> cases s.hasLock <;> simp [own, isPin]

theorem exists_run (calls : List SeqScanCall) : ∃ steps final leaked, Run Performs new steps final ∧
    steps.map (·.label) = calls ∧ final.Holding leaked ∧
    (leaked = [] → ∀ taken ∈ steps, taken.after.Modest) ∧
      (leaked = [] ↔ ∀ taken ∈ steps, ¬ taken.before.Forgets taken.label) := by
  induction calls using reverseRecOn with
  | nil => exact ⟨[], new, [], .nil, rfl, holding_of_unlocked rfl rfl, fun _ => forall_mem_nil _, by simp⟩
  | append_singleton calls call ih =>
    obtain ⟨steps, final, leaked, run, rfl, holding, modest, exactly⟩ := ih
    obtain ⟨later, forgotten, performed, kept, forgets⟩ := perform_of_holding holding call
    refine ⟨_, later, _, run.snoc performed, by simp, kept, fun none => ?_, ?_⟩
    · obtain ⟨rfl, rfl⟩ := append_eq_nil_iff.mp none
      exact forall_mem_append.mpr ⟨modest rfl, forall_mem_singleton.mpr (modest_of_holding kept)⟩
    · rw [append_eq_nil_iff, forall_mem_append, forall_mem_singleton, forgets, exactly]
      exact and_comm

/-- Calls up to the last `Close` release all that was taken, and hold at most a pin and a latch in
between, exactly if no `Init` comes while the iterator has a page. -/
theorem scan_releases_iff (calls : List SeqScanCall) : ∃ steps final, Run Performs new steps final ∧
    steps.map (·.label) = calls ++ [.close] ∧
    ((final.held = [] ∧ ∀ taken ∈ steps, taken.after.Modest) ↔ ∀ taken ∈ steps, ¬ taken.before.Forgets taken.label) := by
  obtain ⟨steps, final, leaked, run, rfl, holding, modest, exactly⟩ := exists_run calls
  have closed := close_of_holding holding
  refine ⟨_, _, run.extend .close closed, by simp, ?_⟩
  have last : ¬ final.Forgets .close := id
  simp only [forall_mem_append, forall_mem_singleton, last, not_false_iff, and_true, ← exactly]
  constructor
  · exact fun released => released.1
  · intro none
    exact ⟨none, modest none, by simp [Modest, none]⟩

/-- The second `Init` leaves the pin and the latch of the first page behind. -/
theorem second_init_leaks : ([.init (some 1), .next ⟨fun _ => true, fun _ => 1, fun _ _ => true⟩, .init (some 1), .close].foldlM
    perform new).map (·.held) = some [.latch 0, .pin 0] := by
  simp [perform, init, new, next, unlock, walk, frame, close]

end PinnedScan
end GoDB.Execution
