import Mathlib.Logic.Relation
import Mathlib.Data.Finset.Card

/-! Depth-first search for a node on a cycle. The visited set is threaded
through the whole search and each visit may list the successors in an order of
its own. Fuel counts nested visits, and one more than the number of nodes is
always enough. -/

namespace GoDB.Lib.DepthFirst
open List

universe u

variable {α : Type u}

def visitAll (visit : List α → α → Option (Bool × List α)) : List α → List α → Option (Bool × List α)
  | visited, [] => some (false, visited)
  | visited, node :: rest =>
    match visit visited node with
    | none => none
    | some (true, seen) => some (true, seen)
    | some (false, seen) => visitAll visit seen rest

variable [DecidableEq α]

/-- A visited node answers whether it is the goal; a new one is marked first and
then asks its successors. There is no answer when the fuel runs out. -/
def visit (next : List α → α → List α) (goal : α) : Nat → List α → α → Option (Bool × List α)
  | 0, _, _ => none
  | fuel + 1, visited, node =>
    if node ∈ visited then some (decide (node = goal), visited)
    else visitAll (visit next goal fuel) (node :: visited) (next (node :: visited) node)

/-- The successor lists describe one finite graph, whatever order they come in. -/
structure Lists (next : List α → α → List α) (edge : α → α → Prop) (nodes : Finset α) : Prop where
  listed : ∀ visited node successor, successor ∈ next visited node ↔ edge node successor
  inside : ∀ node successor, edge node successor → successor ∈ nodes

/-- The nodes a search that answered false has closed off: nothing reached from
them is new and nothing reached from them is the goal. -/
def Closed (edge : α → α → Prop) (goal : α) (visited seen : List α) : Prop :=
  ∀ node ∈ seen, node ∉ visited → ∀ successor, edge node successor → successor ∈ seen ∧ successor ≠ goal

variable {next : List α → α → List α} {edge : α → α → Prop} {nodes : Finset α} {goal : α}

variable {answer : Bool × List α}

section
variable {search : List α → α → Option (Bool × List α)} {pending visited : List α}

omit [DecidableEq α] in
theorem visitAll_cons {node : α} {rest : List α} (answers : visitAll search visited (node :: rest) = some answer) :
    search visited node = some (true, answer.2) ∧ answer.1 = true ∨
      ∃ seen, search visited node = some (false, seen) ∧ visitAll search seen rest = some answer := by
  rcases first : search visited node with _ | ⟨_ | _, seen⟩ <;> simp only [visitAll, first] at answers
  · cases answers
  · exact .inr ⟨seen, rfl, answers⟩
  · cases answers
    exact .inl ⟨rfl, rfl⟩

omit [DecidableEq α] in
theorem visitAll_extends (grows : ∀ visited node answer, search visited node = some answer → visited ⊆ answer.2)
    (answers : visitAll search visited pending = some answer) : visited ⊆ answer.2 := by
  induction pending generalizing visited with
  | nil =>
    cases answers
    exact List.Subset.refl _
  | cons node rest ih =>
    rcases visitAll_cons answers with ⟨found, -⟩ | ⟨seen, missed, later⟩
    · exact grows visited node (true, answer.2) found
    · exact List.Subset.trans (grows visited node _ missed) (ih later)

omit [DecidableEq α] in
theorem visitAll_sound (sound : ∀ visited node seen, search visited node = some (true, seen) →
      Relation.ReflTransGen edge node goal)
    (answers : visitAll search visited pending = some answer) (found : answer.1 = true) :
    ∃ node ∈ pending, Relation.ReflTransGen edge node goal := by
  induction pending generalizing visited with
  | nil =>
    cases answers
    cases found
  | cons node rest ih =>
    rcases visitAll_cons answers with ⟨first, -⟩ | ⟨seen, -, later⟩
    · exact ⟨node, mem_cons_self, sound visited node _ first⟩
    · obtain ⟨other, member, reaches⟩ := ih later
      exact ⟨other, mem_cons_of_mem _ member, reaches⟩

end

theorem visit_extends (fuel : Nat) (visited : List α) (node : α) (answer : Bool × List α)
    (answers : visit next goal fuel visited node = some answer) : visited ⊆ answer.2 := by
  induction fuel generalizing visited node answer with
  | zero => cases answers
  | succ fuel ih =>
    unfold visit at answers
    split at answers
    · cases answers
      exact List.Subset.refl _
    · exact List.Subset.trans (subset_cons_self _ _) (visitAll_extends ih answers)

theorem visit_sound (graph : Lists next edge nodes) (fuel : Nat) (visited : List α) (node : α) (seen : List α)
    (answers : visit next goal fuel visited node = some (true, seen)) : Relation.ReflTransGen edge node goal := by
  induction fuel generalizing visited node seen with
  | zero => cases answers
  | succ fuel ih =>
    unfold visit at answers
    split at answers
    · have same : node = goal := by simpa using congrArg (Option.map Prod.fst) answers
      exact same ▸ .refl
    · obtain ⟨successor, member, reaches⟩ := visitAll_sound ih answers rfl
      exact .head ((graph.listed _ _ _).mp member) reaches

theorem fewer_left {visited : List α} {node : α} (member : node ∈ nodes) (fresh : node ∉ visited) :
    (nodes \ (node :: visited).toFinset).card < (nodes \ visited.toFinset).card := by
  apply Finset.card_lt_card
  refine ⟨fun other inside => ?_, fun all => ?_⟩
  · simp only [Finset.mem_sdiff, mem_toFinset, mem_cons, not_or] at inside ⊢
    exact ⟨inside.1, inside.2.2⟩
  · have inside := all (by simpa using And.intro member fresh)
    simp at inside

theorem left_mono {visited seen : List α} (more : visited ⊆ seen) :
    (nodes \ seen.toFinset).card ≤ (nodes \ visited.toFinset).card := by
  apply Finset.card_le_card
  intro node inside
  simp only [Finset.mem_sdiff, mem_toFinset] at inside ⊢
  exact ⟨inside.1, fun earlier => inside.2 (more earlier)⟩

def Exhausts (edge : α → α → Prop) (goal : α) (visited pending : List α) (answer : Bool × List α) : Prop :=
  answer.1 = false → (∀ node ∈ pending, node ∈ answer.2 ∧ node ≠ goal) ∧ Closed edge goal visited answer.2

theorem visitAll_exhausts {search : List α → α → Option (Bool × List α)} (fuel : Nat)
    (grows : ∀ visited node answer, search visited node = some answer → visited ⊆ answer.2)
    (exhausts : ∀ visited node, node ∈ nodes → goal ∈ visited → (nodes \ visited.toFinset).card < fuel →
      ∃ answer, search visited node = some answer ∧ Exhausts edge goal visited [node] answer)
    (pending visited : List α) (inside : ∀ node ∈ pending, node ∈ nodes) (marked : goal ∈ visited)
    (enough : (nodes \ visited.toFinset).card < fuel) :
    ∃ answer, visitAll search visited pending = some answer ∧ Exhausts edge goal visited pending answer := by
  induction pending generalizing visited with
  | nil => exact ⟨_, rfl, fun _ => ⟨nofun, fun node member fresh => absurd member fresh⟩⟩
  | cons node rest ih =>
    obtain ⟨⟨found, seen⟩, answers, first⟩ := exhausts visited node (inside node mem_cons_self) marked enough
    have grown := grows visited node _ answers
    cases found with
    | true => exact ⟨(true, seen), by simp [visitAll, answers], nofun⟩
    | false =>
      obtain ⟨reached, closed⟩ := first rfl
      obtain ⟨answer, rested, others⟩ := ih seen (fun other member => inside other (mem_cons_of_mem _ member))
        (grown marked) (Nat.lt_of_le_of_lt (left_mono grown) enough)
      have kept := visitAll_extends grows rested
      refine ⟨answer, by simp [visitAll, answers, rested], fun missed => ?_⟩
      obtain ⟨others, later⟩ := others missed
      refine ⟨forall_mem_cons.mpr ⟨?_, others⟩, fun other member fresh successor leads => ?_⟩
      · exact (forall_mem_singleton.mp reached).imp_left fun present => kept present
      · -- a node is closed by the visit that first saw it
        by_cases early : other ∈ seen
        · exact (closed other early fresh successor leads).imp_left fun present => kept present
        · exact later other member early successor leads

section
variable (graph : Lists next edge nodes) (fuel : Nat)

include graph

theorem visit_exhausts (visited : List α) (node : α) (inside : node ∈ nodes) (marked : goal ∈ visited)
    (enough : (nodes \ visited.toFinset).card < fuel) :
    ∃ answer, visit next goal fuel visited node = some answer ∧ Exhausts edge goal visited [node] answer := by
  induction fuel generalizing visited node with
  | zero => exact absurd enough (Nat.not_lt_zero _)
  | succ fuel ih =>
    unfold visit
    split
    next seen =>
      refine ⟨_, rfl, fun missed => ⟨forall_mem_singleton.mpr ⟨seen, by simpa using missed⟩, ?_⟩⟩
      exact fun other member fresh => absurd member fresh
    next fresh =>
      have left := fewer_left inside fresh
      obtain ⟨answer, answers, exhausts⟩ := visitAll_exhausts fuel (visit_extends fuel) ih (next (node :: visited) node)
        (node :: visited) (fun successor member => graph.inside _ _ ((graph.listed _ _ _).mp member))
        (mem_cons_of_mem _ marked) (by omega)
      refine ⟨answer, answers, fun missed => ?_⟩
      obtain ⟨all, closed⟩ := exhausts missed
      refine ⟨forall_mem_singleton.mpr ⟨visitAll_extends (visit_extends fuel) answers mem_cons_self, ?_⟩, ?_⟩
      · rintro rfl
        exact fresh marked
      · intro other member new successor leads
        by_cases same : other = node
        · subst other
          exact all successor ((graph.listed _ _ _).mpr leads)
        · exact closed other member (by simp [same, new]) successor leads

/-- With fuel for every node, the search from a node with nothing visited ends and finds
exactly the nodes that lie on a cycle. -/
theorem visit_iff_cycle (member : goal ∈ nodes) (enough : nodes.card < fuel) : ∃ answer,
    visit next goal fuel [] goal = some answer ∧ (answer.1 = true ↔ Relation.TransGen edge goal goal) := by
  obtain ⟨fuel, rfl⟩ : ∃ less, fuel = less + 1 := ⟨fuel - 1, by omega⟩
  have left := fewer_left member (not_mem_nil : goal ∉ [])
  obtain ⟨answer, answers, exhausts⟩ := visitAll_exhausts fuel (visit_extends fuel)
    (fun visited node => visit_exhausts graph fuel visited node) (next [goal] goal) [goal]
    (fun successor listed => graph.inside _ _ ((graph.listed _ _ _).mp listed)) mem_cons_self (by simp at left ⊢; omega)
  refine ⟨answer, (if_neg not_mem_nil).trans answers, fun found => ?_, fun cycle => ?_⟩
  · obtain ⟨successor, listed, reaches⟩ := visitAll_sound (visit_sound graph fuel) answers found
    exact .head' ((graph.listed _ _ _).mp listed) reaches
  · by_contra missed
    obtain ⟨all, closed⟩ := exhausts (by simpa using missed)
    -- everything reached from the goal is seen and has no edge back to it
    have leads : ∀ node ∈ answer.2, ∀ successor, edge node successor → successor ∈ answer.2 ∧ successor ≠ goal := by
      intro node seen successor step
      by_cases same : node = goal
      · subst node
        exact all successor ((graph.listed _ _ _).mpr step)
      · exact closed node seen (by simpa using same) successor step
    have reached : ∀ node, Relation.TransGen edge goal node → node ∈ answer.2 ∧ node ≠ goal := by
      intro node path
      induction path with
      | single step => exact leads goal (visitAll_extends (visit_extends fuel) answers mem_cons_self) _ step
      | tail _ step ih => exact leads _ ih.1 _ step
    exact (reached goal cycle).2 rfl

end

end GoDB.Lib.DepthFirst
