import GoDB.Lib.Splice

/-! Slices as Go has them: stretches of arrays that other slices may see as well. -/

namespace GoDB.Lib
open List

variable {α : Type}

/-- The capacity reaches to the end of the array. -/
structure GoSlice where
  array : Nat
  start : Nat
  stop : Nat

namespace GoSlice

def cells (s : GoSlice) (memory : List (List α)) : List α := memory.getD s.array []

def read (s : GoSlice) (memory : List (List α)) : List α := slice (s.cells memory) s.start s.stop

def len (s : GoSlice) : Nat := s.stop - s.start

/-- `s[first:last]`, within the capacity. -/
def sub (s : GoSlice) (memory : List (List α)) (first last : Nat) : Option GoSlice :=
  if first ≤ last ∧ s.start + last ≤ (s.cells memory).length then some ⟨s.array, s.start + first, s.start + last⟩ else none

/-- `s[position] = item`; outside the slice nothing is written. -/
def set (s : GoSlice) (memory : List (List α)) (position : Nat) (item : α) : List (List α) :=
  if s.start + position < s.stop then memory.modify s.array (List.set · (s.start + position) item) else memory

/-- `append(s, items...)`. An array that is too small is left for a new one, which has `spare` behind the items. -/
def append (s : GoSlice) (memory : List (List α)) (items spare : List α) : GoSlice × List (List α) :=
  if s.stop + items.length ≤ (s.cells memory).length then
    ({ s with stop := s.stop + items.length }, memory.modify s.array (copyInto · s.stop (s.stop + items.length) items))
  else (⟨memory.length, 0, s.len + items.length⟩, memory ++ [s.read memory ++ items ++ spare])

structure Holds (s : GoSlice) (memory : List (List α)) (items : List α) : Prop where
  start : s.start = 0
  stop : s.stop = items.length
  array : ∃ rest, memory[s.array]? = some (items ++ rest)

variable {s : GoSlice} {memory : List (List α)} {items record : List α}

theorem Holds.cells (holds : s.Holds memory items) : ∃ rest, s.cells memory = items ++ rest := by
  obtain ⟨rest, here⟩ := holds.array
  exact ⟨rest, by rw [GoSlice.cells, getD_eq_getElem?_getD, here]; rfl⟩

theorem Holds.append (holds : s.Holds memory items) (more spare : List α) :
    (s.append memory more spare).1.Holds (s.append memory more spare).2 (items ++ more) := by
  obtain ⟨array, _, _⟩ := s
  obtain ⟨rfl, rfl, rest, here⟩ := holds
  have cells : GoSlice.cells ⟨array, 0, items.length⟩ memory = items ++ rest := by
    rw [GoSlice.cells, getD_eq_getElem?_getD, here]
    rfl
  unfold GoSlice.append
  rw [cells]
  split
  next room =>
    replace room : more.length ≤ rest.length := by simpa using room
    refine ⟨rfl, length_append.symm, rest.drop more.length, ?_⟩
    have size : more.length = (rest.take more.length).length := by rw [length_take, Nat.min_eq_left room]
    have split := copyInto_append items (rest.take more.length) (rest.drop more.length) more
    rw [← size, copy_eq size, append_assoc, take_append_drop] at split
    rw [getElem?_modify_eq, here]
    exact congrArg some split
  next =>
    refine ⟨rfl, by simp [len], spare, ?_⟩
    rw [getElem?_concat_length, read, cells, Lib.slice, take_left, drop_zero]

theorem Holds.set (holds : s.Holds memory (items ++ record)) (position : Nat) (item : α) :
    s.Holds ({ s with start := items.length }.set memory position item) (items ++ record.set position item) := by
  obtain ⟨start, stop, rest, here⟩ := holds
  refine ⟨start, by simp [stop], rest, ?_⟩
  unfold GoSlice.set
  split
  next inside =>
    replace inside : position < record.length := by simpa [stop] using inside
    rw [getElem?_modify_eq, here]
    simp [inside]
  next outside =>
    replace outside : record.length ≤ position := by simpa [stop] using outside
    rw [here, set_eq_of_length_le outside]

theorem Holds.sub (holds : s.Holds memory items) {first last : Nat} (order : first ≤ last) (inside : last ≤ items.length) :
    s.sub memory first last = some ⟨s.array, first, last⟩ := by
  obtain ⟨rest, cells⟩ := holds.cells
  unfold GoSlice.sub
  rw [if_pos]
  · rw [holds.start, Nat.zero_add, Nat.zero_add]
  · rw [cells, holds.start, length_append]
    omega

theorem Holds.shrink {kept : List α} (holds : s.Holds memory (kept ++ items)) :
    Holds ⟨s.array, 0, kept.length⟩ memory kept := by
  obtain ⟨rest, here⟩ := holds.array
  exact ⟨rfl, rfl, items ++ rest, by rw [here, append_assoc]⟩

theorem Holds.read {before after : List α} (holds : s.Holds memory (before ++ record ++ after)) :
    GoSlice.read ⟨s.array, before.length, before.length + record.length⟩ memory = record := by
  obtain ⟨rest, cells⟩ := holds.cells
  rw [GoSlice.read]
  refine (congrArg (slice · _ _) cells).trans ?_
  rw [append_assoc (before ++ record), slice_append]

end GoSlice
end GoDB.Lib
