import GoDB.Transaction.LogRecordBuffer

/-! The buffer of log records is a stack, however its array moves. -/

namespace GoDB.Transaction.LogRecordBuffer
open Lib Storage List Option Nat

def starts (stack : List (List Byte)) : List Nat := (range stack.length).map fun i => (stack.take i).flatten.length

theorem starts_append (stack : List (List Byte)) (record : List Byte) :
    starts (stack ++ [record]) = starts stack ++ [stack.flatten.length] := by
  simp only [starts, length_append, length_singleton, range_succ, map_append, map_singleton, take_left]
  congr 1
  refine map_congr_left fun i inside => ?_
  rw [take_append_of_le_length (le_of_lt (mem_range.mp inside))]

theorem getElem?_starts {stack : List (List Byte)} {i : Nat} (inside : i < stack.length) :
    (starts stack)[i]? = some (stack.take i).flatten.length := by
  simp [starts, inside]

structure Represents (s : LogRecordBuffer) (memory : List (List Byte)) (stack : List (List Byte)) : Prop where
  holds : s.buffer.Holds memory stack.flatten
  offsets : s.offsets = starts stack

variable {s later : LogRecordBuffer} {memory memory' : List (List Byte)} {stack : List (List Byte)}

theorem represents_new (memory : List (List Byte)) :
    Represents (newLogRecordBuffer memory).1 (newLogRecordBuffer memory).2 [] :=
  ⟨⟨rfl, rfl, _, getElem?_concat_length⟩, rfl⟩

section
variable (represents : Represents s memory stack)

include represents

theorem Represents.len : s.len = stack.length := by
  rw [LogRecordBuffer.len, represents.offsets, starts, length_map, length_range]

theorem Represents.buffer_len : s.buffer.len = stack.flatten.length := by
  rw [GoSlice.len, represents.holds.start, represents.holds.stop, Nat.sub_zero]

theorem Represents.get {i : Nat} (inside : i < stack.length) : s.get memory i = some ⟨stack[i]⟩ := by
  have split : stack.flatten = (stack.take i).flatten ++ stack[i] ++ (stack.drop (i + 1)).flatten := by
    rw [← flatten_concat, take_append_getElem, ← flatten_append, take_append_drop]
  have stop : (s.offsets[i + 1]?).getD s.buffer.len = (stack.take i).flatten.length + stack[i].length := by
    rw [← length_append, ← flatten_concat, take_append_getElem, represents.offsets, represents.buffer_len]
    rcases lt_or_ge (i + 1) stack.length with more | last
    · rw [getElem?_starts more, getD_some]
    · rw [getElem?_eq_none (by simpa [starts] using last), getD_none, take_of_length_le last]
  have holds := represents.holds
  have whole := congrArg length split
  rw [length_append, length_append] at whole
  unfold LogRecordBuffer.get
  rw [stop, represents.offsets, getElem?_starts inside]
  simp only [bind_eq_bind, bind_some]
  rw [holds.sub (Nat.le_add_right ..) (by omega), bind_some]
  rw [split] at holds
  rw [holds.read]
  rfl

theorem Represents.allocate (totalSize : Nat) (spare : List Byte) : ∃ later memory', s.allocate memory totalSize spare =
        some (⟨later.buffer.array, stack.flatten.length, later.buffer.stop⟩, later, memory') ∧
      Represents later memory' (stack ++ [replicate totalSize 0]) := by
  have holds := represents.holds.append (replicate totalSize 0) spare
  unfold LogRecordBuffer.allocate
  rw [represents.buffer_len]
  generalize s.buffer.append memory (replicate totalSize 0) spare = result at holds ⊢
  obtain ⟨buffer, memory'⟩ := result
  refine ⟨⟨buffer, s.offsets ++ [stack.flatten.length]⟩, memory', ?_, by rwa [flatten_concat], ?_⟩
  · have stop : buffer.len = buffer.stop := by rw [GoSlice.len, holds.start, Nat.sub_zero]
    simp only [bind_eq_bind]
    rw [stop, holds.sub (by rw [holds.stop, length_append]; omega) (le_of_eq holds.stop)]
    rfl
  · rw [represents.offsets, starts_append]

omit represents in
theorem Represents.fill {record : List Byte} (represents : Represents s memory (stack ++ [record]))
    (writes : List (Nat × Byte)) :
    Represents s (fill ⟨s.buffer.array, stack.flatten.length, s.buffer.stop⟩ memory writes)
      (stack ++ [writes.foldl (fun record write => record.set write.1 write.2) record]) := by
  induction writes generalizing memory record with
  | nil => exact represents
  | cons write writes ih =>
    have holds := represents.holds
    rw [flatten_concat] at holds
    apply ih
    refine ⟨?_, by rw [represents.offsets, starts_append, starts_append]⟩
    rw [flatten_concat]
    exact holds.set write.1 write.2

theorem Represents.pop : ∃ later, s.pop memory = some later ∧ Represents later memory stack.dropLast := by
  unfold LogRecordBuffer.pop
  rcases stack.eq_nil_or_concat' with rfl | ⟨below, record, rfl⟩
  · rw [represents.offsets]
    exact ⟨s, rfl, represents⟩
  · have holds := represents.holds
    rw [flatten_concat] at holds
    rw [represents.offsets, starts_append, getLast?_concat, dropLast_concat, dropLast_concat]
    simp only [bind_eq_bind]
    rw [holds.sub (zero_le _) (by simp)]
    exact ⟨_, rfl, holds.shrink, rfl⟩

theorem Represents.call (request : Call) :
    ∃ later memory', call (s, memory) request = some (later, memory') ∧ Represents later memory' (pushed stack request) := by
  cases request with
  | allocate totalSize spare writes =>
    obtain ⟨later, memory', allocated, zeroed⟩ := represents.allocate totalSize spare
    exact ⟨later, _, by simp [LogRecordBuffer.call, allocated], zeroed.fill writes⟩
  | pop =>
    obtain ⟨later, popped, below⟩ := represents.pop
    exact ⟨later, memory, by simp [LogRecordBuffer.call, popped], below⟩
  | reset =>
    have cut := represents.holds.sub (le_refl 0) (zero_le _)
    exact ⟨⟨⟨s.buffer.array, 0, 0⟩, []⟩, memory, by simp [LogRecordBuffer.call, reset, cut],
      @GoSlice.Holds.shrink _ _ _ _ [] represents.holds, rfl⟩

theorem Represents.calls (requests : List Call) :
    ∃ later memory', requests.foldlM LogRecordBuffer.call (s, memory) = some (later, memory') ∧
      Represents later memory' (requests.foldl pushed stack) := by
  induction requests generalizing s memory stack with
  | nil => exact ⟨s, memory, rfl, represents⟩
  | cons request rest ih =>
    obtain ⟨_, _, called, after⟩ := represents.call request
    obtain ⟨later, memory', rest, last⟩ := ih after
    exact ⟨later, memory', by rw [foldlM_cons, called]; exact rest, last⟩

end

/-- Whatever was allocated, written, popped and reset before, `get` returns what was written for
each record on the stack, and a new record starts with zeros and leaves the others alone. -/
theorem buffer_is_stack (memory : List (List Byte)) (requests : List Call) : ∃ s memory',
    requests.foldlM call (newLogRecordBuffer memory) = some (s, memory') ∧
    s.len = (requests.foldl pushed []).length ∧
    (∀ i < s.len, s.get memory' i = (requests.foldl pushed [])[i]?.map LogRecord.mk) ∧
    ∀ totalSize spare, ∃ record later zeroed, s.allocate memory' totalSize spare = some (record, later, zeroed) ∧
      record.read zeroed = replicate totalSize 0 ∧
      ∀ writes, ∀ i < s.len, later.get (fill record zeroed writes) i = s.get memory' i := by
  obtain ⟨s, memory', ran, represents⟩ := (represents_new memory).calls requests
  generalize requests.foldl pushed [] = stack at represents ⊢
  refine ⟨s, memory', ran, represents.len, fun i inside => ?_, fun totalSize spare => ?_⟩
  · rw [represents.len] at inside
    rw [represents.get inside, getElem?_eq_getElem inside, map_some]
  · obtain ⟨later, zeroed, allocated, after⟩ := represents.allocate totalSize spare
    refine ⟨_, later, zeroed, allocated, ?_, fun writes i inside => ?_⟩
    · have holds := after.holds
      have stop := holds.stop
      rw [flatten_concat, ← append_nil (stack.flatten ++ _)] at holds
      rw [flatten_concat, length_append] at stop
      rw [stop]
      exact holds.read
    · rw [represents.len] at inside
      have below : i < (stack ++ [writes.foldl (fun record write => record.set write.1 write.2)
          (replicate totalSize 0)]).length := by rw [length_append]; omega
      rw [(after.fill writes).get below, represents.get inside, getElem_append_left inside]

end GoDB.Transaction.LogRecordBuffer
