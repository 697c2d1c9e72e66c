import Mathlib.Data.List.Basic

/-! Overwriting a stretch of a list, as Go's `copy` into a slice does. -/

namespace GoDB.Lib
open List

variable {α : Type} (items : List α)

def slice (start stop : Nat) : List α := (items.take stop).drop start

def copy (target source : List α) : List α := source.take target.length ++ target.drop source.length

/-- `copy(items[start:stop], source)`. -/
def copyInto (start stop : Nat) (source : List α) : List α :=
  items.take start ++ copy (slice items start stop) source ++ items.drop stop

@[simp] theorem length_copy (target source : List α) : (copy target source).length = target.length := by
  simp only [copy, length_append, length_take, length_drop]
  omega

theorem copy_eq {target source : List α} (same : source.length = target.length) : copy target source = source := by
  rw [copy, ← same, take_length, drop_eq_nil_of_le (Nat.le_of_eq same.symm), append_nil]

theorem length_slice {items : List α} {start stop : Nat} (inside : stop ≤ items.length) :
    (slice items start stop).length = stop - start := by
  simp [slice, Nat.min_eq_left inside]

section
variable {items source : List α} {start stop : Nat} (order : start ≤ stop) (inside : stop ≤ items.length)

include order inside

theorem length_copyInto (source : List α) : (copyInto items start stop source).length = items.length := by
  simp only [copyInto, length_append, length_copy, length_slice inside, length_take, length_drop]
  omega

theorem slice_copyInto_self (source : List α) :
    slice (copyInto items start stop source) start stop = copy (slice items start stop) source := by
  have first : (items.take start).length = start := by
    rw [length_take, Nat.min_eq_left (Nat.le_trans order inside)]
  have upTo : (items.take start ++ copy (slice items start stop) source).length = stop := by
    rw [length_append, first, length_copy, length_slice inside]
    omega
  rw [slice, copyInto, take_left' upTo, drop_left' first]

theorem slice_copyInto (fits : source.length = stop - start) : slice
    (copyInto items start stop source) start stop = source := by
  rw [slice_copyInto_self order inside, copy_eq (by rw [length_slice inside, fits])]

theorem slice_copyInto_before {first last : Nat} (before : last ≤ start) :
    slice (copyInto items start stop source) first last = slice items first last := by
  have enough : last ≤ (items.take start).length := by
    rw [length_take, Nat.min_eq_left (Nat.le_trans order inside)]
    exact before
  rw [slice, copyInto, append_assoc, take_append_of_le_length enough, take_take, Nat.min_eq_left before, slice]

theorem slice_copyInto_after {first last : Nat} (after : stop ≤ first) :
    slice (copyInto items start stop source) first last = slice items first last := by
  have upTo : (items.take start ++ copy (slice items start stop) source).length = stop := by
    rw [length_append, length_copy, length_slice inside, length_take]
    omega
  have rest : (copyInto items start stop source).drop stop = items.drop stop := drop_left' upTo
  obtain ⟨gap, rfl⟩ := Nat.exists_eq_add_of_le after
  rw [slice, slice, drop_take, drop_take, ← drop_drop, rest, drop_drop]

end

theorem slice_append_slice {first between last : Nat} (before : first ≤ between) (after : between ≤ last) :
    slice items first between ++ slice items between last = slice items first last := by
  obtain ⟨gap, rfl⟩ := Nat.exists_eq_add_of_le before
  have split := take_append_drop gap (slice items first last)
  rw [← split]
  simp only [slice, drop_take, take_take, drop_drop]
  congr 2 <;> omega

theorem slice_copyInto_end {items : List α} {start offset stop : Nat} (order : start + offset ≤ stop)
    (inside : stop ≤ items.length) (source : List α) :
    slice (copyInto items (start + offset) stop source) start stop =
      copyInto (slice items start stop) offset (stop - start) source := by
  rw [← slice_append_slice _ (Nat.le_add_right start offset) order, slice_copyInto_self order inside,
    slice_copyInto_before order inside (Nat.le_refl _), copyInto, drop_eq_nil_of_le (Nat.le_of_eq (length_slice inside)),
    append_nil]
  congr 1
  · simp only [slice, drop_take, take_take]
    congr 1
    omega
  · simp only [slice, drop_take, take_take, drop_drop]
    congr 2
    omega

theorem slice_append (first middle last : List α) :
    slice (first ++ middle ++ last) first.length (first.length + middle.length) = middle := by
  rw [← length_append, slice, take_left, drop_left]

theorem copyInto_append (first middle last source : List α) :
    copyInto (first ++ middle ++ last) first.length (first.length + middle.length) source =
      first ++ copy middle source ++ last := by
  rw [copyInto, slice_append, ← length_append, drop_left, append_assoc first, take_left]

end GoDB.Lib
