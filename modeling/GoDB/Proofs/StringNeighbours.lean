import GoDB.Common.Successor
import GoDB.Lib.BoundedLex
import Mathlib.Algebra.Group.Fin.Basic

/-! The next and the previous string against the order of `Compare`. `Decrement`
always finds the string just below. `Increment` fills up with zero bytes what a
carry leaves behind, where the string just above ends at the carry. -/

namespace GoDB.Common
open Lib List Value BoundedLex

structure IsNext (s t : Text) : Prop where
  above : (string s).compare (.string t) = .lt
  least : ∀ u : Text, (string s).compare (.string u) = .lt → (string t).compare (.string u) ≠ .gt

structure IsPrevious (s t : Text) : Prop where
  below : (string t).compare (.string s) = .lt
  greatest : ∀ u : Text, (string u).compare (.string s) = .lt → (string u).compare (.string t) ≠ .gt

def maximumText : Text := ⟨replicate stringLength 255, length_replicate.le⟩

/-- Both neighbours that there are of a string are found, and each way back
leads to the string again. -/
structure Neighboured (s : Text) : Prop where
  next : s ≠ maximumText → ∃ t, (string s).increment = some (.string t) ∧ IsNext s t ∧
    (string t).decrement = some (.string s)
  previous : s.val ≠ [] → ∃ t, (string s).decrement = some (.string t) ∧ IsPrevious s t ∧
    (string t).increment = some (.string s)

section Order
variable (s t : Text)

theorem compare_string_lt : (string s).compare (.string t) = .lt ↔ s.val < t.val := by
  rw [Value.compare]
  split
  · next less => exact iff_of_true rfl less
  · next less => split <;> exact iff_of_false Ordering.noConfusion less

theorem compare_string_gt : (string s).compare (.string t) ≠ .gt ↔ s.val ≤ t.val := by
  rw [← not_lt, not_iff_not, Value.compare]
  split
  · next less => exact iff_of_false Ordering.noConfusion less.not_gt
  · split
    · next greater => exact iff_of_true rfl greater
    · next greater => exact iff_of_false Ordering.noConfusion greater

theorem isNext_iff : IsNext s t ↔ s.val < t.val ∧ ∀ u : Text, s.val < u.val → t.val ≤ u.val := by
  refine ⟨fun next => ⟨?_, fun u above => ?_⟩, fun next => ⟨?_, fun u above => ?_⟩⟩
  · exact (compare_string_lt s t).mp next.above
  · exact (compare_string_gt t u).mp (next.least u ((compare_string_lt s u).mpr above))
  · exact (compare_string_lt s t).mpr next.1
  · exact (compare_string_gt t u).mpr (next.2 u ((compare_string_lt s u).mp above))

theorem isPrevious_iff : IsPrevious s t ↔ t.val < s.val ∧ ∀ u : Text, u.val < s.val → u.val ≤ t.val := by
  refine ⟨fun previous => ⟨?_, fun u below => ?_⟩, fun previous => ⟨?_, fun u below => ?_⟩⟩
  · exact (compare_string_lt t s).mp previous.below
  · exact (compare_string_gt u t).mp (previous.greatest u ((compare_string_lt u s).mpr below))
  · exact (compare_string_lt t s).mpr previous.1
  · exact (compare_string_gt u t).mpr (previous.2 u ((compare_string_lt u s).mp below))

theorem zero_le_byte (byte : Byte) : 0 ≤ byte := Fin.zero_le byte

theorem byte_le_max (byte : Byte) : byte ≤ 255 := Fin.le_def.mpr (Nat.le_of_lt_succ byte.isLt)

theorem covBy_succ {byte : Byte} (below : byte ≠ 255) : byte ⋖ byte + 1 := by
  have bound : byte.val < 255 := by
    have differs : byte.val ≠ 255 := fun same => below (Fin.ext same)
    have := byte.isLt
    omega
  have next : (byte + 1).val = byte.val + 1 := Fin.val_add_one_of_lt' (by omega)
  refine ⟨Fin.lt_def.mpr (by omega), fun other above => ?_⟩
  rw [Fin.lt_def] at above ⊢
  omega

end Order

section Bytes
variable {byte : Byte}

theorem carry_replicate (below : byte ≠ 255) (rest : List Byte) (count : Nat) :
    carry (replicate count 255 ++ byte :: rest) = some (replicate count 0 ++ (byte + 1) :: rest) := by
  induction count with
  | zero => exact if_pos below
  | succ count ih =>
    rw [replicate_succ, cons_append, carry, if_neg (not_not.mpr rfl), ih]
    rfl

variable {s : Text}

theorem nextLexString_short (short : s.val.length < stringLength) :
    nextLexString s = some (s.val ++ [0]) := if_pos short

variable {front : List Byte}

theorem nextLexString_full (full : s.val.length = stringLength)
    {count : Nat} (below : byte ≠ 255) (split : s.val = front ++ byte :: replicate count 255) :
    nextLexString s = some (front ++ (byte + 1) :: replicate count 0) := by
  have reversed : s.val.reverse = replicate count 255 ++ byte :: front.reverse := by
    rw [split, reverse_append, reverse_cons, reverse_replicate, append_assoc]
    rfl
  rw [nextLexString, if_neg full.not_lt, reversed, carry_replicate below, Option.map_some, reverse_append,
    reverse_cons, reverse_reverse, reverse_replicate, append_assoc]
  rfl

theorem prevLexString_zero (split : s.val = front ++ [0]) : prevLexString s = some front := by
  rw [prevLexString, split, getLast?_concat, dropLast_concat]
  rfl

theorem prevLexString_nonzero (above : byte ≠ 0) (split : s.val = front ++ [byte]) :
    prevLexString s = some (front ++ (byte - 1) :: replicate (stringLength - s.val.length) 255) := by
  rw [prevLexString]
  simp [split, if_neg above]

theorem increment_string {t : Text} (next : nextLexString s = some t.val) : (string s).increment = some (.string t) := by
  rw [increment, next]
  exact dif_pos t.property

theorem decrement_string {t : Text} (previous : prevLexString s = some t.val) :
    (string s).decrement = some (.string t) := by
  rw [decrement, previous]
  exact dif_pos t.property

end Bytes

section Increment
variable {s : Text}

theorem increment_short (short : s.val.length < stringLength) :
    ∃ t : Text, t.val = s.val ++ [0] ∧ (string s).increment = some (.string t) := by
  have fits : (s.val ++ [0]).length ≤ stringLength := by
    rw [length_append]
    exact short
  exact ⟨⟨_, fits⟩, rfl, increment_string (nextLexString_short short)⟩

variable {front : List Byte} {byte : Byte} {count : Nat}

theorem increment_full (full : s.val.length = stringLength)
    (below : byte ≠ 255) (split : s.val = front ++ byte :: replicate count 255) :
    ∃ t : Text, t.val = front ++ (byte + 1) :: replicate count 0 ∧ (string s).increment = some (.string t) := by
  have fits : (front ++ (byte + 1) :: replicate count 0).length ≤ stringLength := by
    rw [← full, split]
    simp
  exact ⟨⟨_, fits⟩, rfl, increment_string (nextLexString_full full below split)⟩

variable {t : Text}

theorem isNext_append_zero (added : t.val = s.val ++ [0]) : IsNext s t := by
  rw [isNext_iff, added]
  exact ⟨lt_append_cons _ _ _, fun u above => append_least_le zero_le_byte above⟩

theorem isNext_of_carry (full : s.val.length = stringLength)
    (below : byte ≠ 255) (split : s.val = front ++ byte :: replicate count 255)
    (carried : t.val = front ++ [byte + 1]) : IsNext s t := by
  rw [isNext_iff, carried, split]
  refine ⟨append_left_lt ?_, fun u above => ?_⟩
  · exact cons_lt_cons_iff.mpr (.inl (covBy_succ below).lt)
  · refine append_next_le byte_le_max (covBy_succ below) ?_ above
    have bound : u.val.length ≤ s.val.length := u.property.trans_eq full.symm
    rw [split] at bound
    simpa [Nat.add_assoc, Nat.add_comm 1] using bound

theorem not_isNext_of_zeros (below : byte ≠ 255) (split : s.val = front ++ byte :: replicate (count + 1) 255)
    (zeros : t.val = front ++ (byte + 1) :: replicate (count + 1) 0) : ¬ IsNext s t := by
  intro next
  have fits : (front ++ [byte + 1]).length ≤ stringLength := by
    refine le_trans ?_ t.property
    rw [zeros]
    simp
  rw [isNext_iff] at next
  have least := next.2 ⟨_, fits⟩ (by
    rw [split]
    exact append_left_lt (cons_lt_cons_iff.mpr (.inl (covBy_succ below).lt)))
  rw [zeros] at least
  refine absurd least (not_le.mpr (append_left_lt ?_))
  exact lt_append_cons [byte + 1] 0 _

end Increment

section Decrement
variable {s : Text} {byte : Byte}

theorem succ_ne_zero (below : byte ≠ 255) : byte + 1 ≠ 0 := by
  intro wraps
  exact absurd (wraps ▸ (covBy_succ below).lt) (not_lt.mpr (zero_le_byte byte))

theorem pred_ne_max (above : byte ≠ 0) : byte - 1 ≠ 255 := by
  intro wraps
  apply above
  rw [← sub_add_cancel byte 1, wraps]
  rfl

variable {front : List Byte}

theorem decrement_zero (split : s.val = front ++ [0]) :
    ∃ t : Text, t.val = front ∧ (string s).decrement = some (.string t) := by
  have fits : front.length ≤ stringLength := by
    refine le_trans ?_ s.property
    rw [split]
    simp
  exact ⟨⟨front, fits⟩, rfl, decrement_string (prevLexString_zero split)⟩

theorem decrement_nonzero (above : byte ≠ 0) (split : s.val = front ++ [byte]) :
    ∃ t : Text, t.val = front ++ (byte - 1) :: replicate (stringLength - s.val.length) 255 ∧
      t.val.length = stringLength ∧ (string s).decrement = some (.string t) := by
  have size : (front ++ (byte - 1) :: replicate (stringLength - s.val.length) 255).length = stringLength := by
    have bound := s.property
    have parts := congrArg length split
    simp only [length_append, length_singleton] at parts
    simp only [length_append, length_cons, length_replicate]
    omega
  exact ⟨⟨_, size.le⟩, rfl, size, decrement_string (prevLexString_nonzero above split)⟩

theorem isPrevious_dropLast {t : Text} (split : s.val = t.val ++ [0]) : IsPrevious s t := by
  rw [isPrevious_iff, split]
  exact ⟨lt_append_cons _ _ _, fun u below => le_of_lt_append_least zero_le_byte below⟩

theorem isPrevious_of_borrow {t : Text} {count : Nat} (above : byte ≠ 0)
    (split : s.val = front ++ [byte]) (borrowed : t.val = front ++ (byte - 1) :: replicate count 255)
    (full : t.val.length = stringLength) : IsPrevious s t := by
  have covers : byte - 1 ⋖ byte := by
    have covers := covBy_succ (pred_ne_max above)
    rwa [sub_add_cancel] at covers
  rw [isPrevious_iff, split]
  refine ⟨?_, fun u below => ?_⟩
  · rw [borrowed]
    exact append_left_lt (cons_lt_cons_iff.mpr (.inl covers.lt))
  · rw [borrowed]
    refine le_append_replicate byte_le_max covers ?_ below
    have bound : u.val.length ≤ t.val.length := u.property.trans_eq full.symm
    rw [borrowed] at bound
    simpa [Nat.add_assoc, Nat.add_comm 1] using bound

end Decrement

theorem exists_append_of_ne_nil {s : Text} (some : s.val ≠ []) : ∃ front byte, s.val = front ++ [byte] :=
  ⟨s.val.dropLast, s.val.getLast some, (dropLast_append_getLast some).symm⟩

theorem getLast?_append_cons_replicate (front : List Byte) (byte : Byte) (count : Nat) :
    (front ++ byte :: replicate (count + 1) 255).getLast? = some 255 := by
  rw [replicate_succ', ← cons_append, ← append_assoc, getLast?_concat]

/-- `Increment` is right, and `Decrement` leads back, unless there is a carry. -/
theorem next_iff (s : Text) : (s ≠ maximumText → ∃ t, (string s).increment = some (.string t) ∧ IsNext s t ∧
        (string t).decrement = some (.string s)) ↔
      s = maximumText ∨ s.val.length < stringLength ∨ s.val.getLast? ≠ some 255 := by
  by_cases greatest : s = maximumText
  · exact iff_of_true (fun differs => absurd greatest differs) (.inl greatest)
  by_cases short : s.val.length < stringLength
  · refine iff_of_true (fun _ => ?_) (.inr (.inl short))
    obtain ⟨t, added, returns⟩ := increment_short short
    exact ⟨t, returns, isNext_append_zero added, decrement_string (prevLexString_zero added)⟩
  have full : s.val.length = stringLength := le_antisymm s.property (not_lt.mp short)
  have other : s.val ≠ replicate s.val.length 255 := fun same =>
    greatest (Subtype.ext (same.trans (congrArg (replicate · 255) full)))
  obtain ⟨front, byte, count, below, split⟩ := exists_append_replicate s.val other
  obtain ⟨t, made, returns⟩ := increment_full full below split
  cases count with
  | zero =>
    have last : s.val.getLast? ≠ some 255 := by
      rw [split]
      simpa using below
    refine iff_of_true (fun _ => ⟨t, returns, isNext_of_carry full below split made, ?_⟩) (.inr (.inr last))
    apply decrement_string
    have size : t.val.length = s.val.length := by
      rw [split, made]
      simp
    rw [prevLexString_nonzero (succ_ne_zero below) made, size, full, Nat.sub_self, add_sub_cancel_right, split]
  | succ count =>
    have last : s.val.getLast? = some 255 := by rw [split, getLast?_append_cons_replicate]
    refine iff_of_false (fun all => ?_) ?_
    · obtain ⟨u, found, next, -⟩ := all greatest
      cases returns.symm.trans found
      exact not_isNext_of_zeros below split made next
    · rintro (same | less | differs)
      · exact greatest same
      · exact short less
      · exact differs last

theorem decrement_isPrevious {s : Text} (some : s.val ≠ []) :
    ∃ t, (string s).decrement = Option.some (.string t) ∧ IsPrevious s t := by
  obtain ⟨front, byte, split⟩ := exists_append_of_ne_nil some
  by_cases last : byte = 0
  · subst last
    obtain ⟨t, kept, returns⟩ := decrement_zero split
    exact ⟨t, returns, isPrevious_dropLast (kept ▸ split)⟩
  · obtain ⟨t, kept, full, returns⟩ := decrement_nonzero last split
    exact ⟨t, returns, isPrevious_of_borrow last split kept full⟩

/-- `Increment` leads back unless `Decrement` fills up the string. -/
theorem previous_iff (s : Text) : (s.val ≠ [] → ∃ t, (string s).decrement = some (.string t) ∧ IsPrevious s t ∧
        (string t).increment = some (.string s)) ↔
      s.val = [] ∨ s.val.getLast? = some 0 ∨ s.val.length = stringLength := by
  by_cases empty : s.val = []
  · exact iff_of_true (fun differs => absurd empty differs) (.inl empty)
  obtain ⟨front, byte, split⟩ := exists_append_of_ne_nil empty
  obtain ⟨t, returns, previous⟩ := decrement_isPrevious empty
  by_cases last : byte = 0
  · subst last
    obtain ⟨u, kept, found⟩ := decrement_zero split
    cases returns.symm.trans found
    refine iff_of_true (fun _ => ⟨t, returns, previous, increment_string ?_⟩) (.inr (.inl ?_))
    · have short : t.val.length < stringLength := by
        have bound := s.property
        rw [split, length_append, length_singleton] at bound
        rw [kept]
        exact bound
      rw [nextLexString_short short, kept, split]
    · rw [split, getLast?_concat]
  · obtain ⟨u, kept, full, found⟩ := decrement_nonzero last split
    cases returns.symm.trans found
    have next := nextLexString_full full (pred_ne_max last) kept
    rw [sub_add_cancel] at next
    by_cases size : s.val.length = stringLength
    · refine iff_of_true (fun _ => ⟨t, returns, previous, increment_string ?_⟩) (.inr (.inr size))
      rw [next, size, Nat.sub_self, split, replicate_zero]
    · refine iff_of_false (fun all => ?_) ?_
      · obtain ⟨v, again, -, back⟩ := all empty
        cases returns.symm.trans again
        obtain ⟨w, made, forth⟩ := increment_full full (pred_ne_max last) kept
        cases back.symm.trans forth
        have lengths := congrArg length made
        have parts := congrArg length split
        have bound := s.property
        simp only [length_append, length_cons, length_replicate, length_nil] at lengths parts
        omega
      · rintro (none | zero | equal)
        · exact empty none
        · rw [split, getLast?_concat] at zero
          exact last (Option.some.inj zero)
        · exact size equal

theorem neighboured_iff (s : Text) : Neighboured s ↔
      (s = maximumText ∨ s.val.length < stringLength ∨ s.val.getLast? ≠ some 255) ∧
        (s.val = [] ∨ s.val.getLast? = some 0 ∨ s.val.length = stringLength) := by
  rw [← next_iff, ← previous_iff]
  exact ⟨fun found => ⟨found.next, found.previous⟩, fun found => ⟨found.1, found.2⟩⟩

def carried : Text := ⟨replicate 31 97 ++ [255], by decide⟩

def skipped : Text := ⟨replicate 30 97 ++ [98], by decide⟩

def padded : Text := ⟨replicate 30 97 ++ [98, 0], by decide⟩

/-- The string of 30 letters a and a letter b comes between a string and what `Increment` makes of it. -/
theorem carry_skips_a_string : carried ≠ maximumText ∧ (string carried).increment = some (.string padded) ∧
      (string carried).compare (.string skipped) = .lt ∧ (string skipped).compare (.string padded) = .lt ∧
      (string padded).decrement = some (.string skipped) := by
  decide

end GoDB.Common
