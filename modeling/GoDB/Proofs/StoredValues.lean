import GoDB.Proofs.IndexReads

/-! Which values survive being stored. Neither the constructors nor the evaluation of an
expression keeps away from what the format sets aside for NULL and for the end of a text. -/

namespace GoDB.Common
open Lib List

namespace Value

/-- The value is not what the format has for NULL, and has no byte that ends a text. -/
def representable : Value → Bool
  | .null _ => true
  | .int v => v ≠ Int64.minValue
  | .string s => s.val.head? ≠ some 255 ∧ 0 ∉ s.val

theorem stored_string_null {s : Text} (marked : s.val.head? = some 255) : stored (.string s) = .null .string := by
  obtain ⟨bytes, fits⟩ := s
  cases bytes with
  | nil => cases marked
  | cons first rest =>
    cases marked
    rfl

theorem stored_string {s : Text} (unmarked : s.val.head? ≠ some 255) :
    stored (.string s) = .string (untilZero (writeTo (.string s))) := by
  have start : (writeTo (.string s)).head? ≠ some 255 := by
    obtain ⟨bytes, fits⟩ := s
    cases bytes with
    | nil => simp [writeTo, stringLength, replicate_succ]
    | cons first rest => exact unmarked
  exact if_neg start

theorem stored_eq_self_iff (v : Value) : v.stored = v ↔ v.representable := by
  cases v with
  | null t => cases t <;> decide
  | int v =>
    rw [stored_int, representable]
    split
    next least => simp [least]
    next proper => simp [proper]
  | string s =>
    by_cases marked : s.val.head? = some 255
    · simp [stored_string_null marked, representable, marked]
    · rw [stored_string marked, representable]
      by_cases ended : 0 ∈ s.val
      · have apart : untilZero (writeTo (.string s)) ≠ s := fun same => by
          rw [← same] at ended
          simpa using mem_takeWhile_imp ended
        simp [apart, ended]
      · have whole : untilZero (writeTo (.string s)) = s :=
          untilZero_padded s.property fun byte member zero => ended (zero ▸ member)
        simp [whole, marked, ended]

/-- Whatever the buffer held, a value that is stored in it is read back as one that compares equal
and is NULL or not as before exactly when it is representable. -/
theorem survives_iff_representable (v : Value) (buf : List Byte) (room : v.type.size ≤ buf.length) :
    (asValue v.type (copy buf v.writeTo)).compare v = .eq ∧
        (asValue v.type (copy buf v.writeTo)).isNull = v.isNull ↔ v.representable := by
  have written : copy buf v.writeTo = v.writeTo ++ buf.drop v.writeTo.length := by
    rw [copy, take_of_length_le (by rwa [length_writeTo])]
  have read : asValue v.type (copy buf v.writeTo) = v.stored := by
    rw [written, asValue_append v.length_writeTo, stored]
  rw [read, ← stored_eq_self_iff]
  constructor
  · rintro ⟨equal, -⟩
    rw [compare_eq_cmp, cmp_eq_eq_iff] at equal
    exact eq_of_rank (type_asValue ..) equal
  · intro same
    rw [same, compare_eq_cmp, cmp_eq_eq_iff]
    exact ⟨rfl, rfl⟩

theorem text_survives : (asValue .string (copy (replicate 40 7) (writeTo (.string ⟨[97, 98], by decide⟩)))).compare
      (.string ⟨[97, 98], by decide⟩) = .eq ∧
    (asValue .string (copy (replicate 40 7) (writeTo (.string ⟨[97, 98], by decide⟩)))).isNull = false :=
  (survives_iff_representable (.string ⟨[97, 98], by decide⟩) (replicate 40 7) (by decide)).mpr (by decide)

theorem newStringValue_eq_some_iff {bytes : List Byte} {v : Value} :
    newStringValue bytes = some v ↔ ∃ fits, v = .string ⟨bytes, fits⟩ := by
  unfold newStringValue
  split
  next fits => simp [fits, eq_comm]
  next long => simp [long]

end Value
end GoDB.Common

namespace GoDB.Planner
open Common Lib

/-- The difference of two integers that can be stored is computed without an error, is not NULL,
and is NULL when it is read back. The bytes of a text from the first zero on are gone. -/
theorem least_integer_lost :
    (Expr.arithmetic (.constant (.int (-9223372036854775807))) (.constant (.int 1)) .sub : Expr Nat).evalWith
      (fun _ => none) = some (.int Int64.minValue) ∧
    Value.asValue .int (copy (List.replicate intSize 7) (Value.int Int64.minValue).writeTo) = .null .int ∧
    Value.asValue .string (copy (List.replicate stringLength 7) (Value.string ⟨[97, 0, 98], by decide⟩).writeTo) =
      .string ⟨[97], by decide⟩ := by
  decide

end GoDB.Planner
