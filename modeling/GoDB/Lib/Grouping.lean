import Mathlib.Data.List.Induction
import Mathlib.Data.List.Nodup

/-! Rows in groups, the groups in the order in which they are first met. -/

namespace GoDB.Lib.Grouping
open List

universe u v

variable {ρ : Type u} {κ : Type v} [DecidableEq κ] (keyOf : ρ → κ)

def keys (rows : List ρ) : List κ := (rows.map keyOf).eraseDups

def members (rows : List ρ) (key : κ) : List ρ := rows.filter (keyOf · = key)

variable {rows : List ρ} {key : κ}

theorem mem_keys : key ∈ keys keyOf rows ↔ ∃ row ∈ rows, keyOf row = key := by
  rw [keys, mem_eraseDups, mem_map]

variable {row : ρ}

theorem mem_members : row ∈ members keyOf rows key ↔ row ∈ rows ∧ keyOf row = key := by
  rw [members, mem_filter, decide_eq_true_eq]

theorem keys_concat_of_mem (present : keyOf row ∈ keys keyOf rows) : keys keyOf (rows ++ [row]) = keys keyOf rows := by
  simp only [keys, mem_eraseDups, map_append, map_singleton, eraseDups_append, cons_removeAll] at present ⊢
  rw [if_neg (by simpa using present)]
  exact append_nil _

theorem keys_concat_of_not_mem (absent : keyOf row ∉ keys keyOf rows) :
    keys keyOf (rows ++ [row]) = keys keyOf rows ++ [keyOf row] := by
  simp only [keys, mem_eraseDups, map_append, map_singleton, eraseDups_append, cons_removeAll] at absent ⊢
  rw [if_pos (by simpa using absent)]
  rfl

theorem nodup_keys (rows : List ρ) : (keys keyOf rows).Nodup := by
  induction rows using List.reverseRecOn with
  | nil => exact nodup_nil
  | append_singleton rows row ih =>
    by_cases present : keyOf row ∈ keys keyOf rows
    · rw [keys_concat_of_mem keyOf present]
      exact ih
    · rw [keys_concat_of_not_mem keyOf present, ← concat_eq_append]
      exact ih.concat present

theorem members_concat_self (rows : List ρ) (row : ρ) :
    members keyOf (rows ++ [row]) (keyOf row) = members keyOf rows (keyOf row) ++ [row] := by
  simp [members]

theorem members_concat_of_ne (other : keyOf row ≠ key) : members keyOf (rows ++ [row]) key = members keyOf rows key := by
  simp [members, other]

theorem members_eq_nil (absent : key ∉ keys keyOf rows) : members keyOf rows key = [] := by
  refine List.eq_nil_iff_forall_not_mem.mpr fun row found => ?_
  exact absent ((mem_keys keyOf).mpr ⟨row, (mem_members keyOf).mp found⟩)

section Encoding
variable {keyOf} {ε : Type v} [DecidableEq ε] {encode : κ → ε} {rows : List ρ}

theorem members_encode {key : κ} (injective : ∀ row ∈ rows, encode (keyOf row) = encode key → keyOf row = key) :
    members (encode ∘ keyOf) rows (encode key) = members keyOf rows key := by
  refine filter_congr fun row member => ?_
  rw [decide_eq_decide]
  exact ⟨injective row member, congrArg encode⟩

theorem keys_encode (injective : ∀ first ∈ rows, ∀ second ∈ rows,
      encode (keyOf first) = encode (keyOf second) → keyOf first = keyOf second) :
    keys (encode ∘ keyOf) rows = (keys keyOf rows).map encode := by
  induction rows using List.reverseRecOn with
  | nil => rfl
  | append_singleton rows row ih =>
    have earlier := ih fun first inside second inside' =>
      injective first (mem_append_left _ inside) second (mem_append_left _ inside')
    have present : encode (keyOf row) ∈ keys (encode ∘ keyOf) rows ↔ keyOf row ∈ keys keyOf rows := by
      rw [mem_keys, mem_keys]
      refine exists_congr fun other => and_congr_right fun inside => ⟨fun same => ?_, congrArg encode⟩
      exact injective other (mem_append_left _ inside) row (mem_append_right _ (mem_singleton_self row)) same
    by_cases old : keyOf row ∈ keys keyOf rows
    · rw [keys_concat_of_mem keyOf old, keys_concat_of_mem (encode ∘ keyOf) (present.mpr old), earlier]
    · rw [keys_concat_of_not_mem keyOf old, keys_concat_of_not_mem (encode ∘ keyOf) (mt present.mp old), earlier,
        map_append]
      rfl

end Encoding
end GoDB.Lib.Grouping
