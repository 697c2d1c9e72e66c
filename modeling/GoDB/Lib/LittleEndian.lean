import Mathlib.Data.Fin.Basic
import Mathlib.Tactic.Ring

/-! Fixed-width little-endian numbers. -/

namespace GoDB.Lib

abbrev Byte := Fin 256

instance (priority := 2000) byteCount_neZero : NeZero 256 := ⟨by decide⟩

namespace LittleEndian

def encode : Nat → Nat → List Byte
  | 0, _ => []
  | width + 1, number => Fin.ofNat 256 number :: encode width (number / 256)

def decode : List Byte → Nat
  | [] => 0
  | byte :: rest => byte.val + 256 * decode rest

@[simp] theorem length_encode (width number : Nat) : (encode width number).length = width := by
  induction width generalizing number with
  | zero => rfl
  | succ width ih => simp [encode, ih]

theorem decode_lt (bytes : List Byte) : decode bytes < 256 ^ bytes.length := by
  induction bytes with
  | nil => simp [decode]
  | cons byte rest ih =>
    have small := byte.isLt
    simp only [decode, List.length_cons, pow_succ]
    omega

theorem decode_encode (width number : Nat) : decode (encode width number) = number % 256 ^ width := by
  induction width generalizing number with
  | zero => simp [encode, decode, Nat.mod_one]
  | succ width ih => simp only [encode, decode, ih, pow_succ', Nat.mod_mul, Fin.ofNat]

theorem decode_zeros {bytes : List Byte} (zeros : ∀ byte ∈ bytes, byte = 0) : decode bytes = 0 := by
  induction bytes with
  | nil => rfl
  | cons byte rest ih =>
    obtain ⟨first, others⟩ := List.forall_mem_cons.mp zeros
    rw [decode, first, ih others]
    rfl

end LittleEndian
end GoDB.Lib
