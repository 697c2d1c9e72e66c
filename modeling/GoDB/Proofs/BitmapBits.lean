import Mathlib.Algebra.Order.Ring.Nat
import Mathlib.Data.List.Rotate
import GoDB.Storage.Bitmap

/-! The operations on the words of a bitmap, in terms of its bits. -/

namespace GoDB.Storage.Bitmap
open Lib List BitVec Nat LittleEndian Option

variable {bitmap : Bitmap}

def bit (bitmap : Bitmap) (i : Nat) : Bool := (bitmap.words.getD (i / 64) 0#64).getLsbD (i % 64)

theorem wordsOf_bytes (words : List (BitVec 64)) :
    wordsOf words.length (words.flatMap fun word => encode 8 word.toNat) = words := by
  induction words with
  | nil => rfl
  | cons word rest ih =>
    have first : (encode 8 word.toNat).length = 8 := length_encode ..
    have small : word.toNat < 256 ^ 8 := word.isLt
    rw [length_cons, wordsOf, flatMap_cons, take_left' first, drop_left' first, ih,
      decode_encode, mod_eq_of_lt small, ofNat_toNat, setWidth_eq]

theorem length_bytes (bitmap : Bitmap) : bitmap.bytes.length = 8 * numWords bitmap.numBits := by
  simp only [bytes, length_flatMap, length_encode, map_const', sum_replicate_nat, bitmap.sized]
  omega

theorem asBitmap_bytes (nonempty : bitmap.numBits ≠ 0) : asBitmap bitmap.bytes bitmap.numBits = some bitmap := by
  have length := bitmap.length_bytes
  have positive : 0 < numWords bitmap.numBits := by
    unfold numWords
    omega
  have data : bitmap.bytes ≠ [] := by
    apply ne_nil_of_length_pos
    omega
  rw [asBitmap, if_pos ⟨by omega, by omega, data⟩]
  congr
  rw [← bitmap.sized]
  exact wordsOf_bytes bitmap.words

variable {data : List Byte}

theorem wordsOf_zeros (zeros : ∀ byte ∈ data, byte = 0) (count : Nat) :
    ∀ word ∈ wordsOf count data, word = 0#64 := by
  induction count generalizing data with
  | zero => exact forall_mem_nil _
  | succ count ih =>
    refine forall_mem_cons.mpr ⟨?_, ih fun byte member => zeros byte (mem_of_mem_drop member)⟩
    rw [decode_zeros fun byte member => zeros byte (mem_of_mem_take member)]

variable {numBits : Nat}

theorem bit_zeros (zeros : ∀ byte ∈ data, byte = 0)
    (viewed : asBitmap data numBits = some bitmap) (i : Nat) : bitmap.bit i = false := by
  rw [asBitmap] at viewed
  split at viewed
  · cases viewed
    rw [bit, getD_eq_getElem?_getD]
    cases found : (wordsOf (numWords numBits) data)[i / 64]? with
    | none => simp
    | some word => simp [wordsOf_zeros zeros _ word (mem_of_getElem? found)]
  · cases viewed

variable {i : Nat}

theorem board_natCast (inside : i < bitmap.numBits) : bitmap.board i = some (bitmap.words.getD (i / 64) 0#64) := by
  have quotient : (i : Int).tdiv 64 = (i / 64 : Nat) := rfl
  have bound : i / 64 < bitmap.words.length := by
    rw [bitmap.sized, numWords]
    omega
  rw [board, quotient, if_neg (by omega), Int.toNat_natCast, getD_eq_getElem?_getD,
    List.getElem?_eq_getElem bound, getD_some]

theorem mask_natCast (i : Nat) : mask i = twoPow 64 (i % 64) := by
  have remainder : (i : Int).tmod 64 = (i % 64 : Nat) := rfl
  have small : i % 64 % 2 ^ 64 = i % 64 := mod_eq_of_lt (by omega)
  rw [mask, remainder, ofInt_natCast, toNat_ofNat, small, twoPow]

theorem and_mask (word : BitVec 64) (i : Nat) : (word &&& mask i != 0#64) = word.getLsbD (i % 64) := by
  have inside : i % 64 < 64 := mod_lt _ (by omega)
  have nonzero : twoPow 64 (i % 64) ≠ 0#64 := by
    intro zero
    have lifted := congrArg (fun word => getLsbD word (i % 64)) zero
    simp [inside] at lifted
  rw [mask_natCast, and_twoPow]
  cases word.getLsbD (i % 64) <;> simp [nonzero]

theorem loadBit_eq (inside : i < bitmap.numBits) : bitmap.loadBit i = some (bitmap.bit i) := by
  rw [loadBit, board_natCast inside, map_some, and_mask, bit]

variable {k : Nat}

theorem getLsbD_set (word : BitVec 64) (on : Bool) (i : Nat) (inside : k < 64) :
    (if on then word ||| mask i else word &&& ~~~ mask i).getLsbD k = if k = i % 64 then on else word.getLsbD k := by
  rw [mask_natCast]
  by_cases same : k = i % 64
  · subst same
    cases on <;> simp [inside]
  · cases on <;> simp [inside, same]

theorem setBit_eq (inside : i < bitmap.numBits) (on : Bool) :
    ∃ changed, bitmap.setBit i on = some (bitmap.bit i, changed) ∧ changed.numBits = bitmap.numBits ∧
      ∀ k, changed.bit k = if k = i then on else bitmap.bit k := by
  have quotient : ((i : Int).tdiv 64).toNat = i / 64 := rfl
  have bound : i / 64 < bitmap.words.length := by
    rw [bitmap.sized, numWords]
    omega
  rw [setBit, board_natCast inside, map_some]
  refine ⟨_, congrArg some (Prod.ext (and_mask _ i) rfl), rfl, fun k => ?_⟩
  simp only [bit, quotient, getD_eq_getElem?_getD, getElem?_set]
  by_cases same : i / 64 = k / 64
  · rw [if_pos same, if_pos (same ▸ bound), getD_some, getLsbD_set _ _ _ (mod_lt _ (by omega)), same]
    have together : k % 64 = i % 64 ↔ k = i := by omega
    simp only [together]
  · have apart : k ≠ i := fun equal => same (by rw [equal])
    rw [if_neg same, if_neg apart]

/-! The search for a zero bit. -/

variable {word : BitVec 64}

theorem trailingZeros64_spec (nonzero : word ≠ 0#64) :
    trailingZeros64 word < 64 ∧ word.getLsbD (trailingZeros64 word) = true ∧
      ∀ k < trailingZeros64 word, word.getLsbD k = false := by
  have found : trailingZeros64 word < (range 64).length := by
    by_contra missing
    apply nonzero
    apply eq_of_getLsbD_eq
    intro k inside
    have unset := (findIdx_eq_length.mp (Nat.le_antisymm findIdx_le_length (Nat.le_of_not_lt missing))) k
      (mem_range.mpr inside)
    rw [unset, getLsbD_zero]
  have inside : trailingZeros64 word < 64 := by rwa [length_range] at found
  refine ⟨inside, ?_, fun k earlier => ?_⟩
  · exact (congrArg word.getLsbD (getElem_range found)).symm.trans findIdx_getElem
  · have before := not_of_lt_findIdx earlier
    rwa [getElem_range] at before

theorem not_ne_zero (partly : word ≠ allOnes 64) : ~~~ word ≠ 0#64 := by
  intro zero
  apply partly
  rw [← not_not (b := word), zero, not_zero]

variable {index found : Nat}

theorem zeroIn_some (some' : zeroIn numBits index word = some found) :
    found < numBits ∧ found / 64 = index ∧ word.getLsbD (found % 64) = false ∧ ∀ k < found % 64, word.getLsbD k = true := by
  rw [zeroIn] at some'
  split at some'
  · cases some'
  next partly =>
    obtain ⟨inside, set, before⟩ := trailingZeros64_spec (not_ne_zero partly)
    dsimp only at some'
    split at some'
    next bound =>
      cases some'
      have place : (index * 64 + trailingZeros64 (~~~ word)) % 64 = trailingZeros64 (~~~ word) := by omega
      refine ⟨bound, by omega, ?_, fun k earlier => ?_⟩
      · rw [place]
        simpa [inside] using set
      · rw [place] at earlier
        have small : k < 64 := earlier.trans inside
        simpa [small] using before k earlier
    · cases some'

theorem zeroIn_none (none' : zeroIn numBits index word = none)
    (bound : k < 64) (inside : index * 64 + k < numBits) : word.getLsbD k = true := by
  rw [zeroIn] at none'
  split at none'
  next full =>
    rw [full, getLsbD_allOnes]
    exact decide_eq_true bound
  next partly =>
    obtain ⟨-, -, before⟩ := trailingZeros64_spec (not_ne_zero partly)
    dsimp only at none'
    split at none'
    · cases none'
    next outside =>
      have unset := before k (by omega)
      simpa [bound] using unset

variable {startHint : Nat}

theorem findFirstZero_some (some' : bitmap.findFirstZero startHint = some found) :
    found < bitmap.numBits ∧ bitmap.bit found = false := by
  rw [findFirstZero] at some'
  split at some'
  · cases some'
  rcases or_eq_some_iff.mp some' with first | ⟨-, later⟩
  · obtain ⟨bound, place, unset, -⟩ := zeroIn_some first
    rw [getLsbD_or, Bool.or_eq_false_iff, ← place] at unset
    exact ⟨bound, unset.1⟩
  · obtain ⟨i, -, here⟩ := exists_of_findSome?_eq_some later
    obtain ⟨bound, place, unset, -⟩ := zeroIn_some here
    rw [← place] at unset
    exact ⟨bound, unset⟩

def turnOf (words board word : Nat) : Nat := if board < word then word - board else word + words - board

variable {words board : Nat}

theorem turnOf_spec {word : Nat} (start : board < words) (inside : word < words) :
    turnOf words board word ∈ range' 1 words ∧ (board + turnOf words board word) % words = word := by
  rw [mem_range'_1, turnOf]
  split
  · refine ⟨by omega, ?_⟩
    rw [Nat.add_sub_cancel' (by omega), Nat.mod_eq_of_lt inside]
  · refine ⟨by omega, ?_⟩
    rw [Nat.add_sub_cancel' (by omega), Nat.add_mod_right, Nat.mod_eq_of_lt inside]

theorem turnOf_mod {turn : Nat} (start : board < words) (member : turn ∈ range' 1 words) :
    turnOf words board ((board + turn) % words) = turn := by
  rw [mem_range'_1] at member
  rw [turnOf]
  by_cases ahead : board + turn < words
  · rw [mod_eq_of_lt ahead]
    split <;> omega
  · rw [mod_eq_sub_mod (by omega), mod_eq_of_lt (by omega)]
    split <;> omega

theorem board_lt (inside : i < bitmap.numBits) : i / 64 < bitmap.words.length := by
  rw [bitmap.sized, numWords]
  omega

theorem findFirstZero_none (none' : bitmap.findFirstZero startHint = none)
    (inside : i < bitmap.numBits) : bitmap.bit i = true := by
  rw [findFirstZero, if_neg (by omega)] at none'
  obtain ⟨-, later⟩ := or_eq_none_iff.mp none'
  have hint : startHint % bitmap.numBits < bitmap.numBits := mod_lt _ (by omega)
  obtain ⟨member, place⟩ := turnOf_spec (board_lt hint) (board_lt inside)
  have full := findSome?_eq_none_iff.mp later _ member
  rw [place] at full
  exact zeroIn_none full (mod_lt _ (by omega)) (by omega)

theorem getLsbD_masked (word : BitVec 64) {hint : Nat} (small : hint < 64) :
    (word ||| (1#64 <<< hint - 1#64)).getLsbD k = (word.getLsbD k || decide (k < hint)) := by
  have mask : (1#64 <<< hint - 1#64).toNat = 2 ^ hint - 1 := by
    have bound : 2 ^ hint < 2 ^ 64 := Nat.pow_lt_pow_right (by decide) small
    have positive : 0 < 2 ^ hint := Nat.two_pow_pos hint
    rw [toNat_sub, toNat_shiftLeft, Nat.shiftLeft_eq]
    simp
    omega
  rw [getLsbD_or, getLsbD, getLsbD, mask, testBit_two_pow_sub_one]

theorem findSome_range' {f : Nat → Option Nat} (some' : (range' 1 words).findSome? f = some found) :
    ∃ turn ∈ range' 1 words, f turn = some found ∧ ∀ earlier ∈ range' 1 words, earlier < turn → f earlier = none := by
  obtain ⟨before, turn, after, split, here, missing⟩ := findSome?_eq_some_iff.mp some'
  have sorted : (before ++ turn :: after).Pairwise (· < ·) := split ▸ pairwise_lt_range'
  refine ⟨turn, by simp [split], here, fun earlier member smaller => missing earlier ?_⟩
  rw [split] at member
  rcases mem_append.mp member with first | rest
  · exact first
  · have behind := (pairwise_cons.mp (pairwise_append.mp sorted).2.1).1
    rcases mem_cons.mp rest with rfl | last
    · omega
    · have := behind earlier last
      omega

theorem set_before (some' : bitmap.findFirstZero startHint = some found) (inside : i < bitmap.numBits)
    (before : if startHint % bitmap.numBits ≤ found then startHint % bitmap.numBits ≤ i ∧ i < found
      else startHint % bitmap.numBits ≤ i ∨ i < found) : bitmap.bit i = true := by
  obtain ⟨foundInside, clear⟩ := findFirstZero_some some'
  rw [findFirstZero, if_neg (by omega)] at some'
  have hint : startHint % bitmap.numBits < bitmap.numBits := mod_lt _ (by omega)
  generalize startHint % bitmap.numBits = hinted at hint before some'
  dsimp only at some'
  have small : hinted % 64 < 64 := mod_lt _ (by omega)
  rcases or_eq_some_iff.mp some' with first | ⟨missing, later⟩
  · obtain ⟨-, place, unset, set⟩ := zeroIn_some first
    rw [getLsbD_masked _ small, Bool.or_eq_false_iff, decide_eq_false_iff_not] at unset
    rw [if_pos (by omega)] at before
    have masked := set (i % 64) (by omega)
    rw [getLsbD_masked _ small, decide_eq_false (by omega), Bool.or_false] at masked
    rw [bit, show i / 64 = hinted / 64 by omega]
    exact masked
  · -- The first word has no clear bit from the hint on.
    have passed {k : Nat} (same : k / 64 = hinted / 64) (after : hinted ≤ k) (inside : k < bitmap.numBits) :
        bitmap.bit k = true := by
      have masked := zeroIn_none missing (k := k % 64) (mod_lt _ (by omega)) (by omega)
      rw [getLsbD_masked _ small, decide_eq_false (by omega), Bool.or_false] at masked
      rw [bit, same]
      exact masked
    obtain ⟨turn, member, here, earlier⟩ := findSome_range' later
    obtain ⟨-, place, -, set⟩ := zeroIn_some here
    have turned := turnOf_mod (board_lt hint) member
    rw [← place] at turned set
    by_cases first : i / 64 = hinted / 64 ∧ hinted ≤ i
    · exact passed first.1 first.2 inside
    have behind : ¬ (found / 64 = hinted / 64 ∧ hinted ≤ found) := by
      intro first
      rw [passed first.1 first.2 foundInside] at clear
      cases clear
    by_cases together : i / 64 = found / 64
    · rw [bit, together]
      refine set (i % 64) ?_
      split at before <;> omega
    · obtain ⟨member, place⟩ := turnOf_spec (board_lt hint) (board_lt inside)
      have sooner : turnOf bitmap.words.length (hinted / 64) (i / 64) < turn := by
        have hintBoard := board_lt hint
        have board := board_lt inside
        rw [← turned, turnOf, turnOf]
        split at before <;> split <;> split <;> omega
      have full := earlier _ member sooner
      rw [place] at full
      exact zeroIn_none full (mod_lt _ (by omega)) (by omega)

theorem findFirstZero_zero_lowest (some' : bitmap.findFirstZero 0 = some found) (earlier : i < found) :
    bitmap.bit i = true := by
  have inside := (findFirstZero_some some').1
  refine set_before some' (earlier.trans inside) ?_
  rw [zero_mod, if_pos (zero_le _)]
  exact ⟨zero_le _, earlier⟩

/-- The search returns the first clear bit in the order from the hint to the end and from the
start to the hint. Nothing is returned just when all bits are set. -/
theorem findFirstZero_eq_find_rotate (bitmap : Bitmap) (startHint : Nat) : bitmap.findFirstZero startHint =
        ((range bitmap.numBits).rotate startHint).find? (fun i : Nat => bitmap.loadBit i = some false) ∧
      (bitmap.findFirstZero startHint = none ↔ ∀ i < bitmap.numBits, bitmap.loadBit i = some true) := by
  cases search : bitmap.findFirstZero startHint with
  | none =>
    have full {i : Nat} (inside : i < bitmap.numBits) : bitmap.loadBit i = some true := by
      rw [loadBit_eq inside, findFirstZero_none search inside]
    refine ⟨?_, iff_of_true rfl fun i inside => full inside⟩
    symm
    rw [find?_eq_none]
    intro i member
    rw [mem_rotate, mem_range] at member
    simp [full member]
  | some found =>
    obtain ⟨inside, clear⟩ := findFirstZero_some search
    have loaded : bitmap.loadBit found = some false := by rw [loadBit_eq inside, clear]
    constructor
    · symm
      rw [find?_eq_some_iff_getElem]
      have hint : startHint % bitmap.numBits < bitmap.numBits := mod_lt _ (by omega)
      have order {k : Nat} (small : k < bitmap.numBits) : (k + startHint) % bitmap.numBits =
          if k + startHint % bitmap.numBits < bitmap.numBits then k + startHint % bitmap.numBits
          else k + startHint % bitmap.numBits - bitmap.numBits := by
        rw [add_mod, mod_eq_of_lt small]
        split
        next ahead => exact mod_eq_of_lt ahead
        next => rw [mod_eq_sub_mod (by omega), mod_eq_of_lt (by omega)]
      let k := if startHint % bitmap.numBits ≤ found then found - startHint % bitmap.numBits
        else found + bitmap.numBits - startHint % bitmap.numBits
      have small : k < bitmap.numBits := by
        simp only [k]
        split <;> omega
      refine ⟨decide_eq_true loaded, k, by simpa using small, ?_, fun j earlier => ?_⟩
      · simp only [getElem_rotate, length_range, getElem_range, order small, k]
        split <;> split <;> omega
      · have position : (j + startHint) % bitmap.numBits < bitmap.numBits := mod_lt _ (by omega)
        have set : bitmap.bit ((j + startHint) % bitmap.numBits) = true := by
          refine set_before search position ?_
          rw [order (earlier.trans small)]
          simp only [k] at earlier
          split at earlier
          next after =>
            rw [if_pos after]
            split <;> omega
          next wrapped =>
            rw [if_neg wrapped]
            split <;> omega
        simp only [getElem_rotate, length_range, getElem_range]
        rw [loadBit_eq position, set]
        rfl
    · refine iff_of_false (some_ne_none found) fun full => ?_
      rw [full found inside] at loaded
      cases loaded

end GoDB.Storage.Bitmap
