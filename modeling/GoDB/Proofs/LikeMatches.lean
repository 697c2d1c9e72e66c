import GoDB.Planner.Like

/-! LIKE and what the standard says it matches. The dot of the regular expression
stands for any character but a newline. -/

namespace GoDB.Planner
open Common Lib List

/-- `%` stands for any of the wild characters, `_` for one, and a backslash before either makes it
stand for itself. -/
def Likes (wild : Nat → Prop) : List Nat → List Nat → Prop
  | [], s => s = []
  | 92 :: 37 :: p, s => ∃ rest, s = 37 :: rest ∧ Likes wild p rest
  | 92 :: 95 :: p, s => ∃ rest, s = 95 :: rest ∧ Likes wild p rest
  | 37 :: p, s => ∃ skipped rest, s = skipped ++ rest ∧ (∀ c ∈ skipped, wild c) ∧ Likes wild p rest
  | 95 :: p, s => ∃ c rest, s = c :: rest ∧ wild c ∧ Likes wild p rest
  | c :: p, s => ∃ rest, s = c :: rest ∧ Likes wild p rest

/-- LIKE of the standard, where every character is wild. -/
def SqlLikes : List Nat → List Nat → Prop := Likes fun _ => True

theorem Likes.mono {wild wilder : Nat → Prop} (wider : ∀ c, wild c → wilder c) {p s : List Nat} (likes : Likes wild p s) :
    Likes wilder p s := by
  fun_induction Likes wild p s with
  | case1 => exact likes
  | case2 s p ih | case3 s p ih =>
    obtain ⟨rest, same, later⟩ := likes
    exact ⟨rest, same, ih rest later⟩
  | case4 s p ih =>
    obtain ⟨skipped, rest, same, all, later⟩ := likes
    exact ⟨skipped, rest, same, fun c member => wider c (all c member), ih rest later⟩
  | case5 s p ih =>
    obtain ⟨c, rest, same, one, later⟩ := likes
    exact ⟨c, rest, same, wider c one, ih rest later⟩
  | case6 s c p percent underscore sequence single ih =>
    obtain ⟨rest, same, later⟩ := likes
    rw [Likes]
    · exact ⟨rest, same, ih rest later⟩
    all_goals assumption

variable {items : List LikeItem} {s : List Nat}

theorem matchString_literal {rune : Nat} :
    matchString (.literal rune :: items) s = true ↔ ∃ rest, s = rune :: rest ∧ matchString items rest = true := by
  cases s with
  | nil => simp [matchString]
  | cons c s =>
    simp only [matchString, Bool.and_eq_true, decide_eq_true_eq, List.cons.injEq]
    constructor
    · rintro ⟨same, rest⟩
      exact ⟨s, ⟨same, rfl⟩, rest⟩
    · rintro ⟨_, ⟨same, rfl⟩, rest⟩
      exact ⟨same, rest⟩

theorem matchString_any :
    matchString (.any :: items) s = true ↔ ∃ c rest, s = c :: rest ∧ c ≠ 10 ∧ matchString items rest = true := by
  cases s with
  | nil => simp [matchString]
  | cons c s => simp [matchString]

theorem matchString_anySequence :
    matchString (.anySequence :: items) s = true ↔
      ∃ skipped rest, s = skipped ++ rest ∧ (∀ c ∈ skipped, c ≠ 10) ∧ matchString items rest = true := by
  induction s with
  | nil => simp [matchString]
  | cons c s ih =>
    rw [matchString, Bool.or_eq_true, Bool.and_eq_true, ih]
    constructor
    · rintro (here | ⟨other, skipped, rest, rfl, line, later⟩)
      · exact ⟨[], c :: s, rfl, forall_mem_nil _, here⟩
      · exact ⟨c :: skipped, rest, rfl, forall_mem_cons.mpr ⟨of_decide_eq_true other, line⟩, later⟩
    · rintro ⟨_ | ⟨d, skipped⟩, rest, same, line, later⟩
      · exact .inl (same ▸ later)
      · obtain ⟨rfl, rfl⟩ := List.cons.inj same
        obtain ⟨here, line⟩ := forall_mem_cons.mp line
        exact .inr ⟨decide_eq_true here, skipped, rest, rfl, line, later⟩

theorem matchString_iff_likes (p s : List Nat) : matchString (sqlLikeToRegexPattern p) s = true ↔ Likes (· ≠ 10) p s := by
  fun_induction sqlLikeToRegexPattern p generalizing s with
  | case1 => simp [matchString, Likes]
  | case2 p ih | case3 p ih => simp only [matchString_literal, Likes, ih]
  | case4 p ih => simp only [matchString_anySequence, Likes, ih]
  | case5 p ih => simp only [matchString_any, Likes, ih]
  | case6 c p percent underscore sequence single ih =>
    rw [matchString_literal, Likes]
    · simp only [ih]
    all_goals assumption

/-- LIKE with a pattern is right about a text, whether or not its expression was compiled before. -/
structure LikeRight (target pattern : Text) : Prop where
  right : like (.string target) (.string pattern) = some (.int 1) ↔ SqlLikes (runes pattern) (runes target)
  defined : (like (.string target) (.string pattern)).isSome = true
  cached : likeCached (cachedRegex (some (.string pattern))) (.string target) (.string pattern) =
    likeCached (cachedRegex none) (.string target) (.string pattern)

theorem like_eq_one {target pattern : Text} : like (.string target) (.string pattern) = some (.int 1) ↔
    matchString (sqlLikeToRegexPattern (runes pattern)) (runes target) = true := by
  cases found : matchString (sqlLikeToRegexPattern (runes pattern)) (runes target) <;> simp [like, found]

/-- LIKE is right about a text just where no `%` and no `_` has to take a newline. -/
theorem like_right_iff (target pattern : Text) : LikeRight target pattern ↔
    (SqlLikes (runes pattern) (runes target) → Likes (· ≠ 10) (runes pattern) (runes target)) := by
  have narrow : Likes (· ≠ 10) (runes pattern) (runes target) → SqlLikes (runes pattern) (runes target) :=
    Likes.mono fun _ _ => trivial
  constructor
  · intro right likes
    rw [← matchString_iff_likes, ← like_eq_one]
    exact right.right.mpr likes
  · intro wide
    refine ⟨?_, rfl, rfl⟩
    rw [like_eq_one, matchString_iff_likes]
    exact ⟨narrow, wide⟩

def twoLines : Text := ⟨[97, 10, 98], by decide⟩

def percent : Text := ⟨[37], by decide⟩

/-- A text of two lines is not like `%`. -/
theorem two_lines_not_like_percent :
    like (.string twoLines) (.string percent) = some (.int 0) ∧ SqlLikes (runes percent) (runes twoLines) := by
  refine ⟨?_, [97, 10, 98], [], rfl, fun _ _ => trivial, rfl⟩
  show some (Value.int (if matchString [.anySequence] [97, 10, 98] = true then 1 else 0)) = _
  simp [matchString]

end GoDB.Planner
