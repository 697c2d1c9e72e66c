import GoDB.Common.Types

/-! LIKE patterns. The source turns a pattern into a regular expression; what that expression
matches is defined here on its items. Texts are matched by runes. -/

namespace GoDB.Planner
open Common Lib

/-- `utf8.RuneError`, which stands for every byte that is not part of a rune. -/
def runeError : Nat := 0xFFFD

/-- The number of bytes that a rune has by its first one, and where its second byte lies. -/
def acceptRange (first : Nat) : Option (Nat × Nat × Nat) :=
  if 0xC2 ≤ first ∧ first ≤ 0xDF then some (2, 0x80, 0xBF)
  else if first = 0xE0 then some (3, 0xA0, 0xBF)
  else if first = 0xED then some (3, 0x80, 0x9F)
  else if 0xE1 ≤ first ∧ first ≤ 0xEF then some (3, 0x80, 0xBF)
  else if first = 0xF0 then some (4, 0x90, 0xBF)
  else if 0xF1 ≤ first ∧ first ≤ 0xF3 then some (4, 0x80, 0xBF)
  else if first = 0xF4 then some (4, 0x80, 0x8F)
  else none

/-- The rune at the start of a text, and the bytes after the first one that belong to it. -/
def decodeRune (first : Nat) (rest : List Nat) : Nat × Nat :=
  if first < 0x80 then (first, 0)
  else
    match acceptRange first with
    | none => (runeError, 0)
    | some (size, low, high) =>
      let tail := rest.take (size - 1)
      if tail.length = size - 1 ∧ (∀ byte ∈ tail.head?, low ≤ byte ∧ byte ≤ high) ∧
          ∀ byte ∈ tail, 0x80 ≤ byte ∧ byte ≤ 0xBF then
        (tail.foldl (fun rune byte => rune * 64 + byte % 64) (first % 2 ^ (7 - size)), size - 1)
      else (runeError, 0)

def runesFrom : Nat → List Nat → List Nat
  | 0, _ | _, [] => []
  | fuel + 1, first :: rest =>
    let (rune, more) := decodeRune first rest
    rune :: runesFrom fuel (rest.drop more)

def runes (text : Text) : List Nat := runesFrom text.val.length (text.val.map (·.val))

inductive LikeItem where
  | literal (rune : Nat)
  /-- `.` -/
  | any
  /-- `.*` -/
  | anySequence
deriving DecidableEq

/-- What `sqlLikeToRegexPattern` writes between `^` and `$`. -/
def sqlLikeToRegexPattern : List Nat → List LikeItem
  | [] => []
  | 92 :: 37 :: rest => .literal 37 :: sqlLikeToRegexPattern rest
  | 92 :: 95 :: rest => .literal 95 :: sqlLikeToRegexPattern rest
  | 37 :: rest => .anySequence :: sqlLikeToRegexPattern rest
  | 95 :: rest => .any :: sqlLikeToRegexPattern rest
  | c :: rest => .literal c :: sqlLikeToRegexPattern rest

/-- Whether the expression matches all of a text. A dot does not match a newline. -/
def matchString : List LikeItem → List Nat → Bool
  | [], target => target.isEmpty
  | .literal _ :: _, [] | .any :: _, [] => false
  | .literal rune :: items, c :: target => c = rune && matchString items target
  | .any :: items, c :: target => c ≠ 10 && matchString items target
  | .anySequence :: items, [] => matchString items []
  | .anySequence :: items, c :: target =>
    matchString items (c :: target) || c ≠ 10 && matchString (.anySequence :: items) target
termination_by items target => items.length + target.length

/-- `LikeExpression.Eval` of a value that is not NULL. `StringValue` panics on an integer. -/
def like (val patternVal : Value) : Option Value :=
  match val, patternVal with
  | .string _, .null _ => some (.null .int)
  | .string target, .string pattern =>
    some (.int (if matchString (sqlLikeToRegexPattern (runes pattern)) (runes target) then 1 else 0))
  | _, _ => none

/-- What `NewLikeExpression` compiles beforehand: the expression of a constant pattern. A
constant that is no text panics there already. -/
def cachedRegex : Option Value → Option (List LikeItem)
  | some (.string pattern) => some (sqlLikeToRegexPattern (runes pattern))
  | _ => none

def likeCached (cached : Option (List LikeItem)) (val patternVal : Value) : Option Value :=
  match cached, val with
  | none, _ => like val patternVal
  | some items, .string target => some (.int (if matchString items (runes target) then 1 else 0))
  | some _, _ => none

end GoDB.Planner
