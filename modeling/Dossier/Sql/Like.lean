import Dossier.Sql.Limits
import Dossier.Sql.Value

/-!
# Patterns of `LIKE`

`%` stands for any text, `_` for one character, and the escape character takes the next one as it
is. ASCII letters match in either case. Patterns and texts end at the first U+0000. The engine refuses a
pattern of too many bytes (`Like.isTooLong`) when it gets to it.
-/

namespace Dossier

namespace Like

/-- An item of a pattern. -/
inductive Item
  | anything
  | one
  | literal (c : Char)
  | nothing
deriving DecidableEq, Repr

/-- The items of a pattern; an escape character at the end matches nothing. -/
def items (escape : Option Char) : List Char → List Item
  | [] => []
  | c :: rest =>
    if some c = escape then
      match rest with
      | [] => [.nothing]
      | d :: rest => .literal d :: items escape rest
    else if c = '%' then .anything :: items escape rest
    else if c = '_' then .one :: items escape rest
    else .literal c :: items escape rest

/-- The same character up to the case of ASCII letters. -/
def sameChar (c d : Char) : Bool := c.toLower == d.toLower

/-- The test holds of the text or of one of its proper suffixes. -/
def anySuffix (test : List Char → Bool) : List Char → Bool
  | [] => test []
  | c :: cs => test (c :: cs) || anySuffix test cs

/-- The text matches the items. -/
def matchItems : List Item → List Char → Bool
  | [], cs => cs.isEmpty
  | .anything :: rest, cs => anySuffix (matchItems rest) cs
  | .one :: rest, _ :: cs => matchItems rest cs
  | .literal c :: rest, d :: cs => sameChar c d && matchItems rest cs
  | _ :: _, _ => false

/-- A text up to its first U+0000. -/
def untilNul (s : String) : List Char := s.toList.takeWhile (·.toNat != 0)

/-- The engine takes no such pattern. -/
def isTooLong (pattern : String) : Bool := decide (Sql.limits.patternBytes < pattern.utf8ByteSize)

/-- The text matches the pattern. -/
def accepts (escape : Option Char) (pattern text : String) : Bool :=
  matchItems (items escape (untilNul pattern)) (untilNul text)

end Like

namespace Value

/-- `x LIKE pattern`: both sides as texts, unknown when one is null. -/
def like (escape : Option Char) (x pattern : Value) : Truth := do
  return Like.accepts escape (← pattern.text?) (← x.text?)

end Value

end Dossier
