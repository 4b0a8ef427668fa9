import Dossier.Text.LetterRanges

/-!
# Letters, digits and blanks

`isAlphabetic` is the Unicode property Alphabetic; `isAlphanumeric` adds the categories Nd, Nl and
No. Both agree with core's ASCII classes below U+0080 by definition. `isBlank` is the Unicode
property White_Space, `isSqlBlank` the five characters that separate tokens of SQL, and `trim` takes
blanks off both ends of a text.
-/

namespace Dossier.Text

/-! ## Letters and digits -/

/-- `n` lies in one of the closed ranges. -/
def inRanges (ranges : List (Nat × Nat)) (n : Nat) : Bool :=
  ranges.any fun r => r.1 ≤ n && n ≤ r.2

def isAscii (c : Char) : Bool := c.toNat < 128

/-- The Unicode property Alphabetic. -/
def isAlphabetic (c : Char) : Bool :=
  if isAscii c then c.isAlpha else inRanges alphabeticRanges c.toNat

/-- Alphabetic, or of the category Nd, Nl or No. -/
def isAlphanumeric (c : Char) : Bool :=
  if isAscii c then c.isAlphanum
  else inRanges alphabeticRanges c.toNat || inRanges numericRanges c.toNat

theorem isAlphanumeric_of_isAlphabetic {c : Char} (h : isAlphabetic c = true) :
    isAlphanumeric c = true := by
  unfold isAlphabetic at h
  unfold isAlphanumeric
  split at h <;> simp_all [Char.isAlphanum]

/-! ## Blanks -/

/-- The Unicode property White_Space. -/
def isBlank (c : Char) : Bool :=
  let n := c.toNat
  (9 ≤ n && n ≤ 13) || n = 0x20 || n = 0x85 || n = 0xa0 || n = 0x1680 || (0x2000 ≤ n && n ≤ 0x200a)
    || n = 0x2028 || n = 0x2029 || n = 0x202f || n = 0x205f || n = 0x3000

/-- The blanks between tokens of SQL: space, tab, line feed, form feed, carriage return. -/
def isSqlBlank (c : Char) : Bool :=
  let n := c.toNat
  n = 0x20 || n = 9 || n = 10 || n = 12 || n = 13

theorem isBlank_of_isSqlBlank {c : Char} (h : isSqlBlank c = true) : isBlank c = true := by
  simp only [isSqlBlank, isBlank, Bool.or_eq_true, decide_eq_true_eq, Bool.and_eq_true] at *
  omega

/-- The text without its leading blanks. -/
def trimStart (cs : List Char) : List Char := cs.dropWhile isBlank

/-- The text without its trailing blanks. -/
def trimEnd (cs : List Char) : List Char := (cs.reverse.dropWhile isBlank).reverse

/-- The text without leading and trailing blanks. -/
def trim (s : String) : String := String.ofList (trimEnd (trimStart s.toList))

end Dossier.Text
