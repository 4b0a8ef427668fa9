import Dossier.Decimal.Binary
import Dossier.Decimal.Digits
import Dossier.Json.Encoding
import Dossier.Text.Ascii

/-!
# Values of the engine

A `Value` is null, an integer, a double or a text. This module has the conversions between them
(`text?`, `real`, `coerce`), the order of values (`order`: null, then numbers by value, then texts),
comparison under an affinity, and the truth of a value in three-valued logic.
-/

namespace Dossier

open Decimal Text

/-- A value of the engine. -/
inductive Value
  | null
  | integer (n : Int)
  | real (x : Float)
  | text (s : String)

instance : Inhabited Value := ⟨.null⟩

/-- A truth value, or none when it is unknown. -/
abbrev Truth := Option Bool

namespace Truth

def not : Truth → Truth
  | some b => some !b
  | none => none

/-- False as soon as one side is false. -/
def and : Truth → Truth → Truth
  | some false, _ => some false
  | _, some false => some false
  | some true, some true => some true
  | _, _ => none

/-- True as soon as one side is true. -/
def or : Truth → Truth → Truth
  | some true, _ => some true
  | _, some true => some true
  | some false, some false => some false
  | _, _ => none

/-- All of them. -/
def all (ts : List Truth) : Truth := ts.foldr Truth.and (some true)

/-- Known to be true. -/
def isTrue (t : Truth) : Bool := t == some true

end Truth

namespace Value

/-! ## Numerals in texts -/

/-- The blanks that may stand around a numeral. -/
def isPadding (c : Char) : Bool := c.toNat = 0x20 || (9 ≤ c.toNat && c.toNat ≤ 13)

/-- A number read off the front of a text, and what follows it. -/
structure Numeral where
  negative : Bool
  digits : Nat
  exponent : Int
  whole : Bool
  complete : Bool

namespace Numeral

/-- The double nearest to the number. -/
def toFloat (n : Numeral) : Float := withSign n.negative (nearest n.digits n.exponent)

/-- The number as an integer, if it is one of 64 signed bits. -/
def signed? (n : Numeral) : Option Int :=
  let value : Int := if n.negative then -n.digits else n.digits
  if n.whole && decide (-0x8000000000000000 ≤ value) && decide (value < 0x8000000000000000) then some value else none

end Numeral

/-- The sign at the front, true for minus, and what follows. -/
def takeSign : List Char → Bool × List Char
  | '-' :: cs => (true, cs)
  | '+' :: cs => (false, cs)
  | cs => (false, cs)

/-- The exponent at the front and what follows it; `none` for a letter `e` without digits. -/
def takeExponent (cs : List Char) : Option Int × List Char :=
  match cs with
  | e :: rest =>
    if e = 'e' || e = 'E' then
      let (negative, ds) := takeSign rest
      match ds.takeWhile Char.isDigit with
      | [] => (none, cs)
      | run =>
        let n : Int := decimalNumber run
        (some (if negative then -n else n), ds.dropWhile Char.isDigit)
    else (some 0, cs)
  | [] => (some 0, [])

/-- The longest numeral at the front of a text, padding before it; complete when only padding
follows it. -/
def numeral? (s : String) : Option Numeral :=
  let (negative, cs) := takeSign (s.toList.dropWhile isPadding)
  let ds := cs.takeWhile Char.isDigit
  let rest := cs.dropWhile Char.isDigit
  let (fraction, point, rest) :=
    match rest with
    | '.' :: more => (more.takeWhile Char.isDigit, true, more.dropWhile Char.isDigit)
    | _ => ([], false, rest)
  if ds.isEmpty && fraction.isEmpty then none
  else
    let (exponent?, after) := takeExponent rest
    let exponent := exponent?.getD 0
    some
      { negative
        digits := decimalNumber (ds ++ fraction)
        exponent := exponent - fraction.length
        whole := !point && rest.length == after.length
        complete := exponent?.isSome && (after.dropWhile isPadding).isEmpty }

/-! ## Conversions -/

/-- The most digits that the engine writes of a double. -/
def realDigits : Nat := 15

/-- A finite double as the engine writes it: fifteen digits, a point with a digit after it, an
exponent of two digits below `1e-4` and from `1e15` on; zero has no sign. -/
def binaryText (b : Binary) : List Char :=
  let d := significant realDigits b
  let body :=
    if -3 ≤ d.point && d.point ≤ (realDigits : Int) then d.positional else d.scientific false 2
  if b.negative && 0 < b.mantissa then '-' :: body else body

/-- A double as the engine writes it. -/
def realText (x : Float) : String :=
  match Binary.ofFloat? x with
  | some b => String.ofList (binaryText b)
  | none => if 0.0 < x then "Inf" else "-Inf"

/-- The value as text; null has none. -/
def text? : Value → Option String
  | null => none
  | integer n => some (String.ofList (Number.intText n))
  | real x => some (realText x)
  | text s => some s

/-- The value as a double; a text counts for the numeral at its front. -/
def toFloat : Value → Float
  | null => 0.0
  | integer n => Float.ofInt n
  | real x => x
  | text s => ((numeral? s).map Numeral.toFloat).getD 0.0

/-- The cast to a double. -/
def castReal : Value → Value
  | null => null
  | v => real v.toFloat

/-- The truth of a value: every number but zero is true. -/
def truth : Value → Truth
  | null => none
  | integer n => some (n != 0)
  | v => some (v.toFloat != 0.0)

/-- One for true, zero for false. -/
def ofBool (b : Bool) : Value := integer (if b then 1 else 0)

/-- The value of a truth. -/
def ofTruth : Truth → Value
  | some b => ofBool b
  | none => null

/-! ## Documents as values -/

/-- A number of a document as a value: an integer if 64 signed bits hold it. -/
def ofNumber (n : Number) : Value :=
  match n.signed? with
  | some i => integer i
  | none => real n.toFloat

/-- A document value as a parameter: booleans are 1 and 0, containers their compact text. -/
def ofJson : Json → Value
  | .null => null
  | .bool b => ofBool b
  | .number n => ofNumber n
  | .string s => text s
  | j => text j.text

/-- A document value as a parameter that holds its JSON text. -/
def jsonText (j : Json) : Value := text j.text

/-- A number as a parameter. -/
def numeric? : Json → Option Value
  | .number n => some (ofNumber n)
  | _ => none

/-! ## Order -/

/-- Null, then numbers, then texts. -/
def rank : Value → Nat
  | null => 0
  | integer _ | real _ => 1
  | text _ => 2

/-- The place of a value among the numbers. -/
def magnitude : Value → Magnitude
  | integer n => .ofInt n
  | real x => .ofFloat x
  | _ => .below

/-- The order of texts by code points. -/
def textOrder : List Char → List Char → Ordering
  | [], [] => .eq
  | [], _ :: _ => .lt
  | _ :: _, [] => .gt
  | a :: as, b :: bs => (compare a.toNat b.toNat).then (textOrder as bs)

/-- How texts are compared. -/
inductive Collation
  | binary
  | noCase
  | trimmed
deriving DecidableEq, Repr

/-- The form of a text that a collation compares. -/
def Collation.key : Collation → String → List Char
  | binary, s => s.toList
  | noCase, s => s.toList.map Char.toLower
  | trimmed, s => (s.toList.reverse.dropWhile (· == ' ')).reverse

/-- The order of all values under a collation. -/
def order (c : Collation) : Value → Value → Ordering
  | text a, text b => textOrder (c.key a) (c.key b)
  | a, b => (compare a.rank b.rank).then (a.magnitude.compare b.magnitude)

/-! ## Comparison -/

/-- The kind of value that a column prefers. -/
inductive Affinity
  | none
  | blob
  | text
  | numeric
  | real
deriving DecidableEq, Repr

namespace Affinity

/-- The affinity converts texts to numbers. -/
def isNumeric : Affinity → Bool
  | numeric | real => true
  | _ => false

/-- The affinity under which two sides are compared. -/
def between : Affinity → Affinity → Affinity
  | none, a => a
  | a, none => a
  | a, b => if a.isNumeric || b.isNumeric then numeric else blob

end Affinity

/-- A text that is a numeral as a whole becomes its number. -/
def toNumber : Value → Value
  | text s =>
    match numeral? s with
    | some n =>
      if n.complete then
        match n.signed? with
        | some i => integer i
        | none => real n.toFloat
      else text s
    | none => text s
  | v => v

/-- A number becomes its text. -/
def toText (v : Value) : Value :=
  match v.text? with
  | some s => text s
  | none => v

def isText : Value → Bool
  | text _ => true
  | _ => false

/-- Both sides of a comparison in the form that the affinity asks for. -/
def align (a : Affinity) (x y : Value) : Value × Value :=
  if a.isNumeric then (x.toNumber, y.toNumber)
  else if a = .text && (x.isText || y.isText) then (x.toText, y.toText)
  else (x, y)

def isNull : Value → Bool
  | null => true
  | _ => false

/-- The order of two values that are not null. -/
def compare? (a : Affinity) (c : Collation) (x y : Value) : Option Ordering :=
  if x.isNull || y.isNull then none
  else let (x, y) := align a x y; some (order c x y)

/-- The six comparisons. -/
inductive Comparison
  | eq
  | ne
  | lt
  | le
  | gt
  | ge
deriving DecidableEq, Repr

namespace Comparison

/-- The operator as SQL text. -/
def text : Comparison → String
  | eq => "="
  | ne => "!="
  | lt => "<"
  | le => "<="
  | gt => ">"
  | ge => ">="

/-- The comparison holds of an order. -/
def holds : Comparison → Ordering → Bool
  | eq, o => o == .eq
  | ne, o => o != .eq
  | lt, o => o == .lt
  | le, o => o != .gt
  | gt, o => o == .gt
  | ge, o => o != .lt

end Comparison

/-- A comparison of two values; unknown when one is null. -/
def test (op : Comparison) (a : Affinity) (c : Collation) (x y : Value) : Truth :=
  (compare? a c x y).map op.holds

/-- Membership in a list: unknown when nothing matches and a null is involved. -/
def member (a : Affinity) (c : Collation) (x : Value) (ys : List Value) : Truth :=
  ys.foldr (fun y t => Truth.or (test .eq a c x y) t) (some false)

end Value

end Dossier
