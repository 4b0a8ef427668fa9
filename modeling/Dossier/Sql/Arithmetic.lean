import Dossier.Sql.Value

/-!
# Arithmetic of the engine

A text counts for the number at its front. Integers stay integers while 64 signed bits hold the
result and become doubles past that. Null gives null, and so does a division by zero.
-/

namespace Dossier

namespace Value

/-- The value as a number: a text gives the numeral at its front, or zero. -/
def number : Value → Value
  | text s =>
    match numeral? s with
    | some n =>
      match n.signed? with
      | some i => integer i
      | none => real n.toFloat
    | none => integer 0
  | v => v

/-- The integer is one of 64 signed bits. -/
def fits (n : Int) : Bool := decide (-0x8000000000000000 ≤ n) && decide (n < 0x8000000000000000)

/-- A double; what is no number is null. -/
def ofFloat (x : Float) : Value := if x.isNaN then null else real x

/-- An operation on two numbers: exact on integers if the result fits, else on doubles. -/
def arithmetic (exact : Int → Int → Int) (rounded : Float → Float → Float) (x y : Value) : Value :=
  match x.number, y.number with
  | null, _ | _, null => null
  | integer m, integer n =>
    if fits (exact m n) then integer (exact m n)
    else ofFloat (rounded (Float.ofInt m) (Float.ofInt n))
  | a, b => ofFloat (rounded a.toFloat b.toFloat)

def add : Value → Value → Value := arithmetic (· + ·) (· + ·)
def sub : Value → Value → Value := arithmetic (· - ·) (· - ·)
def mul : Value → Value → Value := arithmetic (· * ·) (· * ·)

/-- The value is the number zero. -/
def isZero (v : Value) : Bool := v.toFloat == 0.0

/-- The quotient, toward zero for integers. -/
def div (x y : Value) : Value :=
  if y.number.isZero then null else arithmetic Int.tdiv (· / ·) x y

/-- A double as an integer: its fraction is dropped, and it is brought into 64 signed bits. -/
def truncate (x : Float) : Int :=
  match Decimal.Binary.ofFloat? x with
  | some b => max (-0x8000000000000000) (min 0x7fffffffffffffff (b.signed.tdiv b.denominator))
  | none => if 0.0 < x then 0x7fffffffffffffff else -0x8000000000000000

/-- The integer that the digits at the front of a text write, brought into 64 signed bits. -/
def leadingInteger (s : String) : Int :=
  let (negative, cs) := takeSign (s.toList.dropWhile isPadding)
  let n : Int := Text.decimalNumber (cs.takeWhile Char.isDigit)
  max (-0x8000000000000000) (min 0x7fffffffffffffff (if negative then -n else n))

/-- The value as an integer; a text counts for the digits at its front. -/
def castInteger : Value → Value
  | real x => integer (truncate x)
  | text s => integer (leadingInteger s)
  | v => v

/-- The integer that stands for a value in a remainder: a double loses its fraction, and a text that
begins with no integer counts for the digits at its front. -/
def whole (v : Value) : Int :=
  match v, v.number with
  | _, integer n => n
  | text s, _ => leadingInteger s
  | _, n => truncate n.toFloat

/-- The remainder of two numbers as integers, with the sign of the first. -/
def rem (x y : Value) : Value :=
  match x.number, y.number with
  | null, _ | _, null => null
  | a, b =>
    if y.whole = 0 then null
    else
      let r := x.whole.tmod y.whole
      match a, b with
      | integer _, integer _ => integer r
      | _, _ => real (Float.ofInt r)

/-- The absolute value; none for the least integer, which has none in 64 signed bits. -/
def abs? : Value → Option Value
  | null => some null
  | integer n => if fits n.natAbs then some (integer n.natAbs) else none
  | v => some (real v.toFloat.abs)

/-- The texts of two values one after the other. -/
def concat (x y : Value) : Value :=
  match x.text?, y.text? with
  | some a, some b => text (a ++ b)
  | _, _ => null

end Value

end Dossier
