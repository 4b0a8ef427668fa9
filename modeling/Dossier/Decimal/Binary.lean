

/-!
# Doubles as exact numbers

`Binary` is a finite double written as a whole number times a power of two; `ofFloat?` reads it off
the bits. `Magnitude` adds the two infinities, so that integers and doubles are compared by value
and not by rounding one into the other.

The other way, `nearest` is the double nearest to `n * 10 ^ e`. `scaled` is the quicker reading that
rounds twice: the digits that fit 64 bits become a double, and one multiplication or division by a
power of ten brings it to scale.
-/

namespace Dossier.Decimal

/-- The number `mantissa * 2 ^ exponent`, with a sign that zero keeps. -/
structure Binary where
  negative : Bool
  mantissa : Nat
  exponent : Int
deriving DecidableEq, Repr

namespace Binary

/-- The smallest exponent of a double, the one of the subnormals. -/
def leastExponent : Int := -1074

/-- The value of a double's bits; `none` for an infinity and for no number at all. -/
def ofBits? (bits : UInt64) : Option Binary :=
  let n := bits.toNat
  let negative := n / 0x8000000000000000 = 1
  let biased : Nat := n / 0x10000000000000 % 0x800
  let fraction := n % 0x10000000000000
  if biased = 2047 then none
  else if biased = 0 then some ⟨negative, fraction, leastExponent⟩
  else some ⟨negative, 0x10000000000000 + fraction, leastExponent + biased - 1⟩

/-- The value of a finite double. -/
def ofFloat? (x : Float) : Option Binary := ofBits? x.toBits

/-- The numerator of the absolute value over `denominator`. -/
def numerator (b : Binary) : Nat := b.mantissa * Nat.pow 2 b.exponent.toNat

/-- The power of two under the absolute value. -/
def denominator (b : Binary) : Nat := Nat.pow 2 (-b.exponent).toNat

/-- The numerator with its sign. -/
def signed (b : Binary) : Int := if b.negative then -(b.numerator : Int) else b.numerator

end Binary

/-- A number on the line that ends in the two infinities: `numerator / denominator` between them. -/
inductive Magnitude
  | below
  | ratio (numerator : Int) (denominator : Nat)
  | above
deriving DecidableEq, Repr

namespace Magnitude

/-- The place of a whole number. -/
def ofInt (n : Int) : Magnitude := ratio n 1

/-- The place of a double; what is no number stands below all others. -/
def ofFloat (x : Float) : Magnitude :=
  match Binary.ofFloat? x with
  | some b => ratio b.signed b.denominator
  | none => if 0.0 < x then above else below

/-- The order of two places on the line. -/
def compare : Magnitude → Magnitude → Ordering
  | below, below => .eq
  | below, _ => .lt
  | _, below => .gt
  | above, above => .eq
  | above, _ => .gt
  | _, above => .lt
  | ratio a b, ratio c d => Ord.compare (a * d) (c * b)

end Magnitude

/-! ## Reading decimals -/

/-- The double with the sign. -/
def withSign (negative : Bool) (x : Float) : Float := if negative then -x else x

/-- The power `10 ^ n` as a double, for `n ≤ 308`. -/
def powerOfTen (n : Nat) : Float := Float.ofScientific 1 false n

/-- The greatest power of ten that a double holds. -/
def greatestPower : Nat := 308

/-- No decimal longer than this has a nonzero double below it or a finite one above it. -/
def reach : Nat := 400

/-- The double nearest to `n * 10 ^ e`: infinite past the greatest, zero below half the least. -/
def nearest (n : Nat) (e : Int) : Float :=
  if n = 0 then 0.0
  else if 0 ≤ e then
    if reach ≤ e.toNat then Float.ofBits 0x7ff0000000000000 else Float.ofScientific n false e.toNat
  else if (Nat.toDigits 10 n).length + reach ≤ (-e).toNat then 0.0
  else Float.ofScientific n true (-e).toNat

/-- Divides by `10 ^ 308` as long as the exponent is out of the table's reach. -/
def scaleDown : (fuel : Nat) → Float → (e : Nat) → Float
  | 0, f, _ => f
  | fuel + 1, f, e =>
    if e ≤ greatestPower then f / powerOfTen e
    else if f == 0.0 then f
    else scaleDown fuel (f / powerOfTen greatestPower) (e - greatestPower)

/-- `n * 10 ^ e` with one rounding of `n` and one of the scaling; `none` when it is infinite. -/
def scaled? (n : UInt64) (e : Int) : Option Float :=
  let f := n.toFloat
  if 0 ≤ e then
    if e.toNat ≤ greatestPower then
      let x := f * powerOfTen e.toNat
      if x.isInf then none else some x
    else if f == 0.0 then some f else none
  else some (scaleDown (e.natAbs / greatestPower + 1) f e.natAbs)

/-- Reads digits into 64 bits: the number, the count of digits used, and the digits left over from
the first one that does not fit. -/
def takeDigits (n : UInt64) (used : Nat) : List Char → UInt64 × Nat × List Char
  | [] => (n, used, [])
  | c :: cs =>
    let next := 10 * n.toNat + (c.toNat - 48)
    if next < 0x10000000000000000 then takeDigits (UInt64.ofNat next) (used + 1) cs else (n, used, c :: cs)

end Dossier.Decimal
