import Dossier.Decimal.Binary

/-!
# Decimal digits of a double

`shortest` gives the fewest digits that read back as the same double, `significant` a fixed number
of them, rounded half up. Both answer with `Digits`: the digits and where the point stands.
-/

namespace Dossier.Decimal

/-- The number `0.d₁d₂…dₙ * 10 ^ point`; no trailing zero unless the number is zero. -/
structure Digits where
  digits : List Char
  point : Int
deriving DecidableEq, Repr

/-- The decimal digits of a whole number. -/
def natDigits (n : Nat) : List Char := Nat.toDigits 10 n

/-- The `point` for which `10 ^ (point - 1) ≤ num / den < 10 ^ point`, when `0 < num`. -/
def pointOf (num den : Nat) : Int :=
  if den ≤ num then (natDigits (num / den)).length
  else 1 - (natDigits ((den - 1) / num)).length

/-- The digits of `n * 10 ^ unit`, trailing zeros dropped. -/
def Digits.ofScaled (n : Nat) (unit : Int) : Digits :=
  let ds := natDigits n
  match (ds.reverse.dropWhile (· == '0')).reverse with
  | [] => ⟨['0'], 1⟩
  | kept => ⟨kept, ds.length + unit⟩

/-- `num / den` in units of `10 ^ unit`, as a quotient of whole numbers. -/
def inUnits (num den : Nat) (unit : Int) : Nat × Nat :=
  (num * Nat.pow 10 (-unit).toNat, den * Nat.pow 10 unit.toNat)

/-- The doubles next to a mantissa meet halfway: the interval that reads back, its lower end, the
value and its upper end over one denominator. -/
structure Halfway where
  lower : Nat
  value : Nat
  upper : Nat
  denominator : Nat
  closed : Bool

/-- Both ends belong to the interval when the mantissa is even. Below a power of two the
neighbours lie twice as close. -/
def Binary.halfway (b : Binary) : Halfway :=
  let scale := Nat.pow 2 b.exponent.toNat
  let narrow := b.mantissa = 0x10000000000000 && Binary.leastExponent < b.exponent
  { lower := (4 * b.mantissa - if narrow then 1 else 2) * scale
    value := 4 * b.mantissa * scale
    upper := (4 * b.mantissa + 2) * scale
    denominator := 4 * b.denominator
    closed := b.mantissa % 2 = 0 }

/-- The whole number `n` of units lies in the interval. -/
def Halfway.holds (h : Halfway) (unit : Int) (n : Nat) : Bool :=
  let place := n * Nat.pow 10 unit.toNat * h.denominator
  let scaled := fun (x : Nat) => x * Nat.pow 10 (-unit).toNat
  if h.closed then scaled h.lower ≤ place && place ≤ scaled h.upper
  else scaled h.lower < place && place < scaled h.upper

/-- Of the two grid points around the value, the nearest in the interval; the even one on a tie. -/
def Halfway.gridPoint? (h : Halfway) (unit : Int) : Option Nat :=
  let (num, den) := inUnits h.value h.denominator unit
  let down := num / den
  let twice := 2 * (num % den)
  let preferred := if twice < den || (twice = den && down % 2 = 0) then down else down + 1
  let other := if preferred = down then down + 1 else down
  if h.holds unit preferred then some preferred
  else if h.holds unit other then some other
  else none

/-- The first grid, from one digit on, that has a point in the interval. -/
def shortestFrom (h : Halfway) (point : Int) : (remaining : Nat) → (count : Nat) → Digits
  | 0, count =>
    let (num, den) := inUnits h.value h.denominator (point - count)
    .ofScaled (num / den) (point - count)
  | remaining + 1, count =>
    match h.gridPoint? (point - count) with
    | some n => .ofScaled n (point - count)
    | none => shortestFrom h point remaining (count + 1)

/-- The fewest digits that read back as the double; seventeen always do. -/
def shortest (b : Binary) : Digits :=
  if b.mantissa = 0 then ⟨['0'], 1⟩
  else shortestFrom b.halfway (pointOf b.numerator b.denominator) 17 1

/-- The first `count` digits, a half and more rounded up. -/
def significant (count : Nat) (b : Binary) : Digits :=
  if b.mantissa = 0 then ⟨['0'], 1⟩
  else
    let unit := pointOf b.numerator b.denominator - count
    let (num, den) := inUnits b.numerator b.denominator unit
    .ofScaled ((2 * num + den) / (2 * den)) unit

namespace Digits

/-- Digits before and after the point, the point always written. -/
def positional (d : Digits) : List Char :=
  if d.point ≤ 0 then ['0', '.'] ++ List.replicate (-d.point).toNat '0' ++ d.digits
  else
    let whole := d.point.toNat
    let padded := d.digits ++ List.replicate (whole + 1 - d.digits.length) '0'
    padded.take whole ++ '.' :: padded.drop whole

/-- The sign and digits of an exponent, padded to a width. -/
def exponentText (width : Nat) (e : Int) : List Char :=
  let ds := natDigits e.natAbs
  (if e < 0 then '-' else '+') :: (List.replicate (width - ds.length) '0' ++ ds)

/-- One digit, a point with the others, and the exponent; `bare` leaves the point out when no digit
follows it. -/
def scientific (bare : Bool) (width : Nat) (d : Digits) : List Char :=
  let others := d.digits.drop 1
  let tail := if others.isEmpty then (if bare then [] else ['.', '0']) else '.' :: others
  d.digits.take 1 ++ tail ++ 'e' :: exponentText width (d.point - 1)

end Digits

end Dossier.Decimal
