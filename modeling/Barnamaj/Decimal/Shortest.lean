import Barnamaj.Decimal.Binary64

/-!
# The shortest decimal of a binary number

A binary number is written with the fewest digits that still round to it, and, of the decimals of
that length, with the nearest one. The decimals that round to `m · 2 ^ e` fill an interval around
it; the digits are found by testing the two neighbours of the number on ever finer decimal grids.
-/

namespace Barnamaj.Decimal

/-- The digits of a positive decimal `0.d₁d₂… · 10 ^ point`, without trailing zeros. -/
structure Digits where
  digits : List Char
  point : Int
deriving DecidableEq

/-- The place of the leading digit of `num / den`, that is, the least `k` with
`num / den < 10 ^ k`. The ratio is taken to be at least `10 ^ -400`. -/
def leadingPlace (num den : Nat) : Int :=
  ((Nat.toDigits 10 (num * power 10 400 / den)).length : Int) - 400

/-- A positive number `mantissa · 2 ^ exponent` and the interval of reals that round to it, in
quarters of its last place; the ends belong to the interval when the mantissa is even. -/
structure Neighbourhood where
  mantissa : Nat
  exponent : Int

namespace Neighbourhood

variable (v : Neighbourhood)

/-- The lower end. Below a power of two the neighbouring number is only half as far away. -/
def lower : Nat :=
  if v.mantissa = Binary64.mantissaBound / 2 ∧ v.exponent ≠ Binary64.minExponent
  then 4 * v.mantissa - 1 else 4 * v.mantissa - 2

/-- The upper end. -/
def upper : Nat := 4 * v.mantissa + 2

/-- The step of the decimal grid `10 ^ place`, on a scale that makes grid points and quarters of
the last place integers. -/
def step (place : Int) : Nat := power 10 place * power 2 (2 - v.exponent)

/-- A quarter of the last place, on the scale of `step`. -/
def quarter (place : Int) : Nat := power 2 (v.exponent - 2) * power 10 (-place)

/-- Whether the point `n` of the grid `10 ^ place` rounds to the number. -/
def holds (place : Int) (n : Nat) : Bool :=
  let at_ := n * v.step place
  let low := v.lower * v.quarter place
  let high := v.upper * v.quarter place
  if v.mantissa % 2 = 0 then decide (low ≤ at_) && decide (at_ ≤ high)
  else decide (low < at_) && decide (at_ < high)

/-- The point of the grid `10 ^ place` that is nearest to the number among those that round to it.
The two neighbours of the number on the grid are the only candidates. -/
def nearestOn? (place : Int) : Option Nat :=
  let centre := 4 * v.mantissa * v.quarter place
  let below := centre / v.step place
  match v.holds place below, v.holds place (below + 1) with
  | false, false => none
  | true, false => some below
  | false, true => some (below + 1)
  | true, true => some (roundDiv centre (v.step place))

/-- The first hit on the grids of `count` digits and more, up to `count + fuel`. -/
def searchFrom (leading : Int) (count : Nat) : Nat → Nat × Int
  | 0 => (roundDiv (4 * v.mantissa * v.quarter (leading - count)) (v.step (leading - count)),
      leading - count)
  | fuel + 1 =>
    match v.nearestOn? (leading - count) with
    | some n => (n, leading - count)
    | none => searchFrom leading (count + 1) fuel

/-- The shortest digits; seventeen always suffice. -/
def shortest : Digits :=
  let leading := leadingPlace (v.mantissa * power 2 v.exponent) (power 2 (-v.exponent))
  let found := v.searchFrom leading 1 16
  let digits := Nat.toDigits 10 found.1
  { digits := (digits.reverse.dropWhile (· == '0')).reverse
    point := digits.length + found.2 }

end Neighbourhood

end Barnamaj.Decimal
