/-!
# Double-width binary numbers

A real constant is a binary number with 53 significant bits, kept as its sign, mantissa and
exponent, so that rounding and comparison are exact arithmetic on natural numbers.

`Binary64.ofDecimal` is the correctly rounded value of a decimal: the nearest number of this
format, the one with the even mantissa when two are equally near, an infinity beyond the largest.
-/

namespace Barnamaj.Decimal

/-- A double-width binary number: not a number, an infinity, or `± mantissa · 2 ^ exponent`. -/
inductive Binary64 where
  | nan
  | infinite (negative : Bool)
  | finite (negative : Bool) (mantissa : Nat) (exponent : Int)
deriving DecidableEq, Inhabited

/-- The integer nearest to `num / den`, the even one of two that are equally near. -/
def roundDiv (num den : Nat) : Nat :=
  let quotient := num / den
  let twice := 2 * (num % den)
  if twice < den then quotient
  else if den < twice then quotient + 1
  else quotient + quotient % 2

/-- The power of a base, one if the exponent is negative. A power with any exponent is then the
ratio of two such powers. -/
def power (base : Nat) (e : Int) : Nat := Nat.pow base e.toNat

namespace Binary64

/-- The number of significant bits. -/
def precision : Nat := 53

/-- The least number with too many bits for a mantissa. -/
def mantissaBound : Nat := power 2 precision

/-- The exponent of the numbers next to zero. -/
def minExponent : Int := -1074

/-- The exponent of the largest finite numbers. -/
def maxExponent : Int := 971

/-- The ratio `num / den` divided by `2 ^ e`, as a numerator and a denominator. -/
def scale (num den : Nat) (e : Int) : Nat × Nat :=
  (num * power 2 (-e), den * power 2 e)

/-- The least exponent at which `num / den` has a mantissa of at most 53 bits. -/
def exponentFor (num den : Nat) : Int :=
  -- The ratio lies strictly between the powers of two one below and one above this guess.
  let low := max minExponent ((num.log2 : Int) - den.log2 - precision)
  let scaled := scale num den low
  if scaled.1 < mantissaBound * scaled.2 then low else low + 1

/-- The number of this format nearest to `± num / den`. -/
def ofRatio (negative : Bool) (num den : Nat) : Binary64 :=
  let e := exponentFor num den
  let scaled := scale num den e
  let mantissa := roundDiv scaled.1 scaled.2
  -- Rounding up can reach the next power of two, whose mantissa is one bit too long.
  let carried := mantissa == mantissaBound
  let mantissa := if carried then mantissaBound / 2 else mantissa
  let e := if carried then e + 1 else e
  if maxExponent < e then .infinite negative else .finite negative mantissa e

/-- The zero of a sign. -/
def zero (negative : Bool) : Binary64 :=
  .finite negative 0 minExponent

/-- The number of this format nearest to `± digits · 10 ^ exponent`. -/
def ofDecimal (negative : Bool) (digits : Nat) (exponent : Int) : Binary64 :=
  if digits = 0 then zero negative
  -- Far outside the format's reach the answer is known without the power of ten.
  else if 400 < exponent then .infinite negative
  else if exponent + digits.log2 / 3 + 2 < -400 then zero negative
  else ofRatio negative (digits * power 10 exponent) (power 10 (-exponent))

end Binary64

end Barnamaj.Decimal
