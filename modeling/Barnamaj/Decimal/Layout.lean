import Barnamaj.Decimal.Shortest

/-!
# The text of a real number

Digits are laid out positionally around the decimal point, or with a power of ten when the number
is very large or very small. `Layout.real` holds the choices made for real constants.
-/

namespace Barnamaj.Decimal

/-- The choices in the text of a number. -/
structure Layout where
  /-- The least power of ten of a leading digit that is written positionally. -/
  least : Int
  /-- The first power of ten of a leading digit that is not written positionally any more. -/
  bound : Int
  /-- The least number of digits of a written power of ten. -/
  exponentWidth : Nat
  /-- The text that closes a positional number without a fraction. -/
  wholeEnd : List Char

/-- Real constants are positional from `0.0001` up to below `10 ^ 16`, always show a fraction or a
power of ten, and write the power with its sign and at least two digits. -/
def Layout.real : Layout :=
  { least := -4, bound := 16, exponentWidth := 2, wholeEnd := ['.', '0'] }

namespace Digits

variable (layout : Layout) (d : Digits)

/-- The digits around a decimal point. -/
def positional : List Char :=
  if d.point ≤ 0 then '0' :: '.' :: List.replicate (-d.point).toNat '0' ++ d.digits
  else if (d.digits.length : Int) ≤ d.point then
    d.digits ++ List.replicate (d.point.toNat - d.digits.length) '0' ++ layout.wholeEnd
  else d.digits.take d.point.toNat ++ '.' :: d.digits.drop d.point.toNat

/-- One digit before the point, and a power of ten. -/
def scientific : List Char :=
  let power := d.point - 1
  let fraction := match d.digits.drop 1 with
    | [] => []
    | rest => '.' :: rest
  let digits := Nat.toDigits 10 power.natAbs
  d.digits.take 1 ++ fraction ++ 'e' :: (if power < 0 then '-' else '+') ::
    List.replicate (layout.exponentWidth - digits.length) '0' ++ digits

/-- The digits as a text. -/
def text : List Char :=
  if layout.least ≤ d.point - 1 ∧ d.point - 1 < layout.bound then d.positional layout
  else d.scientific layout

end Digits

/-- The text of a number: its shortest digits in the layout of real constants. -/
def Binary64.text : Binary64 → String
  | .nan => "nan"
  | .infinite negative => if negative then "-inf" else "inf"
  | .finite negative mantissa exponent =>
    let digits :=
      if mantissa = 0 then '0' :: Layout.real.wholeEnd
      else (Neighbourhood.shortest ⟨mantissa, exponent⟩).text .real
    String.ofList (if negative then '-' :: digits else digits)

end Barnamaj.Decimal
