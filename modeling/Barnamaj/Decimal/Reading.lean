import Barnamaj.Decimal.Binary64
import Barnamaj.Text.Character

/-!
# Reading a real number

The texts that denote a real: an optional sign, then `inf`, `infinity` or `nan` in any case, or
digits of any script with an optional point and power of ten, where single underscores may stand
between digits. Blanks around the text do not count.
-/

namespace Barnamaj.Decimal

open Text

/-- Split a list at its longest beginning of digits, in which single underscores may separate
digits. -/
def splitDigits : List Char → List Char × List Char
  | '_' :: c :: rest =>
    -- An underscore counts only between two digits; the first one is checked by the caller.
    if isDigit c then
      let split := splitDigits rest
      (c :: split.1, split.2)
    else ([], '_' :: c :: rest)
  | c :: rest =>
    if isDigit c then
      let split := splitDigits rest
      (c :: split.1, split.2)
    else ([], c :: rest)
  | [] => ([], [])

/-- The digits at the front, none if the text starts with an underscore. -/
def leadingDigits : List Char → List Char × List Char
  | '_' :: rest => ([], '_' :: rest)
  | cs => splitDigits cs

/-- A sign and what follows it. -/
def splitSign : List Char → Bool × List Char
  | '-' :: rest => (true, rest)
  | '+' :: rest => (false, rest)
  | cs => (false, cs)

/-- The power of ten at the end of a numeral. -/
def readPower : List Char → Option Int
  | [] => some 0
  | 'e' :: rest | 'E' :: rest =>
    let signed := splitSign rest
    match leadingDigits signed.2 with
    | (d :: ds, []) =>
      let n : Int := numeral (d :: ds)
      some (if signed.1 then -n else n)
    | _ => none
  | _ => none

/-- An unsigned numeral under a sign. -/
def readMagnitude (negative : Bool) (cs : List Char) : Option Binary64 :=
  let whole := leadingDigits cs
  let fraction := match whole.2 with
    | '.' :: rest => leadingDigits rest
    | rest => ([], rest)
  let digits := whole.1 ++ fraction.1
  if digits.isEmpty then none
  else (readPower fraction.2).map fun power =>
    .ofDecimal negative (numeral digits) (power - fraction.1.length)

/-- The number that a text denotes, if it denotes one. -/
def Binary64.ofText? (s : String) : Option Binary64 :=
  let signed := splitSign (trimBlanks s.toList)
  match String.ofList (signed.2.map Char.toLower) with
  | "inf" | "infinity" => some (.infinite signed.1)
  | "nan" => some .nan
  | _ => readMagnitude signed.1 signed.2

end Barnamaj.Decimal
