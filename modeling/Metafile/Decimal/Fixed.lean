import Metafile.Decimal.Binary

/-!
# `Metafile.Decimal.Fixed`: numbers with at most four decimals

Coordinates and attributes are written with at most four decimals, and with no more of them than
needed. `Fixed.chars` rounds the exact value to a whole number of ten-thousandths, a half to the
even neighbour, and writes that number. A number that rounds to zero has no sign, and what is not
a finite number is written as zero: so every output is a plain decimal that path data can hold.
-/

set_option autoImplicit false

namespace Metafile.Decimal.Fixed

/-- The number of decimals. -/
def places : Nat := 4

/-- The digits of a natural number below `10 ^ width`, with leading zeros. -/
def padded : Nat → Nat → List Char
  | 0, _ => []
  | width + 1, n => padded width (n / 10) ++ [Nat.digitChar (n % 10)]

/-- The digits without the zeros at their end. -/
def trimZeros (digits : List Char) : List Char :=
  (digits.reverse.dropWhile (· == '0')).reverse

/-- The point and the decimals that are needed, or nothing when there are none. -/
def decimals (fraction : Nat) : List Char :=
  match trimZeros (padded places fraction) with
  | [] => []
  | digits => '.' :: digits

/-- A number of ten-thousandths, written as a decimal. -/
def magnitude (units : Nat) : List Char :=
  Nat.toDigits 10 (units / Nat.pow 10 places) ++ decimals (units % Nat.pow 10 places)

/-- A magnitude in whole ten-thousandths. -/
def units (b : Binary) : Nat :=
  roundDiv (b.numerator * Nat.pow 10 places) b.denominator

/-- The characters of a number with at most four decimals. -/
def chars (v : Float) : List Char :=
  match Value.ofFloat v with
  | .finite negative b =>
    if negative && units b != 0 then '-' :: magnitude (units b) else magnitude (units b)
  | _ => ['0']

/-- The text of a number with at most four decimals. -/
def text (v : Float) : String :=
  String.ofList (chars v)

end Metafile.Decimal.Fixed
