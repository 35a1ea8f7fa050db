import Metafile.Decimal.Binary

/-!
# `Metafile.Decimal.Shortest`: the fewest digits that read back

Where a number is written in full, it is written with the fewest digits that read back as the same
floating-point number. Of two such texts the nearer one is taken, and of two equally near ones the
larger one. There is never an exponent: `1e22` is a one and 22 zeros.

`Shortest.decimal` looks at grids of 1, 2, … 17 digits in turn. The numbers that read back as the
given one form an interval around it, so a grid has a point in the interval only if one of the two
neighbours on the grid lies in it.
-/

set_option autoImplicit false

namespace Metafile.Decimal

/-- The magnitude `digits · 10 ^ exponent`. -/
structure Scaled where
  digits : Nat
  exponent : Int
deriving DecidableEq, Repr

namespace Shortest

/-- The number of digits before the point of a magnitude that is not zero. It is zero or negative
for a magnitude below one tenth. -/
def integerDigits (b : Binary) : Int :=
  let shift : Nat := 400
  ((Nat.toDigits 10 (b.numerator * Nat.pow 10 shift / b.denominator)).length : Int) - shift

/-- A magnitude and the ends of the interval that reads back as it, all over one denominator in
units of `10 ^ exponent`. -/
structure Interval where
  low : Nat
  value : Nat
  high : Nat
  denominator : Nat
  closed : Bool

/-- The interval of a magnitude, measured in units of `10 ^ exponent`. The interval reaches half a
step to both sides. Below a power of two the steps are half as long. The ends read back as the
magnitude when its mantissa is even. -/
def interval (b : Binary) (exponent : Int) : Interval :=
  let quarter : Binary := ⟨1, b.exponent - 2⟩
  let scale := quarter.numerator * Nat.pow 10 (-exponent).toNat
  let below := if b.mantissa = Nat.pow 2 52 then 1 else 2
  { low := (4 * b.mantissa - below) * scale
    value := 4 * b.mantissa * scale
    high := (4 * b.mantissa + 2) * scale
    denominator := quarter.denominator * Nat.pow 10 exponent.toNat
    closed := b.mantissa % 2 == 0 }

/-- Whether a point of the grid lies in the interval. -/
def Interval.holds (i : Interval) (point : Nat) : Bool :=
  let p := point * i.denominator
  if i.closed then i.low ≤ p && p ≤ i.high else i.low < p && p < i.high

/-- The point of the grid that reads back, if one of the two neighbours does. -/
def Interval.nearest? (i : Interval) : Option Nat :=
  let under := i.value / i.denominator
  match i.holds under, i.holds (under + 1) with
  | true, true =>
    if 2 * i.value < (2 * under + 1) * i.denominator then some under else some (under + 1)
  | true, false => some under
  | false, true => some (under + 1)
  | false, false => none

/-- The decimal with the fewest digits that reads back as the magnitude. -/
def decimal (b : Binary) : Scaled :=
  let whole := integerDigits b
  let onGrid (count : Nat) : Option Scaled :=
    let exponent := whole - count
    (interval b exponent).nearest?.map (⟨·, exponent⟩)
  ((List.range' 1 17).findSome? onGrid).getD ⟨0, 0⟩

/-- The decimal without zeros at the end of its digits. -/
def trimmed (digits : List Char) : List Char :=
  (digits.reverse.dropWhile (· == '0')).reverse

/-- The characters of a decimal in positional notation, without an exponent. -/
def positional (s : Scaled) : List Char :=
  let digits := Nat.toDigits 10 s.digits
  if 0 ≤ s.exponent then digits ++ List.replicate s.exponent.toNat '0'
  else
    let behind := (-s.exponent).toNat
    let padded := List.replicate (behind + 1 - digits.length) '0' ++ digits
    let (whole, fraction) := padded.splitAt (padded.length - behind)
    match trimmed fraction with
    | [] => whole
    | decimals => whole ++ '.' :: decimals

/-- The text of a floating-point number with the fewest digits. Zero keeps its sign. -/
def text (v : Float) : String :=
  match Value.ofFloat v with
  | .nan => "NaN"
  | .infinite negative => if negative then "-inf" else "inf"
  | .finite negative b =>
    let digits := if b.mantissa = 0 then ['0'] else positional (decimal b)
    String.ofList (if negative then '-' :: digits else digits)

end Shortest

end Metafile.Decimal
