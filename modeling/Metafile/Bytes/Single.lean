import Metafile.Decimal.Binary

/-!
# `Metafile.Bytes.Single`: floating-point numbers of 32 bits

Files store floating-point numbers in 32 bits: 1 bit of sign, 8 of exponent and 23 of fraction.
Each of them is a number of 64 bits, too, and `Single.toFloat` is that number. Only the way in
which the value is stored changes.

An integer may need more bits than there are. `Single.ofInt` gives the bits of the nearest number.
-/

set_option autoImplicit false

namespace Metafile.Single

/-- The exponent and the fraction that a number of 64 bits needs for the value of 32 bits. The
exponents count from another place, and zeros follow the fraction. A number without a leading one
gets one, unless it is zero. -/
def widenFields (exponent fraction : Nat) : Nat × Nat :=
  if exponent = 255 then (2047, fraction * Nat.pow 2 29)
  else if exponent ≠ 0 then (exponent + 896, fraction * Nat.pow 2 29)
  else if fraction = 0 then (0, 0)
  else
    let leading := Nat.log2 fraction
    (leading + 874, (fraction - Nat.pow 2 leading) * Nat.pow 2 (52 - leading))

/-- The 64 bits of the number that has the value of 32 bits. -/
def widen (bits : Nat) : Nat :=
  let sign := bits / Nat.pow 2 31 % 2
  let (exponent, fraction) :=
    widenFields (bits / Nat.pow 2 23 % Nat.pow 2 8) (bits % Nat.pow 2 23)
  sign * Nat.pow 2 63 + exponent * Nat.pow 2 52 + fraction

/-- The number that 32 bits stand for. -/
def toFloat (bits : Nat) : Float :=
  Float.ofBits (UInt64.ofNat (widen bits))

/-- The 32 bits of the number nearest to a natural number. Halfway between two of them it is the
one with an even fraction. -/
def ofNat (n : Nat) : Nat :=
  if n = 0 then 0
  else
    let leading := Nat.log2 n
    -- the leading one of the fraction counts in the exponent, as does a fraction rounded up to
    -- two
    (leading + 126) * Nat.pow 2 23 + Decimal.roundDiv (n * Nat.pow 2 23) (Nat.pow 2 leading)

/-- The 32 bits of the number nearest to an integer. -/
def ofInt (n : Int) : Nat :=
  if n < 0 then Nat.pow 2 31 + ofNat n.natAbs else ofNat n.natAbs

end Metafile.Single
