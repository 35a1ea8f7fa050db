/-!
# `Metafile.Decimal.Binary`: the exact value of a floating-point number

A finite floating-point number of 64 bits is a sign, a natural mantissa and a power of two. Both
ways of writing numbers in this library, `Decimal.Fixed` and `Decimal.Shortest`, start from this
exact value and go on in natural numbers.
-/

set_option autoImplicit false

namespace Metafile.Decimal

/-- The magnitude `mantissa · 2 ^ exponent`. -/
structure Binary where
  mantissa : Nat
  exponent : Int
deriving DecidableEq, Repr

namespace Binary

/-- The magnitude as a fraction: this over `denominator`. -/
def numerator (b : Binary) : Nat :=
  b.mantissa * Nat.pow 2 b.exponent.toNat

/-- The power of two below `numerator`. -/
def denominator (b : Binary) : Nat :=
  Nat.pow 2 (-b.exponent).toNat

/-- The denominator is a power of two, so it is not zero. -/
theorem denominator_pos (b : Binary) : 0 < b.denominator :=
  Nat.two_pow_pos _

end Binary

/-- What a floating-point number stands for. -/
inductive Value
  | nan
  | infinite (negative : Bool)
  | finite (negative : Bool) (magnitude : Binary)
deriving DecidableEq, Repr

/-- The value of the 64 bits of a floating-point number: 1 bit of sign, 11 of exponent and 52 of
fraction. The lowest exponent stands for numbers without a leading one, the highest for infinity
and for what is not a number. -/
def Value.ofBits (bits : Nat) : Value :=
  let negative := bits / Nat.pow 2 63 % 2 == 1
  let field : Nat := bits / Nat.pow 2 52 % Nat.pow 2 11
  let fraction : Nat := bits % Nat.pow 2 52
  if field = 2047 then
    if fraction = 0 then .infinite negative else .nan
  else if field = 0 then .finite negative ⟨fraction, -1074⟩
  else .finite negative ⟨Nat.pow 2 52 + fraction, (field : Int) - 1075⟩

/-- The exact value of a floating-point number. -/
def Value.ofFloat (v : Float) : Value :=
  Value.ofBits v.toBits.toNat

/-- The quotient of two natural numbers rounded to the nearest natural number. A quotient halfway
between two of them goes to the even one. -/
def roundDiv (num den : Nat) : Nat :=
  let low := num / den
  if 2 * (num % den) < den then low
  else if den < 2 * (num % den) then low + 1
  else if low % 2 = 0 then low
  else low + 1

end Metafile.Decimal
