/-!
# `Metafile.Geometry.Scalar`: the numbers of geometry

Affine maps, mappings and boxes are defined over any numbers that can be added, multiplied,
divided and compared. A conversion runs over floating-point numbers. The laws of geometry hold in
exact arithmetic, so they are stated over the rationals, for the same definitions.
-/

set_option autoImplicit false

namespace Metafile

/-- Numbers to do geometry with. Constants are written as decimals. -/
class Scalar (α : Type) extends Add α, Sub α, Mul α, Div α, Neg α, OfScientific α where
  /-- The number that equals an integer. -/
  ofInt : Int → α
  /-- The number without its sign. -/
  abs : α → α
  /-- Whether the first number is below the second. -/
  less : α → α → Bool
  /-- Whether a number equals zero. -/
  isZero : α → Bool
  /-- The lower of two numbers. What is not a number loses. -/
  least : α → α → α
  /-- The higher of two numbers. What is not a number loses. -/
  greatest : α → α → α

/-- The lower of two floating-point numbers. What is not a number loses. Of two equal numbers the
second is taken, which shows where they are zeros of different signs. -/
def leastFloat (a b : Float) : Float :=
  if b.isNaN then a else if a < b then a else b

/-- The higher of two floating-point numbers. What is not a number loses. Of two equal numbers the
second is taken. -/
def greatestFloat (a b : Float) : Float :=
  if b.isNaN then a else if b < a then a else b

/-- Floating-point numbers, with which the playing reckons. What is not a number equals nothing
and is less than nothing. -/
instance : Scalar Float where
  ofInt := Float.ofInt
  abs := Float.abs
  less a b := a < b
  isZero a := a == 0
  least := leastFloat
  greatest := greatestFloat

/-- Rational numbers, with which the same formulas are exact. -/
instance : Scalar Rat where
  ofInt n := n
  abs a := if a < 0 then -a else a
  less a b := a < b
  isZero a := a == 0
  least a b := if a < b then a else b
  greatest a b := if b < a then a else b

end Metafile
