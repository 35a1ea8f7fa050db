import Mathlib
import Metafile.Decimal.Fixed
import Metafile.Proofs.Geometry.Alike

/-!
# `Metafile.Proofs.Decimal.Rounding`: the exact value and its rounding

A finite floating-point number is a rational number (`Value.toRat`), and every pattern of 64 bits
has such a value (`Value.ofFloat_ofBits`). Numbers are rounded to whole ten-thousandths in natural
numbers, by a quotient and its remainder. `IsRounding` says what a rounding is without them: no
whole number is nearer, and of two equally near ones it is the even one. There is one rounding
only (`IsRounding.unique`), and `Fixed.isRounding_signedUnits` states that it is what is computed.
-/

set_option autoImplicit false

namespace Metafile.Decimal

open Float.Model (Format UnpackedFloat)

/-! ### The value of a pattern of bits -/

/-- A number made of bits has the value of the bits. All bits that stand for no number make the
same one, so their pattern is lost, but they have the same value. -/
theorem Value.ofFloat_ofBits (bits : UInt64) :
    Value.ofFloat (Float.ofBits bits) = Value.ofBits bits.toNat := by
  -- bits that are no number are replaced by the ones that stand for it
  by_cases hvalid : Format.binary64.Valid bits.toBitVec
  · have hbits : (Float.ofBits bits).toBits = bits :=
      congrArg Float.toBits (Float.ofBits_toBits ⟨bits, hvalid⟩)
    rw [Value.ofFloat, hbits]
  · have hparts : UnpackedFloat.unpack .binary64 bits.toBitVec = .notANumber := by
      by_contra hparts
      refine hvalid ⟨fun hexponent hmantissa => absurd ?_ hparts⟩
      rw [UnpackedFloat.unpack, if_pos hexponent, if_neg hmantissa]
    have hmodel : (Float.ofBits bits).toModel = Float.Model.pack .notANumber :=
      congrArg Float.Model.pack hparts
    calc Value.ofFloat (Float.ofBits bits)
        = Value.ofParts (Float.Model.pack .notANumber).unpack := by rw [Value.ofFloat_eq, hmodel]
      _ = .nan := rfl
      _ = Value.ofBits bits.toNat := by
          rw [← UInt64.toNat_toBitVec, Value.ofBits_eq, hparts]
          rfl

/-! ### The value as a rational number -/

/-- The magnitude as a rational number. -/
def Binary.toRat (b : Binary) : Rat := b.mantissa * 2 ^ b.exponent

/-- The magnitude is a fraction of natural numbers, whichever sign the exponent has. -/
theorem Binary.toRat_eq (b : Binary) : b.toRat = b.numerator / b.denominator := by
  obtain ⟨mantissa, exponent⟩ := b
  rcases exponent with up | down
  · simp [toRat, numerator, denominator]
  · simp [toRat, numerator, denominator, div_eq_mul_inv]

/-- The value as a rational number. What is not a finite number is taken for zero. -/
def Value.toRat : Value → Rat
  | .finite negative b => if negative then -b.toRat else b.toRat
  | _ => 0

/-! ### Roundings -/

/-- A whole number is the rounding of a rational number if no whole number is nearer. Of two that
are as near, it is the even one. -/
structure IsRounding (q : Rat) (n : Int) : Prop where
  near : 2 * |q - n| ≤ 1
  even : 2 * |q - n| = 1 → Even n

namespace IsRounding

variable {q : Rat} {m n : Int}

/-- A whole number that is nearer than a half is the rounding. -/
theorem of_lt (h : 2 * |q - n| < 1) : IsRounding q n := ⟨h.le, fun htie => absurd htie h.ne⟩

/-- There is one rounding only. Two neighbours would be as near as each other, and one of them is
odd. -/
theorem unique (h : IsRounding q m) (k : IsRounding q n) : m = n := by
  by_contra hne
  have hapart : (1 : Rat) ≤ |(m : Rat) - n| := by
    exact_mod_cast Int.one_le_abs (sub_ne_zero.2 hne)
  have hbetween : |(m : Rat) - n| ≤ |q - m| + |q - n| := by
    rw [abs_sub_comm q m]
    exact abs_sub_le _ q _
  have hm := h.near
  have hn := k.near
  have hneighbours : |m - n| ≤ 1 := by
    have hcast : |(m : Rat) - n| ≤ 1 := by linarith
    exact_mod_cast hcast
  obtain ⟨a, ha⟩ := h.even (by linarith)
  obtain ⟨b, hb⟩ := k.even (by linarith)
  obtain ⟨hlow, hhigh⟩ := abs_le.1 hneighbours
  omega

/-- Rounding does not look at the sign. -/
theorem neg (h : IsRounding q n) : IsRounding (-q) (-n) := by
  have hdistance : |-q - (-n : Int)| = |q - n| := by
    rw [abs_sub_comm]
    push_cast
    congr 1
    ring
  refine ⟨?_, fun htie => ?_⟩
  · rw [hdistance]
    exact h.near
  · rw [hdistance] at htie
    exact (h.even htie).neg

/-- Zero is its own rounding. -/
theorem zero : IsRounding 0 0 := .of_lt (by norm_num)

end IsRounding

/-- A quotient of natural numbers is rounded by its remainder. -/
theorem isRounding_roundDiv (num : Nat) {den : Nat} (hden : 0 < den) :
    IsRounding (num / den) (roundDiv num den) := by
  have hpos : (0 : Rat) < den := Nat.cast_pos.2 hden
  have hquotient : (num : Rat) / den = (num / den : Nat) + (num % den : Nat) / den := by
    rw [div_eq_iff hpos.ne', add_mul, div_mul_cancel₀ _ hpos.ne', mul_comm]
    exact_mod_cast (Nat.div_add_mod num den).symm
  have hless : 2 * (num % den) < den ↔ 2 * ((num % den : Nat) / den : Rat) < 1 := by
    rw [← mul_div_assoc, div_lt_one hpos]
    exact_mod_cast Iff.rfl
  have hmore : den < 2 * (num % den) ↔ 1 < 2 * ((num % den : Nat) / den : Rat) := by
    rw [← mul_div_assoc, one_lt_div hpos]
    exact_mod_cast Iff.rfl
  have hpart : ((num % den : Nat) / den : Rat) < 1 := by
    rw [div_lt_one hpos]
    exact_mod_cast Nat.mod_lt num hden
  have hnonneg : (0 : Rat) ≤ (num % den : Nat) / den := by positivity
  rw [hquotient]
  simp only [roundDiv, hless, hmore]
  generalize ((num % den : Nat) / den : Rat) = part at *
  generalize num / den = low
  -- the distance is the part behind the whole number, or what is missing to the next one
  have hdown : |(low + part : Rat) - (low : Int)| = part := by
    rw [Int.cast_natCast, add_sub_cancel_left, abs_of_nonneg hnonneg]
  have hup : |(low + part : Rat) - ((low + 1 : Nat) : Int)| = 1 - part := by
    rw [Int.cast_natCast, Nat.cast_add_one, add_sub_add_left_eq_sub, abs_sub_comm,
      abs_of_nonneg (by linarith)]
  split_ifs with hlow hhigh heven
  · exact .of_lt (by rwa [hdown])
  · exact .of_lt (by rw [hup]; linarith)
  · refine ⟨?_, fun _ => ?_⟩
    · rw [hdown]
      linarith
    · exact_mod_cast Nat.even_iff.2 heven
  · refine ⟨?_, fun _ => ?_⟩
    · rw [hup]
      linarith
    · exact_mod_cast (Nat.not_even_iff_odd.1 (Nat.even_iff.not.2 heven)).add_one

namespace Fixed

/-- The exact value in ten-thousandths. -/
def exactUnits (value : Value) : Rat := 10 ^ places * value.toRat

/-- A number in whole ten-thousandths, with its sign. -/
def signedUnits : Value → Int
  | .finite negative b => if negative then -(units b : Int) else units b
  | _ => 0

/-- The whole number of ten-thousandths is the rounding of the exact value. -/
theorem isRounding_signedUnits (value : Value) :
    IsRounding (exactUnits value) (signedUnits value) := by
  have hnone : IsRounding (10 ^ places * 0) 0 := by
    rw [mul_zero]
    exact IsRounding.zero
  cases value with
  | nan => exact hnone
  | infinite negative => exact hnone
  | finite negative b =>
      have hquotient : 10 ^ places * b.toRat =
          ((b.numerator * Nat.pow 10 places : Nat) : Rat) / b.denominator := by
        rw [Binary.toRat_eq, Nat.cast_mul, Nat.pow_eq, Nat.cast_pow, mul_comm]
        exact (mul_div_right_comm _ _ _).symm
      -- the magnitude is rounded, and the sign carries over
      have hmagnitude : IsRounding (10 ^ places * b.toRat) (units b) := by
        rw [hquotient]
        exact isRounding_roundDiv _ b.denominator_pos
      cases negative with
      | false => exact hmagnitude
      | true =>
          have hneg := hmagnitude.neg
          rwa [← mul_neg] at hneg

end Fixed

end Metafile.Decimal
