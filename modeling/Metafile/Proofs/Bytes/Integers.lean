import Mathlib.Tactic.Positivity
import Metafile.Bytes.Single
import Metafile.Proofs.Geometry.Alike

/-!
# `Metafile.Proofs.Bytes.Integers`: integers as floating-point numbers

A number of 32 bits has 24 bits of magnitude, so it holds each smaller integer exactly: the bits
that `Single.ofInt` finds for the integer stand for the number that `Float.ofInt` gives
(`Single.toFloat_ofInt`).

Both numbers are found by their parts. The magnitude is moved up until its leading one is in the
place for it, and the exponent counts the places (`Normal.scaled`). A mantissa like that keeps its
value when it is packed, unpacked, or rounded after a product with one.
-/

set_option autoImplicit false

namespace Metafile.Double

open Float.Model (Format UnpackedFloat totalExponent)
open Float.Model.UnpackedFloat

/-- Moved up until its leading one is in a place, a number lies between two powers of two. -/
theorem moved_bounds {n places : Nat} (hzero : n ≠ 0) (hplaces : n.log2 ≤ places) :
    2 ^ places ≤ n * 2 ^ (places - n.log2) ∧ n * 2 ^ (places - n.log2) < 2 ^ (places + 1) := by
  have hsum : n.log2 + (places - n.log2) = places := by omega
  obtain ⟨hlow, hhigh⟩ := (Nat.log2_eq_iff hzero).mp rfl
  constructor
  · calc 2 ^ places = 2 ^ n.log2 * 2 ^ (places - n.log2) := by rw [← Nat.pow_add, hsum]
      _ ≤ n * 2 ^ (places - n.log2) := Nat.mul_le_mul_right _ hlow
  · calc n * 2 ^ (places - n.log2) < 2 ^ (n.log2 + 1) * 2 ^ (places - n.log2) :=
          Nat.mul_lt_mul_of_pos_right hhigh (Nat.two_pow_pos _)
      _ = 2 ^ (places + 1) := by rw [← Nat.pow_add, Nat.add_right_comm, hsum]

/-- A mantissa with the leading one in its place, and an exponent that leaves room for it: what a
number of 64 bits holds exactly. -/
structure Normal (mantissa : Nat) (exponent : Int) : Prop where
  leading : 2 ^ 52 ≤ mantissa
  bounded : mantissa < 2 ^ 53
  least : -1074 ≤ exponent
  greatest : exponent ≤ 971

namespace Normal

variable {m : Nat} {e : Int}

/-- The parts of a number with such a mantissa. -/
def parts (h : Normal m e) (sign : Sign) : UnpackedFloat :=
  .finite sign m e (Nat.lt_of_lt_of_le (Nat.two_pow_pos 52) h.leading)

variable (h : Normal m e) (sign : Sign)
include h

/-- Moved up by some places, the leading one of the mantissa is as many places higher. -/
theorem log2_scaled (places : Nat) : (m * 2 ^ places).log2 = 52 + places := by
  have hm : m * 2 ^ places ≠ 0 := by
    have := h.leading
    have := Nat.two_pow_pos places
    positivity
  rw [Nat.log2_eq_iff hm, Nat.pow_add, Nat.add_right_comm, Nat.pow_add]
  exact ⟨Nat.mul_le_mul_right _ h.leading,
    Nat.mul_lt_mul_of_pos_right h.bounded (Nat.two_pow_pos places)⟩

/-- Moved up by some places, the mantissa still asks for the exponent that it has now. -/
theorem targetExponent_scaled (places : Nat) :
    Format.binary64.targetExponent (totalExponent (m * 2 ^ places) (e - places)) = e := by
  have hleast := h.least
  simp only [Format.targetExponent, totalExponent, h.log2_scaled, Format.mantissaBits,
    Format.minExponent]
  omega

omit h in
/-- Zeros that are moved out of a mantissa leave nothing behind. -/
theorem shiftRight_scaled (m places : Nat) :
    ExtendedMantissa.ofMantissaAndAccuracy (m * 2 ^ places) .exact >>> places =
      ExtendedMantissa.ofMantissaAndAccuracy m .exact := by
  induction places generalizing m with
  | zero => rw [Nat.pow_zero, Nat.mul_one]; rfl
  | succ places ih =>
      change ExtendedMantissa.shiftRightOne
        (ExtendedMantissa.ofMantissaAndAccuracy (m * 2 ^ (places + 1)) .exact >>> places) = _
      rw [Nat.pow_succ', ← Nat.mul_assoc, ih]
      simp only [ExtendedMantissa.shiftRightOne, ExtendedMantissa.ofMantissaAndAccuracy,
        Nat.mul_div_cancel _ Nat.two_pos, Nat.mul_mod_left, bne_self_eq_false, Bool.or_self]

/-- Moved up by some places, the mantissa is moved back to where it was, and no bit is lost. -/
theorem shiftToTargetExponent_scaled (places : Nat) :
    shiftToTargetExponent .binary64 (m * 2 ^ places) (e - places) .exact =
      (.ofMantissaAndAccuracy m .exact, e) := by
  have hplaces : (e - (e - places)).toNat = places := by omega
  have he : e - (places : Int) + places = e := by omega
  rw [shiftToTargetExponent, h.targetExponent_scaled, shiftToExponent, hplaces, shiftRight_scaled,
    he]

/-- A mantissa that was moved up by some places is rounded to what it was. -/
theorem roundWithAccuracy_scaled (places : Nat) :
    roundWithAccuracy .binary64 sign (m * 2 ^ places) (e - places) .exact = h.parts sign := by
  have hm : m ≠ 0 := by have := h.leading; omega
  have hagain := h.shiftToTargetExponent_scaled 0
  rw [Nat.pow_zero, Nat.mul_one, Int.natCast_zero, Int.sub_zero] at hagain
  rw [roundWithAccuracy, h.shiftToTargetExponent_scaled]
  simp only [ExtendedMantissa.roundedMantissa, ExtendedMantissa.ofMantissaAndAccuracy,
    ExtendedMantissa.accuracy, Accuracy.roundToNearestEven, hagain, dif_neg hm, parts]

/-- Such a number is packed with its exponent as it is. It is neither subnormal nor infinite. -/
theorem pack_parts :
    pack .binary64 (h.parts sign) =
      packComponents .binary64 sign (BitVec.ofNat 11 (e + 1075).toNat) (BitVec.ofNat 52 m) := by
  have hleast := h.least
  have hgreatest := h.greatest
  have hlog : m.log2 = 52 := by simpa using h.log2_scaled 0
  have hbias :
      (e + Format.binary64.exponentBias + Format.binary64.mantissaBitsWithoutImplicit).toNat =
      (e + 1075).toNat := by
    have : (Format.binary64.exponentBias : Int) = 1023 := rfl
    simp only [this]
    omega
  have hroom : ¬ 2 ^ Format.binary64.exponentBits ≤ (e + 1075).toNat + 1 := by
    simp only
    omega
  simp only [parts, pack, hbias, if_neg hroom, hlog]
  rfl

omit h in
/-- The sign is found again among the packed bits. -/
theorem unpackSign_packComponents (exponent : BitVec 11) (mantissa : BitVec 52) :
    unpackSign (packComponents .binary64 sign exponent mantissa) = sign.toBitVec := by
  change (sign.toBitVec ++ exponent ++ mantissa).extractLsb' 63 1 = sign.toBitVec
  rw [BitVec.extractLsb'_append_eq_of_le (by decide),
    BitVec.extractLsb'_append_eq_of_le (by decide)]
  exact BitVec.extractLsb'_eq_self

omit h in
/-- The packed bits as a number: the sign, the exponent and the fraction, each in its place. -/
theorem toNat_packComponents (exponent : BitVec 11) (mantissa : BitVec 52) :
    (packComponents .binary64 sign exponent mantissa).toNat =
      sign.toBitVec.toNat * 2 ^ 63 + exponent.toNat * 2 ^ 52 + mantissa.toNat := by
  change (sign.toBitVec ++ exponent ++ mantissa).toNat = _
  rw [BitVec.toNat_append, ← Nat.shiftLeft_add_eq_or_of_lt mantissa.isLt, BitVec.toNat_append,
    ← Nat.shiftLeft_add_eq_or_of_lt exponent.isLt]
  simp only [Nat.shiftLeft_eq]
  omega

/-- The exponent fits into its eleven bits. -/
theorem toNat_exponent : (BitVec.ofNat 11 (e + 1075).toNat).toNat = (e + 1075).toNat := by
  have hgreatest := h.greatest
  rw [BitVec.toNat_ofNat]
  omega

/-- The fraction is the mantissa without its leading one. -/
theorem toNat_fraction : (BitVec.ofNat 52 m).toNat = m - 2 ^ 52 := by
  have hleading := h.leading
  have hbounded := h.bounded
  rw [BitVec.toNat_ofNat]
  omega

/-- The 64 bits of the number, from its parts. -/
theorem toNat_pack :
    (pack .binary64 (h.parts sign)).toNat =
      sign.toBitVec.toNat * 2 ^ 63 + (e + 1075).toNat * 2 ^ 52 + (m - 2 ^ 52) := by
  rw [h.pack_parts, toNat_packComponents, h.toNat_exponent, h.toNat_fraction]

/-- Nothing is lost when such a number is packed. -/
theorem unpack_pack : unpack .binary64 (pack .binary64 (h.parts sign)) = h.parts sign := by
  have hleading := h.leading
  have hleast := h.least
  have hgreatest := h.greatest
  -- the exponent field is neither all ones nor all zeros, so the number is a normal one
  have hones : BitVec.ofNat 11 (e + 1075).toNat ≠ -1#_ := by
    rw [Ne, ← BitVec.toNat_inj, h.toNat_exponent]
    change (e + 1075).toNat ≠ 2047
    omega
  have hzeros : BitVec.ofNat 11 (e + 1075).toNat ≠ 0#_ := by
    rw [Ne, ← BitVec.toNat_inj, h.toNat_exponent]
    change (e + 1075).toNat ≠ 0
    omega
  have hmantissa : (1#1 ++ BitVec.ofNat 52 m).toNat = m := by
    rw [Decimal.toNat_leading_one, h.toNat_fraction]
    omega
  have hexponent : ((e + 1075).toNat : Int) - (1023 + 52) = e := by omega
  have hsign : Sign.ofBitVec sign.toBitVec = sign := by cases sign <;> rfl
  simp only [h.pack_parts, unpack, unpackMantissa_packComponents, unpackExponent_packComponents,
    unpackSign_packComponents, if_neg hones, if_neg hzeros, hsign, h.toNat_exponent]
  simp only [parts, UnpackedFloat.finite.injEq, true_and]
  exact ⟨hmantissa, hexponent⟩

omit h in
/-- An integer below 2 ^ 53 fits into a mantissa when it is moved up until its leading one is in
place. -/
theorem scaled {n : Nat} (hzero : n ≠ 0) (hn : n < 2 ^ 53) :
    Normal (n * 2 ^ (52 - n.log2)) (n.log2 - 52) := by
  have hlog : n.log2 < 53 := (Nat.log2_lt hzero).mpr hn
  obtain ⟨hlow, hhigh⟩ := moved_bounds hzero (show n.log2 ≤ 52 by omega)
  exact ⟨hlow, hhigh, by omega, by omega⟩

end Normal

/-- The parts of an integer other than zero that a number of 64 bits holds exactly. -/
def integerParts (sign : Sign) {n : Nat} (hzero : n ≠ 0) (hn : n < 2 ^ 53) : UnpackedFloat :=
  (Normal.scaled hzero hn).parts sign

/-! ### The number of 64 bits -/

section

variable {n : Nat} (hzero : n ≠ 0) (hn : n < 2 ^ 53)
include hzero hn

/-- A number of 64 bits below 2 ^ 53 is converted without rounding. -/
theorem toFloat_toUInt64 :
    n.toUInt64.toFloat = .ofModel (.pack (integerParts .positive hzero hn)) := by
  -- below two to the power of 53 the shift to a full mantissa loses nothing
  have hlog : n.log2 < 53 := (Nat.log2_lt hzero).mpr hn
  have hword : n.toUInt64.toNat = n := by
    rw [Nat.toUInt64, UInt64.toNat_ofNat']
    omega
  have hpositive : compare (n : Int) 0 = .gt := Int.compare_eq_gt.mpr (by omega)
  have htarget : Format.binary64.targetExponent (totalExponent n 0) = (n.log2 : Int) - 52 := by
    simp only [Format.targetExponent, totalExponent, Format.mantissaBits, Format.minExponent]
    omega
  have hplaces : (0 - ((n.log2 : Int) - 52)).toNat = 52 - n.log2 := by omega
  have hexponent : (0 : Int) - (52 - n.log2 : Nat) = (n.log2 : Int) - 52 := by omega
  have hround := (Normal.scaled hzero hn).roundWithAccuracy_scaled .positive 0
  rw [Nat.pow_zero, Nat.mul_one, Int.natCast_zero, Int.sub_zero] at hround
  rw [UInt64.toFloat, Float.Model.ofUInt64, ofUInt64, hword, ofNat, ofInt]
  simp only [UnpackedFloat.normalize, hpositive, Int.toNat_natCast, UnpackedFloat.round, htarget,
    decreaseExponent, hplaces, Nat.shiftLeft_eq, hexponent, hround]
  rfl

/-- A number with the parts of an integer is the same after a product with one. -/
theorem pack_mul_one :
    Float.Model.pack (integerParts .positive hzero hn) * Float.Model.ofBits 0x3FF0000000000000 =
      .pack (integerParts .positive hzero hn) := by
  have hone : (Float.Model.ofBits 0x3FF0000000000000).unpack =
      .finite .positive (2 ^ 52) (-52) (by decide) := rfl
  have hunpack : (Float.Model.pack (integerParts .positive hzero hn)).unpack =
      integerParts .positive hzero hn := (Normal.scaled hzero hn).unpack_pack .positive
  change Float.Model.mul _ _ = _
  rw [Float.Model.mul, hunpack, hone]
  exact congrArg Float.Model.pack ((Normal.scaled hzero hn).roundWithAccuracy_scaled .positive 52)

/-- A literal below 2 ^ 53 is the integer exactly. -/
theorem ofNat_eq : Float.ofNat n = .ofModel (.pack (integerParts .positive hzero hn)) := by
  change Float.ofScientific n false 0 = _
  rw [Float.ofScientific, dif_pos ⟨hn, by decide⟩]
  change n.toUInt64.toFloat * Float.ofBits 0x3FF0000000000000 = _
  rw [toFloat_toUInt64 hzero hn]
  exact congrArg Float.ofModel (pack_mul_one hzero hn)

/-- The opposite of such an integer has the same parts but for the sign. -/
theorem neg_ofNat :
    Float.neg (Float.ofNat n) = .ofModel (.pack (integerParts .negative hzero hn)) := by
  have hunpack : (Float.Model.pack (integerParts .positive hzero hn)).unpack =
      integerParts .positive hzero hn := (Normal.scaled hzero hn).unpack_pack .positive
  rw [ofNat_eq hzero hn, Float.neg]
  change Float.ofModel (.pack (Float.Model.pack _).unpack.neg) = _
  rw [hunpack]
  rfl

end

end Metafile.Double

/-! ### The number of 32 bits -/

namespace Metafile.Single

open Float.Model.UnpackedFloat

open Double

/-- A quotient without a rest is not rounded. -/
theorem roundDiv_mul (q : Nat) {den : Nat} (hden : 0 < den) :
    Decimal.roundDiv (q * den) den = q := by
  have hrest : 2 * (q * den % den) < den := by
    rw [Nat.mul_mod_left]
    omega
  rw [Decimal.roundDiv, if_pos hrest, Nat.mul_div_cancel _ hden]

/-- The 32 bits of an integer: the place of its leading one, and what is behind the leading one.
-/
theorem ofNat_eq {n : Nat} (hzero : n ≠ 0) (hn : n < 2 ^ 24) :
    ofNat n = (n.log2 + 126) * 2 ^ 23 + n * 2 ^ (23 - n.log2) := by
  have hlog : n.log2 < 24 := (Nat.log2_lt hzero).mpr hn
  have hsum : 23 - n.log2 + n.log2 = 23 := by omega
  have hq : n * 2 ^ 23 = n * 2 ^ (23 - n.log2) * 2 ^ n.log2 := by
    rw [Nat.mul_assoc, ← Nat.pow_add, hsum]
  simp only [ofNat, Nat.pow_eq, if_neg hzero]
  rw [hq, roundDiv_mul _ (Nat.two_pow_pos _)]

/-- The bits of an integer below 2 ^ 24 are a number of 32 bits. -/
theorem ofInt_lt {n : Int} (hn : n.natAbs < 2 ^ 24) : ofInt n < Nat.pow 256 4 := by
  have hmagnitude : ofNat n.natAbs < 2 ^ 31 := by
    by_cases hzero : n.natAbs = 0
    · rw [hzero]
      decide
    · have hlog : n.natAbs.log2 < 24 := (Nat.log2_lt hzero).mpr hn
      have hmoved := (moved_bounds hzero (show n.natAbs.log2 ≤ 23 by omega)).2
      rw [ofNat_eq hzero hn]
      omega
  have hwidth : Nat.pow 256 4 = 2 ^ 32 := rfl
  rw [ofInt, hwidth, Nat.pow_eq]
  split <;> omega

/-- The 64 bits that the three fields of 32 bits are widened to. -/
theorem widen_eq_fields (bits : Nat) :
    widen bits = bits / 2 ^ 31 % 2 * 2 ^ 63 +
      (widenFields (bits / 2 ^ 23 % 2 ^ 8) (bits % 2 ^ 23)).1 * 2 ^ 52 +
      (widenFields (bits / 2 ^ 23 % 2 ^ 8) (bits % 2 ^ 23)).2 := rfl

/-- Widened, 32 bits with a fraction `q` of 24 bits keep the sign and the value. -/
theorem widen_fields {sign leading q : Nat} (hsign : sign < 2) (hleading : leading < 24)
    (hlow : 2 ^ 23 ≤ q) (hhigh : q < 2 ^ (23 + 1)) :
    widen (sign * 2 ^ 31 + ((leading + 126) * 2 ^ 23 + q)) =
      sign * 2 ^ 63 + ((leading : Int) - 52 + 1075).toNat * 2 ^ 52 + (q * 2 ^ 29 - 2 ^ 52) := by
  have hfirst : (sign * 2 ^ 31 + ((leading + 126) * 2 ^ 23 + q)) / 2 ^ 31 % 2 = sign := by omega
  have hexponent : (sign * 2 ^ 31 + ((leading + 126) * 2 ^ 23 + q)) / 2 ^ 23 % 2 ^ 8 =
      leading + 127 := by omega
  have hfraction : (sign * 2 ^ 31 + ((leading + 126) * 2 ^ 23 + q)) % 2 ^ 23 =
      q - 2 ^ 23 := by omega
  have hfields : widenFields (leading + 127) (q - 2 ^ 23) =
      (leading + 1023, (q - 2 ^ 23) * 2 ^ 29) := by
    rw [widenFields, if_neg (by omega), if_pos (by omega), Nat.add_assoc, Nat.pow_eq]
  rw [widen_eq_fields, hfirst, hexponent, hfraction, hfields]
  omega

/-- Widened, the 32 bits of an integer are the 64 bits of its parts. -/
theorem widen_eq (sign : Sign) {n : Nat} (hzero : n ≠ 0) (hn : n < 2 ^ 24) :
    widen (sign.toBitVec.toNat * 2 ^ 31 + ofNat n) =
      (pack .binary64 (integerParts sign hzero (by omega))).toNat := by
  have hlog : n.log2 < 24 := (Nat.log2_lt hzero).mpr hn
  have hsign : sign.toBitVec.toNat < 2 := sign.toBitVec.isLt
  have hplaces : 52 - n.log2 = (23 - n.log2) + 29 := by omega
  obtain ⟨hlow, hhigh⟩ := moved_bounds hzero (show n.log2 ≤ 23 by omega)
  rw [integerParts, Normal.toNat_pack, ofNat_eq hzero hn, hplaces, Nat.pow_add, ← Nat.mul_assoc]
  generalize n * 2 ^ (23 - n.log2) = q at hlow hhigh
  -- `q` has 24 bits, and the first of them counts in the exponent
  exact widen_fields hsign hlog hlow hhigh

/-- The 32 bits of an integer with a sign stand for the number with its parts. -/
theorem toFloat_of_parts (sign : Sign) {n : Nat} (hzero : n ≠ 0) (hn : n < 2 ^ 24) :
    toFloat (sign.toBitVec.toNat * 2 ^ 31 + ofNat n) =
      .ofModel (.pack (integerParts sign hzero (by omega))) := by
  have hbits :
      (UInt64.ofNat (pack .binary64 (integerParts sign hzero (by omega))).toNat).toBitVec =
      pack .binary64 (integerParts sign hzero (by omega)) :=
    (BitVec.ofNat_toNat 64 _).trans (BitVec.setWidth_eq _)
  rw [toFloat, widen_eq sign hzero hn, Float.ofBits, Float.Model.ofBits, hbits]
  exact congrArg (fun u => Float.ofModel (.pack u))
    ((Normal.scaled hzero (by omega)).unpack_pack sign)

/-- A number of 32 bits holds an integer below 2 ^ 24 exactly, whatever its sign. -/
theorem toFloat_ofInt {n : Int} (hn : n.natAbs < 2 ^ 24) : toFloat (ofInt n) = Float.ofInt n := by
  -- the sign is a bit of its own, so the magnitude is converted either way
  cases n with
  | ofNat n =>
      by_cases hzero : n = 0
      · subst hzero
        decide +kernel
      · have h := toFloat_of_parts .positive hzero hn
        rw [← Double.ofNat_eq hzero] at h
        have hbits : ofInt (.ofNat n) = 0 * 2 ^ 31 + ofNat n := by
          have hsign : ¬ Int.ofNat n < 0 := Int.not_lt.mpr (Int.natCast_nonneg n)
          rw [ofInt, if_neg hsign, Nat.zero_mul, Nat.zero_add]
          rfl
        rw [hbits]
        exact h
  | negSucc n =>
      have h := toFloat_of_parts .negative (Nat.succ_ne_zero n) hn
      rw [← neg_ofNat (Nat.succ_ne_zero n)] at h
      have hbits : ofInt (.negSucc n) = 1 * 2 ^ 31 + ofNat (n + 1) := by
        rw [ofInt, if_pos (Int.negSucc_lt_zero n), Nat.pow_eq, Nat.one_mul]
        rfl
      rw [hbits]
      exact h

end Metafile.Single
