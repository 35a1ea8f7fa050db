import Mathlib
import Metafile.Decimal.Fixed
import Metafile.Geometry.Mapping

/-!
# `Metafile.Proofs.Geometry.Alike`: numbers that compare as equal

Two floating-point numbers that compare as equal are the same number, or two zeros that may differ
in their signs (`Alike`). A zero keeps its sign through products and quotients, so what is
computed from alike numbers is alike again, as long as nothing is divided by a zero (`Alike.mul`,
`Alike.div`). A number that is written with few decimals has no sign when it is zero. So alike
numbers are written the same (`Alike.text_eq`), and alike mappings and transforms give alike
matrices (`Mapping.wrapper_alike`).
-/

set_option autoImplicit false

namespace Metafile

open Float.Model (UnpackedFloat Format)
open Float.Model.UnpackedFloat (unpackMantissa unpackExponent unpackSign)

/-! ### The exact value, read off the parts of a number -/

namespace Decimal

/-- What the parts of a floating-point number stand for. -/
def Value.ofParts : UnpackedFloat → Value
  | .notANumber => .nan
  | .infinity sign => .infinite (sign == .negative)
  | .zero sign => .finite (sign == .negative) ⟨0, -1074⟩
  | .finite sign mantissa exponent _ => .finite (sign == .negative) ⟨mantissa, exponent⟩

variable (bits : BitVec Format.binary64.numBits)

/-- The fraction of a number stands in its lowest 52 bits. -/
theorem toNat_unpackMantissa : (unpackMantissa bits).toNat = bits.toNat % 2 ^ 52 := by
  rw [unpackMantissa, BitVec.toNat_cast, BitVec.extractLsb_toNat, Nat.shiftRight_zero]
  rfl

/-- The exponent of a number stands in the eleven bits above the fraction. -/
theorem toNat_unpackExponent : (unpackExponent bits).toNat = bits.toNat / 2 ^ 52 % 2 ^ 11 := by
  rw [unpackExponent, BitVec.toNat_cast, BitVec.extractLsb_toNat, Nat.shiftRight_eq_div_pow]
  rfl

/-- The sign of a number is its highest bit. -/
theorem toNat_unpackSign : (unpackSign bits).toNat = bits.toNat / 2 ^ 63 % 2 := by
  rw [unpackSign, BitVec.toNat_cast, BitVec.extractLsb_toNat, Nat.shiftRight_eq_div_pow]
  rfl

/-- The leading one of a number stands in front of its fraction. -/
theorem toNat_leading_one (fraction : BitVec 52) :
    (1#1 ++ fraction).toNat = 2 ^ 52 + fraction.toNat := by
  rw [BitVec.toNat_append, ← Nat.shiftLeft_add_eq_or_of_lt fraction.isLt]
  rfl

/-- The sign bit is the lowest bit of the number above the other 63. -/
theorem ofBitVec_unpackSign :
    (Float.Model.UnpackedFloat.Sign.ofBitVec (unpackSign bits) == .negative) =
      (bits.toNat / 2 ^ 63 % 2 == 1) := by
  rw [← toNat_unpackSign]
  generalize unpackSign bits = sign
  revert sign
  decide

/-- What some bits stand for is what the parts stand for that are packed in them. -/
theorem Value.ofBits_eq : Value.ofBits bits.toNat = Value.ofParts (.unpack .binary64 bits) := by
  have hfraction : unpackMantissa bits = 0#_ ↔ bits.toNat % 2 ^ 52 = 0 := by
    rw [← BitVec.toNat_inj, toNat_unpackMantissa]
    rfl
  have hlowest : unpackExponent bits = 0#_ ↔ bits.toNat / 2 ^ 52 % 2 ^ 11 = 0 := by
    rw [← BitVec.toNat_inj, toNat_unpackExponent]
    rfl
  have hhighest : unpackExponent bits = -1#_ ↔ bits.toNat / 2 ^ 52 % 2 ^ 11 = 2047 := by
    rw [← BitVec.toNat_inj, toNat_unpackExponent]
    rfl
  have hbias : (Format.binary64.exponentBias : Int) = 1023 := rfl
  -- both sides look at the same three fields
  simp only [Value.ofBits, UnpackedFloat.unpack, hfraction, hlowest, hhighest, Nat.pow_eq]
  split
  case isTrue =>
    split
    case isTrue => rw [ofParts, ofBitVec_unpackSign]
    case isFalse => rfl
  case isFalse =>
    split
    case isTrue hlow =>
      split
      case isTrue hzero => rw [ofParts, ofBitVec_unpackSign, hzero]
      case isFalse =>
        simp only [ofParts, ofBitVec_unpackSign, toNat_unpackMantissa, toNat_unpackExponent, hlow,
          hbias]
        rfl
    case isFalse =>
      simp only [ofParts, ofBitVec_unpackSign, toNat_leading_one, toNat_unpackMantissa,
        toNat_unpackExponent, hbias]
      rfl

/-- The value of a floating-point number is that of its parts. -/
theorem Value.ofFloat_eq (v : Float) : Value.ofFloat v = Value.ofParts v.toModel.unpack :=
  Value.ofBits_eq v.toModel.toBits.toBitVec

/-- A number of no magnitude is written as zero, without a sign. -/
theorem Fixed.units_zero (exponent : Int) : units ⟨0, exponent⟩ = 0 := by
  have hden := Binary.denominator_pos ⟨0, exponent⟩
  simp only [units, Binary.numerator, Nat.zero_mul, roundDiv, Nat.zero_div, Nat.zero_mod,
    Nat.mul_zero, if_pos hden]

end Decimal

/-! ### Alike parts -/

namespace Parts

/-- The same parts, or those of two zeros. -/
def Alike (u v : UnpackedFloat) : Prop :=
  u = v ∨ (∃ sign, u = .zero sign) ∧ ∃ sign, v = .zero sign

variable {u v w x : UnpackedFloat}

/-- Parts are alike to themselves, those of a number that is none included. -/
theorem Alike.refl (u : UnpackedFloat) : Alike u u := .inl rfl

/-- Exponents and mantissas that compare as equal are equal. -/
theorem eq_of_compare {e e' : Int} {m m' : Nat}
    (h : (compare e e').then (compare m m') = .eq) : e = e' ∧ m = m' := by
  obtain ⟨he, hm⟩ := Ordering.then_eq_eq.mp h
  exact ⟨Std.LawfulEqCmp.compare_eq_iff_eq.mp he, Std.LawfulEqCmp.compare_eq_iff_eq.mp hm⟩

/-- Parts that compare as equal are alike. -/
theorem Alike.of_beq (h : u.beq v = true) : Alike u v := by
  have hcompare : u.compare v = some .eq := eq_of_beq h
  -- numbers that compare as equal are the same, or both are zeros
  cases u with
  | notANumber => cases v <;> contradiction
  | infinity s =>
      cases v with
      | infinity s' => cases s <;> cases s' <;> first | exact .refl _ | contradiction
      | _ => cases s <;> contradiction
  | zero s =>
      cases v with
      | zero s' => exact .inr ⟨⟨s, rfl⟩, ⟨s', rfl⟩⟩
      | infinity s' => cases s' <;> contradiction
      | finite s' => cases s' <;> contradiction
      | notANumber => contradiction
  | finite s m e hm =>
      cases v with
      | finite s' m' e' hm' =>
          cases s <;> cases s' <;> try contradiction
          case negative.negative =>
            obtain ⟨rfl, rfl⟩ := eq_of_compare (Ordering.swap_eq_eq.mp (Option.some.inj hcompare))
            exact .refl _
          case positive.positive =>
            obtain ⟨rfl, rfl⟩ := eq_of_compare (Option.some.inj hcompare)
            exact .refl _
      | infinity s' => cases s <;> cases s' <;> contradiction
      | _ => cases s <;> contradiction

/-- Next to a number that is no zero, alike parts are the same. -/
theorem Alike.eq_of_ne_zero (h : Alike u v) (hzero : ∀ sign, u ≠ .zero sign) : u = v := by
  obtain rfl | ⟨⟨sign, hu⟩, _⟩ := h
  · rfl
  · exact absurd hu (hzero sign)

/-- A zero is a zero again when it is packed and unpacked. -/
theorem unpack_pack_zero (sign : Float.Model.UnpackedFloat.Sign) :
    (Float.Model.pack (.zero sign)).unpack = .zero sign := by
  cases sign <;> rfl

/-- Alike parts stay so when they are packed. A zero keeps its sign, and the sign does not matter.
-/
theorem Alike.pack (h : Alike u v) :
    Alike (Float.Model.pack u).unpack (Float.Model.pack v).unpack := by
  obtain rfl | ⟨⟨sign, rfl⟩, ⟨sign', rfl⟩⟩ := h
  · exact .refl _
  · exact .inr ⟨⟨sign, unpack_pack_zero sign⟩, ⟨sign', unpack_pack_zero sign'⟩⟩

/-- Products of alike parts are alike. -/
theorem Alike.mul (h : Alike u v) (h' : Alike w x) :
    Alike (u.mul .binary64 w) (v.mul .binary64 x) := by
  obtain rfl | ⟨⟨s, rfl⟩, ⟨t, rfl⟩⟩ := h <;> obtain rfl | ⟨⟨s', rfl⟩, ⟨t', rfl⟩⟩ := h'
  · exact .refl _
  · cases u <;> first | exact .refl _ | exact .inr ⟨⟨_, rfl⟩, ⟨_, rfl⟩⟩
  · cases w <;> first | exact .refl _ | exact .inr ⟨⟨_, rfl⟩, ⟨_, rfl⟩⟩
  · exact .inr ⟨⟨_, rfl⟩, ⟨_, rfl⟩⟩

/-- Quotients of alike parts are alike when they are not divided by a zero. -/
theorem Alike.div (h : Alike u v) (h' : Alike w x) (hzero : ∀ sign, w ≠ .zero sign) :
    Alike (u.div .binary64 w) (v.div .binary64 x) := by
  obtain rfl := h'.eq_of_ne_zero hzero
  obtain rfl | ⟨⟨s, rfl⟩, ⟨t, rfl⟩⟩ := h
  · exact .refl _
  · cases w with
    | zero sign => exact absurd rfl (hzero sign)
    | notANumber => exact .refl _
    | infinity => exact .inr ⟨⟨_, rfl⟩, ⟨_, rfl⟩⟩
    | finite => exact .inr ⟨⟨_, rfl⟩, ⟨_, rfl⟩⟩

/-- Parts compare as equal to those of a zero exactly if they are those of a zero. -/
theorem beq_zero_iff {sign : Float.Model.UnpackedFloat.Sign} :
    u.beq (.zero sign) = true ↔ ∃ sign, u = .zero sign := by
  constructor
  · intro h
    obtain rfl | ⟨hu, _⟩ := Alike.of_beq h
    · exact ⟨sign, rfl⟩
    · exact hu
  · rintro ⟨s, rfl⟩
    rfl

end Parts

/-! ### Alike numbers -/

/-- The same number, or two zeros that may differ in their signs. -/
def Alike (a b : Float) : Prop := Parts.Alike a.toModel.unpack b.toModel.unpack

namespace Alike

variable {a b c d : Float}

/-- A number is alike to itself, which cannot be said of equality in the arithmetic of such
numbers. -/
theorem refl (a : Float) : Alike a a := Parts.Alike.refl _

/-- Numbers that compare as equal are alike. -/
theorem of_beq (h : (a == b) = true) : Alike a b := Parts.Alike.of_beq h

/-- Products of alike numbers are alike. -/
theorem mul (h : Alike a b) (h' : Alike c d) : Alike (a * c) (b * d) :=
  (Parts.Alike.mul h h').pack

/-- Whether a number is a zero, seen in its parts. -/
theorem isZero_iff : Scalar.isZero a = true ↔ ∃ sign, a.toModel.unpack = .zero sign :=
  Parts.beq_zero_iff

/-- Quotients of alike numbers are alike, if they are not divided by a zero. The quotients by the
two zeros are two infinities. -/
theorem div (h : Alike a b) (h' : Alike c d) (hzero : Scalar.isZero c = false) :
    Alike (a / c) (b / d) := by
  refine (Parts.Alike.div h h' fun sign hc => ?_).pack
  exact absurd (isZero_iff.mpr ⟨sign, hc⟩) (Bool.eq_false_iff.mp hzero)

/-- Of alike numbers both are zero, or neither. -/
theorem isZero_eq (h : Alike a b) : Scalar.isZero a = Scalar.isZero b := by
  rw [Bool.eq_iff_iff, isZero_iff, isZero_iff]
  obtain h | ⟨ha, hb⟩ := h
  · rw [h]
  · exact ⟨fun _ => hb, fun _ => ha⟩

/-- A zero is written without a sign. -/
theorem text_of_zero {sign : Float.Model.UnpackedFloat.Sign} (h : a.toModel.unpack = .zero sign) :
    Decimal.Fixed.text a = "0" := by
  rw [Decimal.Fixed.text, Decimal.Fixed.chars, Decimal.Value.ofFloat_eq, h]
  simp only [Decimal.Value.ofParts, Decimal.Fixed.units_zero, bne_self_eq_false, Bool.and_false]
  decide +kernel

/-- Alike numbers are written the same with few decimals. -/
theorem text_eq (h : Alike a b) : Decimal.Fixed.text a = Decimal.Fixed.text b := by
  obtain h | ⟨⟨sign, ha⟩, ⟨sign', hb⟩⟩ := h
  · rw [Decimal.Fixed.text, Decimal.Fixed.text, Decimal.Fixed.chars, Decimal.Fixed.chars,
      Decimal.Value.ofFloat_eq, Decimal.Value.ofFloat_eq, h]
  · rw [text_of_zero ha, text_of_zero hb]

end Alike

/-! ### Alike transforms and mappings -/

/-- Affine maps of alike numbers. -/
structure Affine.Alike (a b : Affine Float) : Prop where
  m11 : Metafile.Alike a.m11 b.m11
  m12 : Metafile.Alike a.m12 b.m12
  m21 : Metafile.Alike a.m21 b.m21
  m22 : Metafile.Alike a.m22 b.m22
  dx : Metafile.Alike a.dx b.dx
  dy : Metafile.Alike a.dy b.dy

/-- Affine maps that compare as equal are alike. -/
theorem Affine.Alike.of_beq {a b : Affine Float} (h : (a == b) = true) : Affine.Alike a b := by
  have hall : (a.m11 == b.m11 && (a.m12 == b.m12 && (a.m21 == b.m21 && (a.m22 == b.m22 &&
    (a.dx == b.dx && a.dy == b.dy))))) = true := h
  simp only [Bool.and_eq_true] at hall
  obtain ⟨h11, h12, h21, h22, hdx, hdy⟩ := hall
  exact ⟨.of_beq h11, .of_beq h12, .of_beq h21, .of_beq h22, .of_beq hdx, .of_beq hdy⟩

/-- Points of alike numbers. -/
structure Point.Alike (p q : Point Float) : Prop where
  x : Metafile.Alike p.x q.x
  y : Metafile.Alike p.y q.y

/-- The extents of frames that compare as equal are alike. -/
theorem Frame.extent_alike_of_beq {f g : Frame Float} (h : (f == g) = true) :
    Point.Alike f.extent g.extent := by
  have hall : ((f.origin == g.origin) &&
    (f.extent.x == g.extent.x && f.extent.y == g.extent.y)) = true := h
  simp only [Bool.and_eq_true] at hall
  exact ⟨.of_beq hall.2.1, .of_beq hall.2.2⟩

namespace Mapping

/-- The ratio of alike extents. -/
theorem ratio_alike {viewport viewport' window window' : Float} (hv : Alike viewport viewport')
    (hw : Alike window window') : Alike (ratio viewport window) (ratio viewport' window') := by
  rw [ratio, ratio, ← hw.isZero_eq]
  split
  case isTrue => exact .refl _
  case isFalse h => exact hv.div hw (Bool.eq_false_iff.mpr h)

variable {m m' : Mapping Float} {page : Page Float}

/-- The factors of mappings that compare as equal are alike. -/
theorem factors_alike (h : (m == m') = true) :
    Point.Alike (m.factors page) (m'.factors page) := by
  have hall :
      (m.mode == m'.mode && (m.window == m'.window && m.viewport == m'.viewport)) = true := h
  simp only [Bool.and_eq_true, beq_iff_eq] at hall
  obtain ⟨hmode, hwindow, hviewport⟩ := hall
  have hw := Frame.extent_alike_of_beq hwindow
  have hv := Frame.extent_alike_of_beq hviewport
  rw [factors, factors, ← hmode]
  cases m.mode with
  | isotropic => exact ⟨ratio_alike hv.x hw.x, ratio_alike hv.x hw.x⟩
  | anisotropic => exact ⟨ratio_alike hv.x hw.x, ratio_alike hv.y hw.y⟩
  | _ => exact ⟨.refl _, .refl _⟩

/-- An entry that mixes the axes, multiplied by a ratio that is not zero. -/
theorem mixed_mul_alike {v v' k k' : Float} (hv : Alike v v') (hk : Alike k k') :
    Alike (if Scalar.isZero k then v else v * k) (if Scalar.isZero k' then v' else v' * k') := by
  rw [← hk.isZero_eq]
  split
  case isTrue => exact hv
  case isFalse => exact hv.mul hk

/-- An entry that mixes the axes, divided by a ratio that is not zero. -/
theorem mixed_div_alike {v v' k k' : Float} (hv : Alike v v') (hk : Alike k k') :
    Alike (if Scalar.isZero k then v else v / k) (if Scalar.isZero k' then v' else v' / k') := by
  rw [← hk.isZero_eq]
  split
  case isTrue => exact hv
  case isFalse hzero => exact hv.div hk (Bool.eq_false_iff.mpr hzero)

/-- Mappings and transforms that compare as equal give alike matrices. -/
theorem wrapper_alike {world world' : Affine Float} (h : (m == m') = true)
    (hworld : (world == world') = true) :
    Affine.Alike (m.wrapper page world) (m'.wrapper page world') := by
  have hs : Point.Alike (m.factors page) (m'.factors page) := factors_alike h
  have hw := Affine.Alike.of_beq hworld
  -- both ratios are taken, or neither
  have hk : Alike
      (if Scalar.isZero (m.factors page).x then 1.0 else (m.factors page).y / (m.factors page).x)
      (if Scalar.isZero (m'.factors page).x then 1.0
        else (m'.factors page).y / (m'.factors page).x) := by
    rw [← hs.x.isZero_eq]
    split
    case isTrue => exact .refl _
    case isFalse hzero => exact hs.y.div hs.x (Bool.eq_false_iff.mpr hzero)
  exact ⟨hw.m11, mixed_mul_alike hw.m12 hk, mixed_div_alike hw.m21 hk, hw.m22,
    (hw.dx.mul hs.x).mul (.refl _), (hw.dy.mul hs.y).mul (.refl _)⟩

end Mapping

end Metafile
