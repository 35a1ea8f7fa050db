import Mathlib.Algebra.Order.Field.Rat
import Mathlib.Algebra.Order.Ring.Abs
import Mathlib.Tactic.Ring
import Metafile.Geometry.Affine

/-!
# `Metafile.Proofs.Geometry.Exact`: geometry in exact arithmetic

The definitions of geometry run over any scalars. Over the rationals their constants and
operations are those of the field, and an affine map is known by what it does to points:
`Affine.apply_followedBy` says that the product of two maps does the first and then the second.
-/

set_option autoImplicit false

namespace Metafile

/-! ### The scalars as rationals -/

namespace Scalar

/-- The constant zero of the geometry is that of the field. -/
theorem zero_rat : (Scalar.toOfScientific.ofScientific 0 true 1 : Rat) = 0 := by
  decide +kernel

/-- So is the constant one. -/
theorem one_rat : (Scalar.toOfScientific.ofScientific 10 true 1 : Rat) = 1 := by
  decide +kernel

/-- An integer is itself. -/
theorem ofInt_rat (n : Int) : (Scalar.ofInt n : Rat) = n := rfl

/-- Only zero counts as zero. -/
theorem isZero_of_ne {a : Rat} (h : a ≠ 0) : Scalar.isZero a = false :=
  beq_false_of_ne h

/-- Numbers are compared by their order. -/
theorem less_rat (a b : Rat) : Scalar.less a b = decide (a < b) := rfl

/-- The lesser of two numbers is their minimum. -/
theorem least_rat (a b : Rat) : Scalar.least a b = min a b := by
  show (if a < b then a else b) = min a b
  split
  · rw [min_eq_left (le_of_lt ‹_›)]
  · rw [min_eq_right (not_lt.mp ‹_›)]

/-- The magnitude of a number is its absolute value. -/
theorem abs_rat (a : Rat) : Scalar.abs a = |a| := by
  show (if a < 0 then -a else a) = |a|
  split
  · rw [abs_of_neg ‹_›]
  · rw [abs_of_nonneg (not_lt.mp ‹_›)]

end Scalar

/-- The origin. -/
theorem Point.zero_rat : (Point.zero : Point Rat) = ⟨0, 0⟩ := by
  simp only [Point.zero, Scalar.zero_rat]

/-! ### Affine maps by what they do -/

namespace Affine

/-- A scaling has no other entries than its two factors. -/
theorem scaling_rat (sx sy : Rat) : Affine.scaling sx sy = ⟨sx, 0, 0, sy, 0, 0⟩ := by
  simp only [scaling, Scalar.zero_rat]

/-- The product of two maps does the first and then the second. -/
theorem apply_followedBy (a b : Affine Rat) (p : Point Rat) :
    (a.followedBy b).apply p = b.apply (a.apply p) := by
  simp only [followedBy, apply, Point.mk.injEq]
  constructor <;> ring

/-- The identity moves no point. -/
theorem apply_identity (p : Point Rat) : (identity : Affine Rat).apply p = p := by
  simp only [identity, apply, Scalar.zero_rat, Scalar.one_rat, mul_one, mul_zero, add_zero,
    zero_add]

/-- A translation shifts every point alike. -/
theorem apply_translation (dx dy : Rat) (p : Point Rat) :
    (translation dx dy).apply p = p.shift ⟨dx, dy⟩ := by
  simp only [translation, apply, Point.shift, Scalar.zero_rat, Scalar.one_rat, mul_one, mul_zero,
    add_zero, zero_add]

/-- A scaling multiplies each coordinate by its factor. -/
theorem apply_scaling (sx sy : Rat) (p : Point Rat) :
    (scaling sx sy).apply p = ⟨p.x * sx, p.y * sy⟩ := by
  simp only [scaling_rat, apply, mul_zero, add_zero, zero_add]

/-- A rotation is told by any sine and cosine. -/
theorem apply_rotation (sin cos : Rat) (p : Point Rat) :
    (rotation sin cos).apply p = ⟨p.x * cos - p.y * sin, p.x * sin + p.y * cos⟩ := by
  simp only [rotation, apply, Scalar.zero_rat, add_zero, mul_neg, ← sub_eq_add_neg]

end Affine

end Metafile
