import Mathlib.Tactic.FieldSimp
import Metafile.Geometry.Mapping
import Metafile.Proofs.Geometry.Exact

/-!
# `Metafile.Proofs.Geometry.Wrapper`: the matrix of a group and the world transform

What is drawn under a world transform is mapped to the page first, and the group around it then
moves it. Mapping the transformed point instead should come to the same, in exact arithmetic.

A mapping stretches both axes and then moves the plane to where it puts the origin
(`Mapping.point_eq`). The matrix of the group is conjugated by the stretch
(`Mapping.wrapper_stretch`), and by nothing else. So the two ways differ by a vector that does not
depend on the point: the one by which the linear part of the matrix moves the image of the origin
(`Mapping.wrapper_apply_point`). The two ways agree exactly where this vector is zero. It is zero
in every mode that has no origins of its own, because there the origin stays where it is.
-/

set_option autoImplicit false

namespace Metafile

/-! ### Maps and vectors over the rationals -/

/-- An affine map without its translation. -/
def Affine.linear {α : Type} [Scalar α] (a : Affine α) : Affine α :=
  { a with dx := 0.0, dy := 0.0 }

/-- The linear part has the other four entries. -/
theorem Affine.linear_rat (a : Affine Rat) : a.linear = ⟨a.m11, a.m12, a.m21, a.m22, 0, 0⟩ := by
  simp only [linear, Scalar.zero_rat]

/-- An affine map is its linear part, and then its translation. -/
theorem Affine.apply_eq_shift (a : Affine Rat) (p : Point Rat) :
    a.apply p = (a.linear.apply p).shift ⟨a.dx, a.dy⟩ := by
  rw [linear_rat]
  simp only [apply, Point.shift, Point.mk.injEq]
  constructor <;> ring

/-- The linear part of an affine map moves a sum by the sum of the images. -/
theorem Affine.linear_shift (a : Affine Rat) (p v : Point Rat) :
    a.linear.apply (p.shift v) = (a.linear.apply p).shift (a.linear.apply v) := by
  rw [linear_rat]
  simp only [apply, Point.shift, Point.mk.injEq]
  constructor <;> ring

/-- A scaling moves a sum by the sum of the images. -/
theorem Affine.scaling_shift (sx sy : Rat) (p v : Point Rat) :
    (Affine.scaling sx sy).apply (p.shift v) =
      ((Affine.scaling sx sy).apply p).shift ((Affine.scaling sx sy).apply v) := by
  rw [scaling_rat]
  simp only [apply, Point.shift, Point.mk.injEq]
  constructor <;> ring

/-- Two shifts can be made in either order. -/
theorem Point.shift_right_comm (p v w : Point Rat) :
    (p.shift v).shift w = (p.shift w).shift v := by
  simp only [shift, Point.mk.injEq]
  constructor <;> ring

/-- A point is shifted to the same place by the same vector only. -/
theorem Point.shift_right_inj {p v w : Point Rat} : p.shift v = p.shift w ↔ v = w := by
  cases v
  cases w
  simp only [shift, Point.mk.injEq, add_right_inj]

namespace Mapping

/-! ### A mapping is a stretch and a translation -/

/-- The part of a mapping that is linear: both axes by their factors, and then the page scale. -/
def stretch (m : Mapping Rat) (page : Page Rat) : Affine Rat :=
  .scaling ((m.factors page).x * page.scale) ((m.factors page).y * page.scale)

/-- A mapping stretches the plane, and then moves it to where it puts the origin. -/
theorem point_eq (m : Mapping Rat) (page : Page Rat) (p : Point Rat) :
    m.point page p = ((m.stretch page).apply p).shift (m.point page .zero) := by
  rw [Point.zero_rat, stretch, Affine.scaling_rat]
  cases h : m.usesOrigins <;>
  · simp only [point, h, Affine.apply, Point.shift, Point.mk.injEq, if_true, Bool.false_eq_true,
      if_false]
    constructor <;> ring

/-- In the modes that have no origins of their own, the origin stays where it is. -/
theorem point_zero_of_not_usesOrigins {m : Mapping Rat} (h : m.usesOrigins = false)
    (page : Page Rat) : m.point page .zero = .zero := by
  simp only [point, h, Point.zero_rat, Bool.false_eq_true, if_false, Rat.zero_mul]

/-! ### The matrix of a group -/

variable {m : Mapping Rat} {page : Page Rat}

/-- With factors that can be undone, the entries of the matrix that mix the axes change by the
ratio of the factors. -/
theorem wrapper_eq (hx : (m.factors page).x ≠ 0) (hy : (m.factors page).y ≠ 0)
    (world : Affine Rat) :
    m.wrapper page world =
      { m11 := world.m11
        m12 := world.m12 * ((m.factors page).y / (m.factors page).x)
        m21 := world.m21 / ((m.factors page).y / (m.factors page).x)
        m22 := world.m22
        dx := world.dx * (m.factors page).x * page.scale
        dy := world.dy * (m.factors page).y * page.scale } := by
  have hzx : Scalar.isZero (m.factors page).x = false := Scalar.isZero_of_ne hx
  have hratio : Scalar.isZero ((m.factors page).y / (m.factors page).x) = false :=
    Scalar.isZero_of_ne (div_ne_zero hy hx)
  simp only [wrapper, hzx, Bool.false_eq_true, if_false, hratio]

/-- The linear part of the matrix acts on stretched points as that of the world transform acts on
the points themselves. -/
theorem wrapper_stretch (hx : (m.factors page).x ≠ 0) (hy : (m.factors page).y ≠ 0)
    (world : Affine Rat) (p : Point Rat) :
    (m.wrapper page world).linear.apply ((m.stretch page).apply p) =
      (m.stretch page).apply (world.linear.apply p) := by
  rw [wrapper_eq hx hy, Affine.linear_rat, Affine.linear_rat, stretch, Affine.scaling_rat]
  simp only [Affine.apply, Point.mk.injEq]
  constructor <;> field_simp <;> ring

/-- The translation of the matrix is the stretched one of the world transform. -/
theorem wrapper_translation (hx : (m.factors page).x ≠ 0) (hy : (m.factors page).y ≠ 0)
    (world : Affine Rat) :
    (⟨(m.wrapper page world).dx, (m.wrapper page world).dy⟩ : Point Rat) =
      (m.stretch page).apply ⟨world.dx, world.dy⟩ := by
  rw [wrapper_eq hx hy, stretch, Affine.scaling_rat]
  simp only [Affine.apply, Point.mk.injEq]
  constructor <;> ring

/-- A mapped point under the matrix is the transformed point, stretched, and moved by the image of
the origin under the linear part of the matrix. -/
theorem wrapper_apply_point_eq (hx : (m.factors page).x ≠ 0) (hy : (m.factors page).y ≠ 0)
    (world : Affine Rat) (p : Point Rat) :
    (m.wrapper page world).apply (m.point page p) =
      ((m.stretch page).apply (world.apply p)).shift
        ((m.wrapper page world).linear.apply (m.point page .zero)) := by
  rw [Affine.apply_eq_shift, wrapper_translation hx hy, point_eq, Affine.linear_shift,
    wrapper_stretch hx hy, Point.shift_right_comm, stretch, ← Affine.scaling_shift,
    ← Affine.apply_eq_shift]

/-- With factors that are not zero, a mapped point under the matrix of the group is where the
mapping puts the transformed point, exactly if the linear part of the matrix leaves the image of
the origin where it is. So it is in every mode that has no origins of its own. In the others the
translation of the matrix does not make up for the origins of the window and the viewport. -/
theorem wrapper_apply_point (hx : (m.factors page).x ≠ 0) (hy : (m.factors page).y ≠ 0)
    (world : Affine Rat) (p : Point Rat) :
    ((m.wrapper page world).apply (m.point page p) = m.point page (world.apply p) ↔
      (m.wrapper page world).linear.apply (m.point page .zero) = m.point page .zero) ∧
    (m.usesOrigins = false →
      (m.wrapper page world).apply (m.point page p) = m.point page (world.apply p)) := by
  have hexact : (m.wrapper page world).apply (m.point page p) = m.point page (world.apply p) ↔
      (m.wrapper page world).linear.apply (m.point page .zero) = m.point page .zero := by
    rw [wrapper_apply_point_eq hx hy, point_eq m page (world.apply p), Point.shift_right_inj]
  refine ⟨hexact, fun horigins => hexact.mpr ?_⟩
  rw [point_zero_of_not_usesOrigins horigins, Affine.linear_rat, Point.zero_rat]
  simp only [Affine.apply, Rat.zero_mul, Rat.zero_add]

/-- A mapping whose axes grow by three and turn over, on a page of half the size. -/
def turnedMapping : Mapping Rat where
  mode := .anisotropic
  window := ⟨⟨1, 2⟩, ⟨2, 4⟩⟩
  viewport := ⟨⟨3, -4⟩, ⟨6, -8⟩⟩

/-- The mapping puts the origin at itself, so a transform of all six numbers acts on the page as
it does on logical points. -/
theorem wrapper_apply_point_turned :
    (turnedMapping.wrapper ⟨1 / 2, 1⟩ ⟨1, 2, 3, 4, 5, 6⟩).apply
        (turnedMapping.point ⟨1 / 2, 1⟩ ⟨7, 8⟩) =
      turnedMapping.point ⟨1 / 2, 1⟩ ((⟨1, 2, 3, 4, 5, 6⟩ : Affine Rat).apply ⟨7, 8⟩) :=
  (wrapper_apply_point (by decide +kernel) (by decide +kernel) _ _).1.mpr (by decide +kernel)

/-- A viewport moved by ten units to the right. -/
def movedViewport : Mapping Rat where
  mode := .anisotropic
  window := ⟨⟨0, 0⟩, ⟨1, 1⟩⟩
  viewport := ⟨⟨10, 0⟩, ⟨1, 1⟩⟩

/-- Under a moved viewport, a transform that doubles everything moves the origin of the picture by
another ten units. -/
theorem wrapper_moves_origin :
    (movedViewport.factors ⟨1, 1⟩).x ≠ 0 ∧ (movedViewport.factors ⟨1, 1⟩).y ≠ 0 ∧
      (movedViewport.wrapper ⟨1, 1⟩ (.scaling 2 2)).apply (movedViewport.point ⟨1, 1⟩ .zero) ≠
        movedViewport.point ⟨1, 1⟩ ((Affine.scaling 2 2).apply .zero) := by
  decide +kernel

end Mapping

end Metafile
