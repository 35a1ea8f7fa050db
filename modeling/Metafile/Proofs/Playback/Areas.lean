import Mathlib.Tactic.Linarith
import Metafile.Playback.Picture
import Metafile.Proofs.Geometry.Wrapper

/-!
# `Metafile.Proofs.Playback.Areas`: areas with and without a picture

A picture covers the rectangle between the two corners of its area on the page. Without a picture
the brush paints an area from the first corner on, with sides that are lengths on the page. A
length does not know the direction of its axis. So both areas have the same size, and they are the
same area where the axes that count are not turned over; where one is turned over, the brush
paints on the other side of the corner (`Playback.bounds_paintedCorners_iff`).

All of it is exact arithmetic: the definitions are those of the conversion, over the rationals.
-/

set_option autoImplicit false

namespace Metafile

/-! ### The least rectangle around points -/

namespace Rect

/-- The least rectangle around some points: all of them lie in it, and one of them on each side.
-/
structure Bounds (r : Rect Rat) (ps : List (Point Rat)) : Prop where
  inside : ∀ p ∈ ps, (r.x ≤ p.x ∧ p.x ≤ r.x + r.width) ∧ r.y ≤ p.y ∧ p.y ≤ r.y + r.height
  left : ∃ p ∈ ps, p.x = r.x
  right : ∃ p ∈ ps, p.x = r.x + r.width
  top : ∃ p ∈ ps, p.y = r.y
  bottom : ∃ p ∈ ps, p.y = r.y + r.height

/-- Whether a rectangle is the least one around some points is found by looking at each of them.
-/
instance (r : Rect Rat) (ps : List (Point Rat)) : Decidable (r.Bounds ps) :=
  decidable_of_iff
    ((∀ p ∈ ps, (r.x ≤ p.x ∧ p.x ≤ r.x + r.width) ∧ r.y ≤ p.y ∧ p.y ≤ r.y + r.height) ∧
      (∃ p ∈ ps, p.x = r.x) ∧ (∃ p ∈ ps, p.x = r.x + r.width) ∧
      (∃ p ∈ ps, p.y = r.y) ∧ ∃ p ∈ ps, p.y = r.y + r.height)
    ⟨fun ⟨inside, left, right, top, bottom⟩ => ⟨inside, left, right, top, bottom⟩,
      fun h => ⟨h.inside, h.left, h.right, h.top, h.bottom⟩⟩

/-- There is one least rectangle. -/
theorem Bounds.unique {r r' : Rect Rat} {ps : List (Point Rat)} (h : r.Bounds ps)
    (h' : r'.Bounds ps) : r = r' := by
  obtain ⟨p₁, hp₁, hleft⟩ := h.left
  obtain ⟨p₂, hp₂, hright⟩ := h.right
  obtain ⟨p₃, hp₃, htop⟩ := h.top
  obtain ⟨p₄, hp₄, hbottom⟩ := h.bottom
  obtain ⟨q₁, hq₁, hleft'⟩ := h'.left
  obtain ⟨q₂, hq₂, hright'⟩ := h'.right
  obtain ⟨q₃, hq₃, htop'⟩ := h'.top
  obtain ⟨q₄, hq₄, hbottom'⟩ := h'.bottom
  -- the points on the sides of each rectangle lie in the other one
  have hx : r.x = r'.x :=
    le_antisymm (hleft' ▸ (h.inside q₁ hq₁).1.1) (hleft ▸ (h'.inside p₁ hp₁).1.1)
  have hy : r.y = r'.y :=
    le_antisymm (htop' ▸ (h.inside q₃ hq₃).2.1) (htop ▸ (h'.inside p₃ hp₃).2.1)
  have hx' : r.x + r.width = r'.x + r'.width :=
    le_antisymm (hright ▸ (h'.inside p₂ hp₂).1.2) (hright' ▸ (h.inside q₂ hq₂).1.2)
  have hy' : r.y + r.height = r'.y + r'.height :=
    le_antisymm (hbottom ▸ (h'.inside p₄ hp₄).2.2) (hbottom' ▸ (h.inside q₄ hq₄).2.2)
  cases r
  cases r'
  simp only [mk.injEq] at hx hy hx' hy' ⊢
  refine ⟨hx, hy, ?_, ?_⟩ <;> linarith

/-- Between two corners lies the rectangle from the lesser coordinates on, with the distances as
its sides. -/
theorem between_rat (p q : Point Rat) :
    Rect.between p q = ⟨min p.x q.x, min p.y q.y, |q.x - p.x|, |q.y - p.y|⟩ := by
  simp only [between, Scalar.least_rat, Scalar.abs_rat]

/-- The lower end of an interval and its length give the upper end. -/
theorem min_add_abs_sub (a b : Rat) : min a b + |b - a| = max a b := by
  rw [← max_sub_min_eq_abs', min_comm b a, max_comm b a]
  ring

/-- The rectangle between two points is the least one around the four corners that they make. -/
theorem bounds_between (p v : Point Rat) :
    (Rect.between p (p.shift v)).Bounds
      [p, p.shift ⟨v.x, 0⟩, p.shift v, p.shift ⟨0, v.y⟩] := by
  have hx := min_add_abs_sub p.x (p.x + v.x)
  have hy := min_add_abs_sub p.y (p.y + v.y)
  rw [between_rat]
  simp only [Point.shift, add_zero]
  constructor
  · -- each coordinate is the lower end, the upper end, or both
    simp only [List.forall_mem_cons, List.not_mem_nil, false_implies, implies_true, hx, hy,
      min_le_left, min_le_right, le_max_left, le_max_right, and_self]
  · rcases min_choice p.x (p.x + v.x) with h | h <;> rw [h] <;> simp
  · rcases max_choice p.x (p.x + v.x) with h | h <;> rw [hx, h] <;> simp
  · rcases min_choice p.y (p.y + v.y) with h | h <;> rw [h] <;> simp
  · rcases max_choice p.y (p.y + v.y) with h | h <;> rw [hy, h] <;> simp

/-- With one point given, the rectangle tells the other one. -/
theorem between_right_inj {p q q' : Point Rat} :
    Rect.between p q = Rect.between p q' ↔ q = q' := by
  refine ⟨fun h => ?_, fun h => h ▸ rfl⟩
  -- the ends of an interval add up to the sum of the two coordinates
  have hend {a b b' : Rat} (hmin : min a b = min a b') (habs : |b - a| = |b' - a|) : b = b' := by
    have hmax : max a b = max a b' := by
      rw [← min_add_abs_sub, ← min_add_abs_sub, hmin, habs]
    have hsum := min_add_max a b
    rw [hmin, hmax, min_add_max] at hsum
    linarith
  rw [between_rat, between_rat, Rect.mk.injEq] at h
  obtain ⟨hx, hy, hwidth, hheight⟩ := h
  cases q
  cases q'
  rw [Point.mk.injEq]
  exact ⟨hend hx hwidth, hend hy hheight⟩

end Rect

namespace Playback

variable {m : Mapping Rat} {page : Page Rat}

/-! ### Two ways to the opposite corner -/

/-- The point of the page for the opposite corner of an area. -/
theorem point_opposite (corner size : Point Int) :
    m.point page (.ofInt ⟨corner.x + size.x, corner.y + size.y⟩) =
      (m.point page (.ofInt corner)).shift
        ⟨size.x * ((m.factors page).x * page.scale),
          size.y * ((m.factors page).y * page.scale)⟩ := by
  rw [m.point_eq page (.ofInt ⟨corner.x + size.x, corner.y + size.y⟩),
    m.point_eq page (.ofInt corner), Mapping.stretch, Affine.scaling_rat]
  simp only [Affine.apply, Point.shift, Point.ofInt, Scalar.ofInt_rat, Point.mk.injEq]
  push_cast
  constructor <;> ring

/-- The lengths of an area on the page, which do not know the direction of an axis. -/
theorem lengths_eq (size : Point Int) :
    m.lengths page (.ofInt size) =
      ⟨size.x * (|(m.factors page).x| * page.scale),
        size.y * (|(m.factors page).y| * page.scale)⟩ := by
  simp only [Mapping.lengths, Mapping.lengthX, Mapping.lengthY, Point.ofInt, Scalar.ofInt_rat,
    Scalar.abs_rat, mul_assoc]

/-- A length agrees with the difference of two points on the page exactly if it is zero or the
axis is not turned over. -/
theorem mul_factor_eq_iff {n : Int} {s scale : Rat} (hs : s ≠ 0) (hscale : 0 < scale) :
    (n : Rat) * (s * scale) = n * (|s| * scale) ↔ n = 0 ∨ 0 < s := by
  have habs : s = |s| ↔ 0 < s := by
    rw [eq_comm, abs_eq_self]
    exact ⟨fun h => lt_of_le_of_ne h (Ne.symm hs), le_of_lt⟩
  rw [mul_eq_mul_left_iff, mul_left_inj' (ne_of_gt hscale), habs, Int.cast_eq_zero, or_comm]

/-- The rectangle of a picture, where the opposite corner has coordinates of 32 bits. -/
theorem pictureRect_eq {corner size : Point Int}
    (hx : -2147483648 ≤ corner.x + size.x ∧ corner.x + size.x ≤ 2147483647)
    (hy : -2147483648 ≤ corner.y + size.y ∧ corner.y + size.y ≤ 2147483647) :
    pictureRect m page corner size = Rect.between (m.point page (.ofInt corner))
      (m.point page (.ofInt ⟨corner.x + size.x, corner.y + size.y⟩)) := by
  have hsum {a b : Int} (h : -2147483648 ≤ a + b ∧ a + b ≤ 2147483647) :
      clampedSum a b = a + b := by
    unfold clampedSum
    omega
  rw [pictureRect, hsum hx, hsum hy]

/-- The corners of a painted area make the rectangle between the first of them and the one that is
moved by the lengths. -/
theorem bounds_paintedCorners (corner size : Point Int) :
    (Rect.between (m.point page (.ofInt corner))
      ((m.point page (.ofInt corner)).shift (m.lengths page (.ofInt size)))).Bounds
        (paintedCorners m page corner size) := by
  have h := Rect.bounds_between (m.point page (.ofInt corner)) (m.lengths page (.ofInt size))
  rw [paintedCorners, Scalar.zero_rat]
  exact h

/-- A picture covers the rectangle between the two corners of its area on the page. What a brush
paints instead has the same width and the same height. It is the same area if and only if no axis
along which the area extends is turned over. -/
theorem bounds_paintedCorners_iff {corner size : Point Int} (hx : (m.factors page).x ≠ 0)
    (hy : (m.factors page).y ≠ 0) (hscale : 0 < page.scale)
    (hsumx : -2147483648 ≤ corner.x + size.x ∧ corner.x + size.x ≤ 2147483647)
    (hsumy : -2147483648 ≤ corner.y + size.y ∧ corner.y + size.y ≤ 2147483647) :
    pictureRect m page corner size = Rect.between (m.point page (.ofInt corner))
        (m.point page (.ofInt ⟨corner.x + size.x, corner.y + size.y⟩)) ∧
      (∃ r : Rect Rat, r.Bounds (paintedCorners m page corner size) ∧
        r.width = (pictureRect m page corner size).width ∧
        r.height = (pictureRect m page corner size).height) ∧
      ((pictureRect m page corner size).Bounds (paintedCorners m page corner size) ↔
        (size.x = 0 ∨ 0 < (m.factors page).x) ∧ (size.y = 0 ∨ 0 < (m.factors page).y)) := by
  have hpicture : pictureRect m page corner size = _ := pictureRect_eq hsumx hsumy
  have hpainted : Rect.Bounds _ (paintedCorners m page corner size) :=
    bounds_paintedCorners corner size
  refine ⟨hpicture, ⟨_, hpainted, ?_, ?_⟩, ?_⟩
  · rw [hpicture, point_opposite, Rect.between_rat, Rect.between_rat, lengths_eq]
    simp only [Point.shift, add_sub_cancel_left, abs_mul, abs_abs]
  · rw [hpicture, point_opposite, Rect.between_rat, Rect.between_rat, lengths_eq]
    simp only [Point.shift, add_sub_cancel_left, abs_mul, abs_abs]
  · -- there is one least rectangle, and it tells where the opposite corner is
    have hbounds : (pictureRect m page corner size).Bounds (paintedCorners m page corner size) ↔
        pictureRect m page corner size = Rect.between (m.point page (.ofInt corner))
          ((m.point page (.ofInt corner)).shift (m.lengths page (.ofInt size))) :=
      ⟨fun h => h.unique hpainted, fun h => h ▸ hpainted⟩
    rw [hbounds, hpicture, Rect.between_right_inj, point_opposite, Point.shift_right_inj,
      lengths_eq, Point.mk.injEq, mul_factor_eq_iff hx hscale, mul_factor_eq_iff hy hscale]

/-- An area of negative width that is mapped one to one. -/
theorem bounds_paintedCorners_iff_backward :
    let r : Rect Rat := pictureRect .initial ⟨1, 1⟩ ⟨10, 20⟩ ⟨-30, 40⟩
    r = ⟨-20, 20, 30, 40⟩ ∧ r.Bounds (paintedCorners .initial ⟨1, 1⟩ ⟨10, 20⟩ ⟨-30, 40⟩) := by
  have hright : 0 < ((.initial : Mapping Rat).factors ⟨1, 1⟩).x := by decide +kernel
  have hdown : 0 < ((.initial : Mapping Rat).factors ⟨1, 1⟩).y := by decide +kernel
  have hsame : (pictureRect (.initial : Mapping Rat) ⟨1, 1⟩ ⟨10, 20⟩ ⟨-30, 40⟩).Bounds
      (paintedCorners .initial ⟨1, 1⟩ ⟨10, 20⟩ ⟨-30, 40⟩) ↔ _ :=
    (bounds_paintedCorners_iff (ne_of_gt hright) (ne_of_gt hdown) (by decide +kernel) (by decide)
      (by decide)).2.2
  exact ⟨by decide +kernel, hsame.mpr ⟨.inr hright, .inr hdown⟩⟩

/-- In a mode whose vertical axis points up, a picture lies above its corner on the page, and what
a brush paints instead lies below. -/
theorem painted_below_corner :
    let m : Mapping Rat := { (Mapping.initial : Mapping Rat) with mode := .loMetric }
    let page : Page Rat := ⟨1, 10⟩
    (m.factors page).x ≠ 0 ∧ (m.factors page).y ≠ 0 ∧
      pictureRect m page ⟨10, 20⟩ ⟨30, 40⟩ = ⟨10, -60, 30, 40⟩ ∧
      (⟨10, -20, 30, 40⟩ : Rect Rat).Bounds (paintedCorners m page ⟨10, 20⟩ ⟨30, 40⟩) ∧
      ¬(pictureRect m page ⟨10, 20⟩ ⟨30, 40⟩).Bounds
        (paintedCorners m page ⟨10, 20⟩ ⟨30, 40⟩) := by
  decide +kernel

end Playback

end Metafile
