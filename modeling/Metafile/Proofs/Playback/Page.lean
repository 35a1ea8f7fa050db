import Metafile.Playback.Frame
import Metafile.Proofs.Geometry.Exact

/-!
# `Metafile.Proofs.Playback.Page`: the page and its scale

The page keeps the ratio of the bounds, so one factor takes both sides of the bounds to those of
the page (`fitSize_eq`). Where both sides are asked for, `fitFactor` is the largest factor for
which the page fits into them. The scale of a document comes from the widths alone, and
`fitScale_fitSize` says that it is that factor. All of this is exact arithmetic.
-/

set_option autoImplicit false

namespace Metafile

variable {bounds requested : Point Rat}

/-- A side is asked for if it is more than zero. -/
theorem isPositive_rat (v : Rat) : isPositive v = decide (0 < v) := by
  rw [isPositive, Scalar.less_rat, Scalar.zero_rat]

/-- The ratio of the sides, where there is a height to divide by. -/
theorem aspect_rat {width height : Rat} (h : height ≠ 0) :
    aspect (⟨width, height⟩ : Point Rat) = width / height := by
  rw [aspect, Scalar.isZero_of_ne h]
  rfl

/-- The factor from the bounds to the page. Each side that is asked for allows for one, and both
together for the smaller one. -/
def fitFactor (bounds requested : Point Rat) : Rat :=
  let wide := requested.x / |bounds.x|
  let high := requested.y / |bounds.y|
  match decide (0 < requested.x), decide (0 < requested.y) with
  | true, true => min wide high
  | true, false => wide
  | false, true => high
  | false, false => 1

/-- The page has the sides of the bounds, times the factor. -/
theorem fitSize_eq (hwidth : bounds.x ≠ 0) (hheight : bounds.y ≠ 0) :
    fitSize bounds requested =
      ⟨fitFactor bounds requested * |bounds.x|, fitFactor bounds requested * |bounds.y|⟩ := by
  have hw : 0 < |bounds.x| := abs_pos.2 hwidth
  have hh : 0 < |bounds.y| := abs_pos.2 hheight
  have hratio : Scalar.isZero (|bounds.x| / |bounds.y|) = false :=
    Scalar.isZero_of_ne (div_pos hw hh).ne'
  -- one side is met, and the other one follows from the ratio
  have hmet {length : Rat} (h : 0 < length) (v : Rat) : v / length * length = v :=
    div_mul_cancel₀ v h.ne'
  have hwide : requested.y * (|bounds.x| / |bounds.y|) =
      requested.y / |bounds.y| * |bounds.x| := by
    rw [← mul_div_assoc, div_mul_eq_mul_div]
  have hhigh : requested.x / (|bounds.x| / |bounds.y|) =
      requested.x / |bounds.x| * |bounds.y| := by
    rw [div_div_eq_mul_div, div_mul_eq_mul_div]
  simp only [fitSize, fitFactor, Scalar.abs_rat, isPositive_rat, aspect_rat hh.ne', hratio]
  cases hx : decide (0 < requested.x) with
  | false =>
      cases hy : decide (0 < requested.y) with
      | false => simp only [one_mul]
      | true => simp only [hwide, hmet hh]
  | true =>
      cases hy : decide (0 < requested.y) with
      | false => simp [hhigh, hmet hw]
      | true =>
          -- the ratios compare as the factors of the two sides do, the other way round
          have hless : |bounds.x| / |bounds.y| < requested.x / requested.y ↔
              requested.y / |bounds.y| < requested.x / |bounds.x| := by
            rw [div_lt_div_iff₀ hh (of_decide_eq_true hy), div_lt_div_iff₀ hh hw,
              mul_comm requested.y]
          by_cases hhigher : requested.y / |bounds.y| < requested.x / |bounds.x|
          · simp [Scalar.less_rat, hless, hhigher, min_eq_right hhigher.le, hwide, hmet hh]
          · simp [Scalar.less_rat, hless, hhigher, min_eq_left (not_lt.1 hhigher), hhigh, hmet hw]

/-- Where both sides are asked for, the smaller of the two factors counts. -/
theorem fitFactor_both (hx : 0 < requested.x) (hy : 0 < requested.y) :
    fitFactor bounds requested = min (requested.x / |bounds.x|) (requested.y / |bounds.y|) := by
  simp [fitFactor, hx, hy]

/-- Where both sides are asked for, smaller factors are those for which the page fits into them.
-/
theorem le_fitFactor_iff (hwidth : bounds.x ≠ 0) (hheight : bounds.y ≠ 0) (hx : 0 < requested.x)
    (hy : 0 < requested.y) {k : Rat} :
    k ≤ fitFactor bounds requested ↔
      k * |bounds.x| ≤ requested.x ∧ k * |bounds.y| ≤ requested.y := by
  rw [fitFactor_both hx hy, le_min_iff, le_div_iff₀ (abs_pos.2 hwidth),
    le_div_iff₀ (abs_pos.2 hheight)]

/-- The scale, which is taken from the widths, is the factor for both sides. -/
theorem fitScale_fitSize (hwidth : bounds.x ≠ 0) (hheight : bounds.y ≠ 0) :
    fitScale (fitSize bounds requested).x bounds.x = fitFactor bounds requested := by
  rw [fitScale, Scalar.isZero_of_ne hwidth, fitSize_eq hwidth hheight, Scalar.abs_rat]
  exact mul_div_cancel_right₀ _ (abs_pos.2 hwidth).ne'

namespace Playback

/-- The page of a document and its scale are made by `fitSize` and `fitScale`. In exact
arithmetic, the scale takes both sides of the bounds to those of the page. If both sides are asked
for, the page fits into them, meets one of them, and no larger scale would fit. If one side is
asked for, it is met. If none is, nothing is scaled. -/
theorem page_fits (bounds requested : Point Rat) (hwidth : bounds.x ≠ 0)
    (hheight : bounds.y ≠ 0) :
    let size := fitSize bounds requested
    let scale := fitScale size.x bounds.x
    (∀ o h, pageSize o h = fitSize (boxSize h.bounds) ⟨o.width, o.height⟩ ∧
      (pageOf o h).scale = fitScale (pageSize o h).x (boxSize h.bounds).x) ∧
    size = ⟨scale * |bounds.x|, scale * |bounds.y|⟩ ∧
    (0 < requested.x → 0 < requested.y →
      size.x ≤ requested.x ∧ size.y ≤ requested.y ∧
        (size.x = requested.x ∨ size.y = requested.y) ∧
      ∀ k, k * |bounds.x| ≤ requested.x → k * |bounds.y| ≤ requested.y → k ≤ scale) ∧
    (0 < requested.x → ¬0 < requested.y → size.x = requested.x) ∧
    (¬0 < requested.x → 0 < requested.y → size.y = requested.y) ∧
    (¬0 < requested.x → ¬0 < requested.y → scale = 1) := by
  intro size scale
  -- the scale is the factor that the requested size asks for, on both axes
  have hscale : scale = fitFactor bounds requested := fitScale_fitSize hwidth hheight
  have hsize : size = ⟨scale * |bounds.x|, scale * |bounds.y|⟩ := by
    rw [hscale]
    exact fitSize_eq hwidth hheight
  have hmeetsWidth (h : fitFactor bounds requested = requested.x / |bounds.x|) :
      size.x = requested.x := by
    rw [hsize, hscale, h]
    exact div_mul_cancel₀ requested.x (abs_pos.2 hwidth).ne'
  have hmeetsHeight (h : fitFactor bounds requested = requested.y / |bounds.y|) :
      size.y = requested.y := by
    rw [hsize, hscale, h]
    exact div_mul_cancel₀ requested.y (abs_pos.2 hheight).ne'
  refine ⟨fun _ _ => ⟨rfl, rfl⟩, hsize, fun hx hy => ?both, fun hx hy => ?wide,
    fun hx hy => ?high, fun hx hy => ?neither⟩
  case wide => exact hmeetsWidth (by simp [fitFactor, hx, hy])
  case high => exact hmeetsHeight (by simp [fitFactor, hx, hy])
  case neither => simp [hscale, fitFactor, hx, hy]
  case both =>
    have hboth : fitFactor bounds requested = min _ _ := fitFactor_both hx hy
    -- a factor is small enough when neither side exceeds the requested one
    have hfits {k : Rat} :
        k ≤ scale ↔ k * |bounds.x| ≤ requested.x ∧ k * |bounds.y| ≤ requested.y := by
      rw [hscale]
      exact le_fitFactor_iff hwidth hheight hx hy
    have hside : size.x = requested.x ∨ size.y = requested.y := by
      rcases min_choice (requested.x / |bounds.x|) (requested.y / |bounds.y|) with hmin | hmin
      · exact .inl (hmeetsWidth (hboth.trans hmin))
      · exact .inr (hmeetsHeight (hboth.trans hmin))
    obtain ⟨hwide, hhigh⟩ := hfits.1 (le_refl scale)
    rw [hsize] at hside ⊢
    exact ⟨hwide, hhigh, hside, fun k hkwide hkhigh => hfits.2 ⟨hkwide, hkhigh⟩⟩

/-- Bounds that run to the left and are twice as wide as high, in a page that is not as wide. -/
theorem page_fits_wide :
    let bounds : Point Rat := ⟨-200, 100⟩
    let size := fitSize bounds ⟨400, 1000⟩
    let scale := fitScale size.x bounds.x
    bounds.x ≠ 0 ∧ bounds.y ≠ 0 ∧ size = ⟨scale * |-200|, scale * |100|⟩ ∧
      size.x ≤ 400 ∧ size.y ≤ 1000 ∧ (fitSize bounds ⟨400, 0⟩).x = 400 ∧
      (fitSize bounds ⟨0, 50⟩).y = 50 ∧ fitScale (fitSize bounds ⟨0, -1⟩).x bounds.x = 1 := by
  intro bounds size scale
  have hwidth : bounds.x ≠ 0 := by decide +kernel
  have hheight : bounds.y ≠ 0 := by decide +kernel
  have hpage (requested : Point Rat) := (page_fits bounds requested hwidth hheight).2
  have hboth := (hpage ⟨400, 1000⟩).2.1 (by decide +kernel) (by decide +kernel)
  exact ⟨hwidth, hheight, (hpage ⟨400, 1000⟩).1, hboth.1, hboth.2.1,
    (hpage ⟨400, 0⟩).2.2.1 (by decide +kernel) (by decide +kernel),
    (hpage ⟨0, 50⟩).2.2.2.1 (by decide +kernel) (by decide +kernel),
    (hpage ⟨0, -1⟩).2.2.2.2 (by decide +kernel) (by decide +kernel)⟩

end Playback

end Metafile
