import Metafile.Geometry.Mapping

/-!
# `Metafile.Geometry.Fit`: the size of the page

A picture has bounds, and a size may be asked for. The page keeps the ratio of the bounds: where
width and height are both asked for, the larger page that fits into them is taken. A size that is
not positive is not asked for.
-/

set_option autoImplicit false

namespace Metafile

variable {α : Type} [Scalar α]

/-- Whether a length is above zero. -/
def isPositive (v : α) : Bool := Scalar.less 0.0 v

/-- The ratio of a width to a height. What has no height counts as a square. -/
def aspect (size : Point α) : α :=
  if Scalar.isZero size.y then 1.0 else size.x / size.y

/-- The size of the page for bounds of a size, where another size is asked for. -/
def fitSize (bounds requested : Point α) : Point α :=
  let size : Point α := ⟨Scalar.abs bounds.x, Scalar.abs bounds.y⟩
  let ratio := aspect size
  match isPositive requested.x, isPositive requested.y with
  | true, true =>
    if Scalar.isZero ratio then requested
    else if Scalar.less ratio (requested.x / requested.y) then
      ⟨requested.y * ratio, requested.y⟩
    else ⟨requested.x, requested.x / ratio⟩
  | true, false =>
    ⟨requested.x, if Scalar.isZero ratio then requested.x else requested.x / ratio⟩
  | false, true => ⟨requested.y * ratio, requested.y⟩
  | false, false => size

/-- The size of a device unit on a page of a width, for bounds of a width. -/
def fitScale (page bounds : α) : α :=
  if Scalar.isZero bounds then 1.0 else page / Scalar.abs bounds

end Metafile
