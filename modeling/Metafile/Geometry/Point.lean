import Metafile.Geometry.Scalar

/-!
# `Metafile.Geometry.Point`: points, boxes and rectangles

Records store points and boxes in whole logical units. What is drawn has points of any scalar. A
box is stored by its sides as they come: the left side may lie right of the right side. A
rectangle has a corner and a size.
-/

set_option autoImplicit false

namespace Metafile

/-- A point of the plane. -/
structure Point (α : Type) where
  x : α
  y : α
deriving BEq, DecidableEq, Repr, Inhabited

/-- A box, given by its four sides in any order. -/
structure Box where
  left : Int
  top : Int
  right : Int
  bottom : Int
deriving DecidableEq, Repr, Inhabited

/-- A rectangle, given by a corner and a size. -/
structure Rect (α : Type) where
  x : α
  y : α
  width : α
  height : α
deriving BEq, DecidableEq, Repr, Inhabited

/-- The sum of two 32-bit integers, kept in their range. -/
def clampedSum (a b : Int) : Int :=
  max (-2147483648) (min 2147483647 (a + b))

variable {α : Type} [Scalar α]

namespace Point

/-- The origin. -/
def zero : Point α := ⟨0.0, 0.0⟩

/-- A point in whole units as a point of scalars. -/
def ofInt (p : Point Int) : Point α := ⟨Scalar.ofInt p.x, Scalar.ofInt p.y⟩

/-- A point moved by a vector. -/
def shift (p v : Point α) : Point α := ⟨p.x + v.x, p.y + v.y⟩

/-- The point halfway between two points. -/
def middle (p q : Point α) : Point α := ⟨(p.x + q.x) / 2.0, (p.y + q.y) / 2.0⟩

/-- The point on the other side of a center, at the same distance. -/
def opposite (center p : Point α) : Point α :=
  ⟨2.0 * center.x - p.x, 2.0 * center.y - p.y⟩

end Point

namespace Box

/-- The signed width. -/
def width (b : Box) : α := Scalar.ofInt b.right - Scalar.ofInt b.left

/-- The signed height. -/
def height (b : Box) : α := Scalar.ofInt b.bottom - Scalar.ofInt b.top

/-- The point in the middle. -/
def center (b : Box) : Point α :=
  ⟨(Scalar.ofInt b.left + Scalar.ofInt b.right) / 2.0,
    (Scalar.ofInt b.top + Scalar.ofInt b.bottom) / 2.0⟩

/-- Half the width and half the height, without signs. -/
def radii (b : Box) : Point α :=
  ⟨Scalar.abs b.width / 2.0, Scalar.abs b.height / 2.0⟩

end Box

/-- The rectangle between two points, its size without signs. -/
def Rect.between (p q : Point α) : Rect α :=
  ⟨Scalar.least p.x q.x, Scalar.least p.y q.y, Scalar.abs (q.x - p.x), Scalar.abs (q.y - p.y)⟩

end Metafile
