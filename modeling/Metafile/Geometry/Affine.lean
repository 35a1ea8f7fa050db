import Metafile.Geometry.Point

/-!
# `Metafile.Geometry.Affine`: affine maps of the plane

A metafile stores an affine map as six numbers for row vectors: the point `(x, y)` goes to
`(x·m11 + y·m21 + dx, x·m12 + y·m22 + dy)`. `a.followedBy b` is the map that does `a` first.
-/

set_option autoImplicit false

namespace Metafile

/-- An affine map. -/
structure Affine (α : Type) where
  m11 : α
  m12 : α
  m21 : α
  m22 : α
  dx : α
  dy : α
deriving BEq, DecidableEq, Repr, Inhabited

namespace Affine

variable {α : Type} [Scalar α]

/-- The map that leaves every point where it is. -/
def identity : Affine α := ⟨1.0, 0.0, 0.0, 1.0, 0.0, 0.0⟩

/-- The map that moves every point by a vector. -/
def translation (dx dy : α) : Affine α := ⟨1.0, 0.0, 0.0, 1.0, dx, dy⟩

/-- The map that scales both axes from the origin. -/
def scaling (sx sy : α) : Affine α := ⟨sx, 0.0, 0.0, sy, 0.0, 0.0⟩

/-- The map that turns the plane around the origin, given the sine and cosine of the angle. -/
def rotation (sin cos : α) : Affine α := ⟨cos, sin, -sin, cos, 0.0, 0.0⟩

/-- The first map, then the second. -/
def followedBy (a b : Affine α) : Affine α where
  m11 := a.m11 * b.m11 + a.m12 * b.m21
  m12 := a.m11 * b.m12 + a.m12 * b.m22
  m21 := a.m21 * b.m11 + a.m22 * b.m21
  m22 := a.m21 * b.m12 + a.m22 * b.m22
  dx := a.dx * b.m11 + a.dy * b.m21 + b.dx
  dy := a.dx * b.m12 + a.dy * b.m22 + b.dy

/-- Where a point goes. -/
def apply (a : Affine α) (p : Point α) : Point α :=
  ⟨p.x * a.m11 + p.y * a.m21 + a.dx, p.x * a.m12 + p.y * a.m22 + a.dy⟩

/-- The factor by which areas grow. It is negative when the plane is turned over. -/
def determinant (a : Affine α) : α :=
  a.m11 * a.m22 - a.m12 * a.m21

/-- Whether the six numbers are those of the identity. -/
def isIdentity [BEq α] (a : Affine α) : Bool := a == identity

end Affine

end Metafile
