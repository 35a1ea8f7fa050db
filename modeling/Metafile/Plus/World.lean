import Metafile.Geometry.Affine

/-!
# `Metafile.Plus.World`: the world transform of EMF+

A record replaces the world transform or multiplies it by a map, which then acts before or after
what was there. A container maps a source rectangle onto a destination rectangle in the
coordinates that hold where it begins.
-/

set_option autoImplicit false

namespace Metafile.Plus

/-- A change of the world transform. -/
inductive WorldChange (α : Type) where
  | set (m : Affine α)
  | reset
  /-- A map that acts after what is there, or before it. -/
  | multiply (after : Bool) (m : Affine α)
deriving Repr, Inhabited

variable {α : Type} [Scalar α]

/-- The world transform after a change. -/
def WorldChange.onto (world : Affine α) : WorldChange α → Affine α
  | .set m => m
  | .reset => Affine.identity
  | .multiply true m => world.followedBy m
  | .multiply false m => m.followedBy world

/-- The factor between two lengths. A source of no length leaves lengths as they are. -/
def fit (target source : α) : α :=
  if Scalar.isZero source then 1.0 else target / source

/-- The map from a source rectangle to a destination rectangle. -/
def containerMap (target source : Rect α) : Affine α :=
  let sx := fit target.width source.width
  let sy := fit target.height source.height
  ⟨sx, 0.0, 0.0, sy, target.x - source.x * sx, target.y - source.y * sy⟩

/-- The world transform inside a container. -/
def enterContainer (target source : Rect α) (world : Affine α) : Affine α :=
  (containerMap target source).followedBy world

end Metafile.Plus
