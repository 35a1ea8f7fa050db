import Metafile.Geometry.Affine

/-!
# `Metafile.Record.Transform`: changes of the world transform

A record changes the world transform in one of four modes. A number that stands for no mode
changes nothing.
-/

set_option autoImplicit false

namespace Metafile.Record

/-- A change of the world transform: the number of its mode and the map it brings. -/
structure TransformChange where
  mode : Nat
  map : Affine Float
deriving Repr, Inhabited

namespace TransformChange

/-- The mode that goes back to the identity. -/
@[match_pattern]
def resetMode : Nat := 1

/-- The mode in which the new map acts before the old one. -/
@[match_pattern]
def beforeMode : Nat := 2

/-- The mode in which the new map acts after the old one. -/
@[match_pattern]
def afterMode : Nat := 3

/-- The mode in which the new map takes the place of the old one. -/
@[match_pattern]
def setMode : Nat := 4

/-- The world transform after a change. There is none for an unknown mode. -/
def onto? (t : TransformChange) (world : Affine Float) : Option (Affine Float) :=
  match t.mode with
  | resetMode => some Affine.identity
  | beforeMode => some (t.map.followedBy world)
  | afterMode => some (world.followedBy t.map)
  | setMode => some t.map
  | _ => none

/-- The world transform after a change, where an unknown mode changes nothing. -/
def onto (t : TransformChange) (world : Affine Float) : Affine Float :=
  (t.onto? world).getD world

end TransformChange

end Metafile.Record
