import Metafile.Bytes.Cursor
import Metafile.Geometry.Affine

/-!
# `Metafile.Record.Fields`: the fields that many records share

Points, boxes and affine maps as they lie in a record. Points come in two widths with the same
meaning.
-/

set_option autoImplicit false

namespace Metafile.Cursor

/-- Takes a point of two 32-bit coordinates. -/
def longPoint : Decode (Point Int) := do
  let x ← i32
  let y ← i32
  return ⟨x, y⟩

/-- Takes a point of two 16-bit coordinates. -/
def shortPoint : Decode (Point Int) := do
  let x ← i16
  let y ← i16
  return ⟨x, y⟩

/-- Takes a point of either width. -/
def point (short : Bool) : Decode (Point Int) :=
  if short then shortPoint else longPoint

/-- The number of bytes of a point. -/
def pointWidth (short : Bool) : Nat :=
  if short then 4 else 8

/-- Takes `count` points, after making sure that they all exist. -/
def points (count : Nat) (short : Bool) : Decode (List (Point Int)) := do
  if addressSpace ≤ count * pointWidth short then throw (.outOfBounds .pointCount)
  require (count * pointWidth short)
  many count (point short)

/-- Takes a box: left, top, right, bottom. -/
def box : Decode Box := do
  let left ← i32
  let top ← i32
  let right ← i32
  let bottom ← i32
  return ⟨left, top, right, bottom⟩

/-- Takes an affine map of six 32-bit floating-point numbers. -/
def affine : Decode (Affine Float) := do
  let m11 ← f32
  let m12 ← f32
  let m21 ← f32
  let m22 ← f32
  let dx ← f32
  let dy ← f32
  return ⟨m11, m12, m21, m22, dx, dy⟩

end Metafile.Cursor
