import Metafile.Record.Fields

/-!
# `Metafile.Record.Shape`: what drawing records draw

A drawing record names a shape in whole logical units. The points of polylines and curves come in
two widths with the same meaning, so the width is gone once a shape is read.

`splitCounts` cuts the points of a record into the groups that it declares.
-/

set_option autoImplicit false

namespace Metafile.Record

/-- How an arc of an ellipse is drawn: alone, after a line from the current position, closed by a
chord, or closed through the center. -/
inductive ArcForm
  | alone | joined | chord | pie
deriving DecidableEq, Repr, Inhabited

/-- What a record draws. -/
inductive Shape
  | polyline (points : List (Point Int)) (closed : Bool)
  | polylines (groups : List (List (Point Int))) (closed : Bool)
  /-- Lines from the current position on. -/
  | polylineTo (points : List (Point Int))
  | curves (points : List (Point Int))
  /-- Curves from the current position on. -/
  | curvesTo (points : List (Point Int))
  /-- Points, each with a type that says what is drawn to it. -/
  | steps (points : List (Point Int × Nat))
  | rectangle (b : Box)
  /-- A rectangle whose corners are quarters of an ellipse of this width and height. -/
  | roundRect (b : Box) (corner : Point Int)
  | ellipse (b : Box)
  /-- The arc of the ellipse in a box between the directions of two points. -/
  | arc (form : ArcForm) (b : Box) (start stop : Point Int)
  /-- A line to a circle and an arc along it, with the angles in degrees. -/
  | angleArc (center : Point Int) (radius : Nat) (start sweep : Float)
deriving Repr, Inhabited

/-- Cuts a list into groups of the given lengths. What is left over is dropped. -/
def splitCounts {α : Type} : List Nat → List α → List (List α)
  | [], _ => []
  | n :: counts, xs => xs.take n :: splitCounts counts (xs.drop n)

namespace Shape

/-- The offset of the point count in a record of points. -/
def countOffset : Nat := 24

/-- The offset of the first field that is not bounds. -/
def boxOffset : Nat := 8

/-- Takes the points of a record of points. -/
def points (short : Bool) : Decode (List (Point Int)) := do
  Cursor.seek countOffset
  let count ← Cursor.u32
  Cursor.points count short

/-- Takes the points of a record of several polylines, cut into groups. The groups may have fewer
points than the record declares, but not more. -/
def groups (short : Bool) : Decode (List (List (Point Int))) := do
  Cursor.seek countOffset
  let polylines ← Cursor.u32
  let total ← Cursor.u32
  Cursor.require (polylines * 4)
  let counts ← Cursor.many polylines Cursor.u32
  if total < counts.foldl (· + ·) 0 then throw (.outOfBounds .polygonCounts)
  return splitCounts counts (← Cursor.points total short)

/-- Takes points and then a type for each. -/
def typedPoints (short : Bool) : Decode (List (Point Int × Nat)) := do
  Cursor.seek countOffset
  let count ← Cursor.u32
  let ps ← Cursor.points count short
  let types ← Cursor.bytes count
  return ps.zip (types.map UInt8.toNat)

/-- Takes the box of a record. -/
def box : Decode Box := do
  Cursor.seek boxOffset
  Cursor.box

/-- Takes a box and the two points that bound an arc. -/
def arcOf (form : ArcForm) : Decode Shape := do
  let b ← box
  let start ← Cursor.longPoint
  let stop ← Cursor.longPoint
  return .arc form b start stop

/-- Takes the one point of a record. -/
def longPoint : Decode (Point Int) := do
  Cursor.seek boxOffset
  Cursor.longPoint

/-- Takes a circle and two angles. -/
def angleArcFields : Decode Shape := do
  let center ← longPoint
  let radius ← Cursor.u32
  let start ← Cursor.f32
  let sweep ← Cursor.f32
  return .angleArc center radius start sweep

/-- Takes the shape of a drawing record. There is none for other kinds. -/
def decode? (kind : Kind) : Option (Decode Shape) :=
  let short := kind.hasShortPoints
  match kind with
  | .polyline | .polyline16 => some do return .polyline (← points short) false
  | .polygon | .polygon16 => some do return .polyline (← points short) true
  | .polyPolyline | .polyPolyline16 => some do return .polylines (← groups short) false
  | .polyPolygon | .polyPolygon16 => some do return .polylines (← groups short) true
  | .polylineTo | .polylineTo16 => some do return .polylineTo (← points short)
  | .lineTo => some do return .polylineTo [← longPoint]
  | .polyBezier | .polyBezier16 => some do return .curves (← points short)
  | .polyBezierTo | .polyBezierTo16 => some do return .curvesTo (← points short)
  | .polyDraw | .polyDraw16 => some do return .steps (← typedPoints short)
  | .rectangle => some do return .rectangle (← box)
  | .roundRect => some do
    let b ← box
    return .roundRect b (← Cursor.longPoint)
  | .ellipse => some do return .ellipse (← box)
  | .arc => some (arcOf .alone)
  | .arcTo => some (arcOf .joined)
  | .chord => some (arcOf .chord)
  | .pie => some (arcOf .pie)
  | .angleArc => some angleArcFields
  | _ => none

end Shape

end Metafile.Record
