import Metafile.Geometry.Point

/-!
# `Metafile.Geometry.Angle`: angles and directions

Angles are floating-point numbers in radians. The vertical axis of a picture points down, so an
angle that grows counter-clockwise on the page has its sine subtracted from the vertical
coordinate.
-/

set_option autoImplicit false

namespace Metafile.Angle

/-- Half a turn. -/
def half : Float := 3.141592653589793

/-- An angle in degrees, measured in radians. -/
def radians (degrees : Float) : Float := degrees * 0.017453292519943295

/-- The direction from a center to a point, counter-clockwise from the right. -/
def toward (center p : Point Float) : Float :=
  Float.atan2 (center.y - p.y) (p.x - center.x)

/-- The point of a circle in a direction. -/
def onCircle (center : Point Float) (radius angle : Float) : Point Float :=
  ⟨center.x + radius * angle.cos, center.y - radius * angle.sin⟩

/-- A difference of two directions as a part of a whole turn. Directions differ by a whole turn at
most, so one addition or one subtraction is enough. -/
def part (difference : Float) : Float :=
  let whole := 2 * half
  if difference < 0 then difference + whole
  else if difference < whole then difference
  else difference - whole

/-- Whether the turn from one direction to another is more than half a turn. -/
def isLarge (clockwise : Bool) (start stop : Float) : Bool :=
  part (if clockwise then start - stop else stop - start) > half

end Metafile.Angle
