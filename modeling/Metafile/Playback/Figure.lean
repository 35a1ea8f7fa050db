import Metafile.Geometry.Angle
import Metafile.Playback.State
import Metafile.Record.Shape

/-!
# `Metafile.Playback.Figure`: shapes as outlines and elements

A shape is drawn in one of two ways. Inside a path bracket its outline is added to the path.
Outside it becomes an element of its own: boxes and ellipses have elements made for them, and
every other shape becomes a path.

Outlines are made in logical units, and `State.place` brings them to the page. The new current
position is the last point of the outline, in logical units.
-/

set_option autoImplicit false

namespace Metafile.Playback

open Metafile.Markup (Attribute Piece)
open Metafile.Record (ArcForm Shape)

/-- What the outline of a shape depends on besides the shape. -/
structure Heading where
  position : Point Float
  /-- Whether arcs run clockwise. -/
  clockwise : Bool
  /-- Whether the vertical axis points up. -/
  pointsUp : Bool
  /-- Whether the vertical axis points down. An axis without length points nowhere. -/
  pointsDown : Bool
deriving Repr, Inhabited

/-! ### Points with types -/

/-- The closing of the figure, if the type of a point asks for it. -/
def closing (type : Nat) : Outline Float :=
  if type % 2 = 1 then [.close] else []

/-- What is drawn to a point on its own: a line or a move. Other types draw nothing, but may
close. A curve that lacks points is a line. -/
def stepOutline (p : Point Float) (type : Nat) : Outline Float :=
  match type / 2 with
  | 1 | 2 => .line p :: closing type
  | 3 => .move p :: closing type
  | _ => closing type

/-- The outline of points with types. A curve takes the next two points with it, and then the type
of the last of them says whether the figure is closed. -/
def stepsOutline : List (Point Float × Nat) → Outline Float
  | (p, type) :: (q, middle) :: (r, last) :: rest =>
    if type / 2 = 2 then .curve p q r :: (closing last ++ stepsOutline rest)
    else stepOutline p type ++ stepsOutline ((q, middle) :: (r, last) :: rest)
  | (p, type) :: rest => stepOutline p type ++ stepsOutline rest
  | [] => []

/-- Whether points with types begin with a move of their own. -/
def beginsWithMove : List (Point Float × Nat) → Bool
  | (_, type) :: _ => type / 2 == 3
  | [] => false

/-! ### Boxes and arcs -/

/-- The outline of a box. -/
def boxOutline (b : Box) : Outline Float :=
  .polygon (([⟨b.left, b.top⟩, ⟨b.right, b.top⟩, ⟨b.right, b.bottom⟩, ⟨b.left, b.bottom⟩] :
    List (Point Int)).map Point.ofInt)

/-- The outline of a box with round corners, from the left end of the upper side on. The corners
are not larger than the box. -/
def roundOutline (b : Box) (corner : Point Int) (sweep : Bool) : Outline Float :=
  let low : Point Float := .ofInt ⟨min b.left b.right, min b.top b.bottom⟩
  let high : Point Float := .ofInt ⟨max b.left b.right, max b.top b.bottom⟩
  let rx := leastFloat (Float.abs (Float.ofInt corner.x / 2)) ((high.x - low.x) / 2)
  let ry := leastFloat (Float.abs (Float.ofInt corner.y / 2)) ((high.y - low.y) / 2)
  let turn (stop : Point Float) : Segment Float := .arc ⟨rx, ry⟩ stop false sweep
  [.move ⟨low.x + rx, low.y⟩,
    .line ⟨high.x - rx, low.y⟩, turn ⟨high.x, low.y + ry⟩,
    .line ⟨high.x, high.y - ry⟩, turn ⟨high.x - rx, high.y⟩,
    .line ⟨low.x + rx, high.y⟩, turn ⟨low.x, high.y - ry⟩,
    .line ⟨low.x, low.y + ry⟩, turn ⟨low.x + rx, low.y⟩,
    .close]

/-- The outline of the ellipse in a box, from its left end on. -/
def ellipseOutline (b : Box) : Outline Float :=
  let c : Point Float := b.center
  let r : Point Float := b.radii
  let left : Point Float := ⟨c.x - r.x, c.y⟩
  [.move left, .arc r ⟨c.x + r.x, c.y⟩ false true, .arc r left false true, .close]

/-- The point of an ellipse in the direction of a point. The direction of the center itself is to
the right, and an ellipse without width or height has only its center. -/
def onEllipse (center radii p : Point Float) : Point Float :=
  if radii.x == 0 || radii.y == 0 then center
  else
    let dx := p.x - center.x
    let dy := p.y - center.y
    let u := dx / radii.x
    let v := dy / radii.y
    let norm := Float.sqrt (u * u + v * v)
    if norm == 0 then ⟨center.x + radii.x, center.y⟩
    else ⟨center.x + dx / norm, center.y + dy / norm⟩

/-- The whole ellipse through a point, as two arcs that end where they begin. -/
def wholeTurn (center radii start stop : Point Float) (sweep : Bool) : Outline Float :=
  [.arc radii (center.opposite start) true sweep, .arc radii stop true sweep]

/-- The arc of an ellipse between two of its points. Equal points bound the whole ellipse. -/
def arcOutline (h : Heading) (center radii start stop : Point Float) : Outline Float :=
  -- an axis that points up turns the page over, and the direction of the arc with it
  let sweep := h.clockwise != h.pointsUp
  if start == stop then wholeTurn center radii start stop sweep
  else
    let large := Angle.isLarge h.clockwise (Angle.toward center start) (Angle.toward center stop)
    [.arc radii stop large sweep]

/-- The outline of an arc in its form. -/
def formOutline (h : Heading) (form : ArcForm) (b : Box) (start stop : Point Int) :
    Outline Float :=
  let center : Point Float := b.center
  let radii : Point Float := b.radii
  let first := onEllipse center radii (.ofInt start)
  let last := onEllipse center radii (.ofInt stop)
  let arc := arcOutline h center radii first last
  match form with
  | .alone => .move first :: arc
  | .joined => .line first :: arc
  | .chord => .move first :: (arc ++ [.close])
  | .pie => .move first :: (arc ++ [.line center, .close])

/-- A line to a circle, and the arc along it. From a whole turn on it is the whole circle. -/
def angleArcOutline (h : Heading) (center : Point Float) (radius start sweep : Float) :
    Outline Float :=
  let radii : Point Float := ⟨radius, radius⟩
  let first := Angle.onCircle center radius (Angle.radians start)
  let last := Angle.onCircle center radius (Angle.radians start + Angle.radians sweep)
  let direction := decide (sweep < 0) != h.pointsUp
  .line first ::
    (if sweep.abs ≥ 360 then wholeTurn center radii first first direction
    else [.arc radii last (sweep.abs > 180) direction])

/-! ### Shapes -/

/-- The points of a record as points of scalars. -/
def floatPoints (ps : List (Point Int)) : List (Point Float) := ps.map Point.ofInt

/-- One figure through the points. -/
def polylineOutline (closed : Bool) (ps : List (Point Int)) : Outline Float :=
  if closed then .polygon (floatPoints ps) else .polyline (floatPoints ps)

/-- The outline that a shape adds to an open path, in logical units. -/
def shapeOutline (h : Heading) : Shape → Outline Float
  | .polyline ps closed => polylineOutline closed ps
  | .polylines groups closed => groups.flatMap (polylineOutline closed)
  | .polylineTo ps => (floatPoints ps).map .line
  | .curves [] => []
  | .curves (p :: ps) => .move (.ofInt p) :: Outline.curves (floatPoints ps)
  | .curvesTo ps => Outline.curves (floatPoints ps)
  | .steps ps =>
    let steps := ps.map fun s => (Point.ofInt s.1, s.2)
    (if beginsWithMove steps then [] else [.move h.position]) ++ stepsOutline steps
  | .rectangle b => boxOutline b
  | .roundRect b corner => roundOutline b corner h.pointsDown
  | .ellipse b => ellipseOutline b
  | .arc form b start stop => formOutline h form b start stop
  | .angleArc center radius start sweep =>
    angleArcOutline h (.ofInt center) (Float.ofNat radius) start sweep

/-- Whether a shape goes on from the current position. -/
def continues : Shape → Bool
  | .polylineTo _ | .curvesTo _ | .arc .joined .. | .angleArc .. => true
  | _ => false

/-- Whether a shape is filled. -/
def isFilled : Shape → Bool
  | .polyline _ closed | .polylines _ closed => closed
  | .rectangle _ | .roundRect .. | .ellipse _ | .arc .chord .. | .arc .pie .. => true
  | _ => false

/-- Whether a shape has no points and draws nothing. -/
def isBlank : Shape → Bool
  | .polyline [] _ | .curves [] => true
  | _ => false

/-! ### Drawing -/

namespace State

/-- What outlines depend on in this state. -/
def heading (s : State) : Heading where
  position := s.position
  clockwise := s.context.clockwise
  pointsUp := s.context.mapping.pointsUp s.page
  pointsDown := s.context.mapping.pointsDown s.page

/-- Adds an outline to the open path. -/
def extend (o : Outline Float) (b : Bracket) (s : State) : State :=
  let placed := s.place o
  { s with
    bracket := some { b with drawn := b.drawn.append placed }
    trail := s.trail.append placed
    position := o.stop?.getD s.position }

/-- A number of an element, written with four decimals. -/
def number (name : String) (v : Float) : Attribute :=
  (name, Decimal.Fixed.text v)

/-- The attributes of the rectangle of a box. -/
def boxAttributes (b : Box) (s : State) : List Attribute :=
  let r := Rect.between (s.point (.ofInt ⟨b.left, b.top⟩)) (s.point (.ofInt ⟨b.right, b.bottom⟩))
  [number "x" r.x, number "y" r.y, number "width" r.width, number "height" r.height]

/-- The attributes of two radii. -/
def radiiAttributes (r : Point Float) : List Attribute :=
  [number "rx" r.x, number "ry" r.y]

/-- The attributes of the center of an ellipse in a box. -/
def centerAttributes (b : Box) (s : State) : List Attribute :=
  let center := s.point b.center
  [number "cx" center.x, number "cy" center.y]

/-- The outline of a shape that is drawn on its own: one that goes on starts at the current
position. -/
def ownOutline (shape : Shape) (s : State) : Outline Float :=
  if continues shape then .move s.position :: shapeOutline s.heading shape
  else shapeOutline s.heading shape

/-- The name and the geometry of the element of a shape. -/
def geometry (shape : Shape) (s : State) : String × List Attribute :=
  match shape with
  | .rectangle b => ("rect", s.boxAttributes b)
  | .roundRect b corner =>
    let half : Point Float := .ofInt corner
    ("rect", s.boxAttributes b ++
      radiiAttributes (s.lengths ⟨(half.x / 2).abs, (half.y / 2).abs⟩))
  | .ellipse b => ("ellipse", s.centerAttributes b ++ radiiAttributes (s.lengths b.radii))
  | _ => ("path", [("d", Outline.data (s.place (s.ownOutline shape)))])

/-- The element of a shape. A shape that is not filled says so. -/
def shapePiece (shape : Shape) (s : State) : Piece :=
  let (name, geometry) := s.geometry shape
  .shape name (s.context.clipAttributes ++ geometry ++ s.strokeAttributes ++
    (if isFilled shape then s.context.fillAttributes else [("fill", "none")]))

/-- Where the current position is after a shape was drawn on its own. The elements of boxes and
ellipses do not move it. -/
def ownStop (shape : Shape) (s : State) : Point Float :=
  match shape with
  | .rectangle _ | .roundRect .. | .ellipse _ => s.position
  | _ => (s.ownOutline shape).stop?.getD s.position

/-- Draws a shape. -/
def draw (shape : Shape) (s : State) : State :=
  match s.bracket with
  | some b => s.extend (shapeOutline s.heading shape) b
  | none =>
    if isBlank shape then s
    else
      let piece := s.shapePiece shape
      let s := { s with position := s.ownStop shape }
      s.emit #[piece]

/-- Sets the current position. In an open path that begins a new figure. -/
def moveTo (p : Point Float) (s : State) : State :=
  match s.bracket with
  | some b => s.extend [.move p] b
  | none => { s with position := p }

/-- Closes the current figure of the open path. -/
def closeFigure (s : State) : State :=
  match s.bracket with
  | some b => s.extend [.close] b
  | none => s

end State

end Metafile.Playback
