import Metafile.Decimal.Fixed
import Metafile.Geometry.Point

/-!
# `Metafile.Geometry.Outline`: outlines and their path data

An outline is a list of segments: moves, lines, elliptical arcs, cubic curves, and closings of the
current figure. Outlines are what is drawn, what a path bracket collects, and what a clip region
is made of. `Outline.chars` is the path data of an outline, one command for each segment.

`Outline.chars_append` states that path data can be written piece by piece.
-/

set_option autoImplicit false

namespace Metafile

/-- One segment of an outline. The arc keeps its radii and its end, the curve its two control
points and its end. -/
inductive Segment (α : Type) where
  | move (p : Point α)
  | line (p : Point α)
  | arc (radii stop : Point α) (large sweep : Bool)
  | curve (c₁ c₂ stop : Point α)
  | close
deriving BEq, DecidableEq, Repr, Inhabited

/-- Segments in drawing order. -/
abbrev Outline (α : Type) := List (Segment α)

namespace Segment

variable {α β : Type}

/-- Where the pen stands after a segment. After a closing that depends on the figure. -/
def stop? : Segment α → Option (Point α)
  | .move p => some p
  | .line p => some p
  | .arc _ stop _ _ => some stop
  | .curve _ _ stop => some stop
  | .close => none

/-- The points of a segment, in the order in which path data lists them. -/
def points : Segment α → List (Point α)
  | .move p => [p]
  | .line p => [p]
  | .arc radii stop _ _ => [radii, stop]
  | .curve c₁ c₂ stop => [c₁, c₂, stop]
  | .close => []

/-- A segment with its points and its radii sent elsewhere. -/
def map (onPoint onRadii : Point α → Point β) : Segment α → Segment β
  | .move p => .move (onPoint p)
  | .line p => .line (onPoint p)
  | .arc radii stop large sweep => .arc (onRadii radii) (onPoint stop) large sweep
  | .curve c₁ c₂ stop => .curve (onPoint c₁) (onPoint c₂) (onPoint stop)
  | .close => .close

/-- Whether a segment is a curve. -/
def isCurve : Segment α → Bool
  | .curve .. => true
  | _ => false

end Segment

/-- A point in path data: its coordinates with a comma between and a blank after. -/
def Point.chars (p : Point Float) : List Char :=
  Decimal.Fixed.chars p.x ++ ',' :: (Decimal.Fixed.chars p.y ++ [' '])

/-- A flag in path data. -/
def flagChar (b : Bool) : Char :=
  if b then '1' else '0'

/-- The path data of a segment. -/
def Segment.chars : Segment Float → List Char
  | .move p => 'M' :: ' ' :: p.chars
  | .line p => 'L' :: ' ' :: p.chars
  | .arc radii stop large sweep =>
    'A' :: ' ' :: (radii.chars ++
      '0' :: ' ' :: flagChar large :: ' ' :: flagChar sweep :: ' ' :: stop.chars)
  | .curve c₁ c₂ stop => 'C' :: ' ' :: (c₁.chars ++ c₂.chars ++ stop.chars)
  | .close => ['Z', ' ']

namespace Outline

/-- The path data of an outline. A blank follows every command. -/
def chars (o : Outline Float) : List Char :=
  o.flatMap Segment.chars

/-- Path data can be written piece by piece. -/
theorem chars_append (a b : Outline Float) : chars (a ++ b) = chars a ++ chars b :=
  List.flatMap_append

/-- The characters without the blanks at their end. -/
def trimBlanks (cs : List Char) : List Char :=
  (cs.reverse.dropWhile (· == ' ')).reverse

/-- The path data of an outline as the value of an attribute. -/
def data (o : Outline Float) : String :=
  String.ofList (trimBlanks (chars o))

variable {α β : Type}

/-- An outline with its points and its radii sent elsewhere. -/
def map (onPoint onRadii : Point α → Point β) (o : Outline α) : Outline β :=
  List.map (Segment.map onPoint onRadii) o

/-- An outline moved by a vector. Radii do not move. -/
def shift [Scalar α] (v : Point α) (o : Outline α) : Outline α :=
  map (·.shift v) id o

/-- Where the pen stands at the end, if any segment places it. -/
def stop? (o : Outline α) : Option (Point α) :=
  o.reverse.findSome? Segment.stop?

/-- One figure through the points, starting with a move. -/
def polyline : List (Point α) → Outline α
  | [] => []
  | p :: rest => .move p :: rest.map .line

/-- One closed figure through the points. -/
def polygon : List (Point α) → Outline α
  | [] => []
  | ps => polyline ps ++ [.close]

/-- The closed figure through four corners that also returns to the first of them by a line. -/
def quadrangle (a b c d : Point α) : Outline α :=
  [.move a, .line b, .line c, .line d, .line a, .close]

/-- Curves through groups of three points. Points that fill no group are left out. -/
def curves : List (Point α) → Outline α
  | c₁ :: c₂ :: stop :: rest => .curve c₁ c₂ stop :: curves rest
  | _ => []

end Outline

end Metafile
