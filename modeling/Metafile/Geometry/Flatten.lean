import Metafile.Geometry.Outline

/-!
# `Metafile.Geometry.Flatten`: curves as lines

A clip region has no curves: each curve is replaced by lines. A curve is halved until its control
points lie close to its chord, but at most ten times, so hostile control points end as well.

`flattenCurve` keeps the halves that are still to do on a list. `weight` bounds the work that such
a list can cause. `Outline.flatten` follows the pen, for a curve starts where the pen stands.
-/

set_option autoImplicit false

namespace Metafile

/-- A cubic curve: its start, its two control points and its end. -/
structure Cubic where
  start : Point Float
  c₁ : Point Float
  c₂ : Point Float
  stop : Point Float
deriving BEq, Repr, Inhabited

namespace Cubic

/-- How often a curve is halved at most. -/
def maxDepth : Nat := 10

/-- How far control points may lie from the chord of a curve that counts as a line. -/
def tolerance : Float := 0.25

/-- The distance of a point from the line through two points, or from the first of them when they
coincide. -/
def distance (p a b : Point Float) : Float :=
  let dx := b.x - a.x
  let dy := b.y - a.y
  let len := (dx * dx + dy * dy).sqrt
  if len == 0 then
    ((p.x - a.x) * (p.x - a.x) + (p.y - a.y) * (p.y - a.y)).sqrt
  else ((p.x - a.x) * dy - (p.y - a.y) * dx).abs / len

/-- Whether a curve counts as a line. -/
def isFlat (c : Cubic) : Bool :=
  greatestFloat (distance c.c₁ c.start c.stop) (distance c.c₂ c.start c.stop) ≤ tolerance

/-- The two halves of a curve. -/
def halves (c : Cubic) : Cubic × Cubic :=
  let ab := c.start.middle c.c₁
  let bc := c.c₁.middle c.c₂
  let cd := c.c₂.middle c.stop
  let abc := ab.middle bc
  let bcd := bc.middle cd
  let m := abc.middle bcd
  (⟨c.start, ab, abc, m⟩, ⟨m, bcd, cd, c.stop⟩)

/-- Curves still to flatten, each with the number of times it may be halved. -/
abbrev Work := List (Cubic × Nat)

/-- The number of steps that the work can take. -/
def weight : Work → Nat
  | [] => 0
  | (_, depth) :: rest => 2 ^ (depth + 1) - 1 + weight rest

/-- The ends of the lines that stand for the curves, in order. -/
def drain : Work → List (Point Float)
  | [] => []
  | (c, 0) :: rest => c.stop :: drain rest
  | (c, depth + 1) :: rest =>
    if c.isFlat then c.stop :: drain rest
    else drain ((c.halves.1, depth) :: (c.halves.2, depth) :: rest)
termination_by work => weight work
decreasing_by
  · simp only [weight]; omega
  · simp only [weight]
    have := Nat.two_pow_pos (depth + 1 + 1)
    omega
  · simp only [weight]
    have := Nat.two_pow_pos depth
    rw [Nat.pow_succ 2 (depth + 1), Nat.pow_succ 2 depth]
    omega

/-- The ends of the lines that stand for a curve. -/
def flatten (c : Cubic) : List (Point Float) :=
  drain [(c, maxDepth)]

end Cubic

namespace Outline

/-- The segments from a pen position on, with lines for curves. The start of the figure is the
position to which a closing returns. -/
def flattenFrom (pen figure : Point Float) : Outline Float → Outline Float
  | [] => []
  | .curve c₁ c₂ stop :: rest =>
    ((Cubic.mk pen c₁ c₂ stop).flatten.map .line) ++ flattenFrom stop figure rest
  | .move p :: rest => .move p :: flattenFrom p p rest
  | .close :: rest => .close :: flattenFrom figure figure rest
  | .line p :: rest => .line p :: flattenFrom p figure rest
  | .arc radii stop large sweep :: rest =>
    .arc radii stop large sweep :: flattenFrom stop figure rest

/-- The outline with lines for curves. The pen starts at the origin. -/
def flatten (o : Outline Float) : Outline Float :=
  flattenFrom Point.zero Point.zero o

end Outline

end Metafile
