import Metafile.Device.Context
import Metafile.Markup.Element
import Metafile.Markup.Reference

/-!
# `Metafile.Device.Paint`: what a context adds to an element

An element gets its stroke, its fill and its clip region from the context in which it is drawn.
Each function gives the attributes in the order in which they are written.
-/

set_option autoImplicit false

namespace Metafile.Device.Context

open Metafile.Markup (Attribute)

/-- The width of lines on the page. A geometric pen has its own width, if that is positive. Any
other line is one device unit wide. -/
def strokeWidth (c : Context) (page : Page Float) : Float :=
  let width := c.mapping.lengthX page c.pen.width
  if c.pen.isGeometric && width > 0 then width else page.scale

/-- The lengths of dashes and gaps, as multiples of the width of the line. -/
def dashLengths : Dash → List Float
  | .dash => [5.0, 5.0]
  | .dot => [1.0, 1.0]
  | .dashDot => [5.0, 5.0, 1.0, 5.0]
  | .dashDotDot => [5.0, 5.0, 1.0, 1.0, 1.0, 5.0]
  | .solid | .invisible => []

/-- The dashes of a line, if it has any. -/
def dashAttributes (pattern : Dash) (width : Float) : List Attribute :=
  match dashLengths pattern with
  | [] => []
  | lengths =>
    [("stroke-dasharray",
      ",".intercalate (lengths.map fun n => Decimal.Fixed.text (n * width)))]

/-- The stroke of a visible pen. -/
def lineAttributes (c : Context) (page : Page Float) : List Attribute :=
  let width := c.strokeWidth page
  [("stroke", c.pen.color.hex), ("stroke-width", Decimal.Fixed.text width ++ "px")] ++
    dashAttributes c.pen.dash width ++
    [("stroke-linecap", c.pen.cap), ("stroke-linejoin", c.pen.join)] ++
    (if c.pen.isMitered then [("stroke-miterlimit", Decimal.Fixed.text c.miterLimit)] else [])

/-- The stroke of an element. Where the pen is invisible the outline takes the colour of the
brush, and is absent if the brush paints nothing either. -/
def strokeAttributes (c : Context) (page : Page Float) : List Attribute :=
  if c.pen.isInvisible then
    if c.brush.isHollow then [("stroke", "none"), ("stroke-width", "0.0")]
    else [("stroke-width", "1px"), ("stroke", c.brush.color.hex)]
  else c.lineAttributes page

/-- How overlapping figures are filled. -/
def fillRule (c : Context) : Attribute :=
  ("fill-rule", if c.polyFillMode == windingMode then "nonzero" else "evenodd")

/-- The paint of the brush: a pattern or a colour. -/
def brushPaint (c : Context) : String :=
  if c.brush.hasPattern then Markup.Reference.url (Markup.Reference.pattern c.brush.pattern)
  else c.brush.color.hex

/-- The fill of an element. -/
def fillAttributes (c : Context) : List Attribute :=
  if c.brush.isHollow then [("fill", "none")]
  else [c.fillRule, ("fill", c.brushPaint)]

/-- The reference to the clip region, if it has a definition. -/
def clipReference? (c : Context) : Option String :=
  if c.clipId = 0 then none else some (Markup.Reference.url (Markup.Reference.clip c.clipId))

/-- The clip region of an element. -/
def clipAttributes (c : Context) : List Attribute :=
  Attribute.ofValue? "clip-path" c.clipReference?

end Metafile.Device.Context
