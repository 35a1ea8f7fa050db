import Metafile.Bitmap.Embed
import Metafile.Playback.State
import Metafile.Record.Command

/-!
# `Metafile.Playback.Picture`: pictures and painted areas

A picture covers the rectangle between two points of the page. Without a picture the brush, or a
colour that the raster operation implies, paints an area: its corner is a point of the page, and
its sides are logical lengths.

A brush that repeats a picture refers to a pattern, which is defined the first time that the
picture is met. Inside of a path no definition can be written, and such a brush paints one colour.
-/

set_option autoImplicit false

namespace Metafile.Playback

open Metafile.Bitmap (Picture Palette Embedded)
open Metafile.Markup (Attribute Element Piece)
open Metafile.Record (Blit)

/-! ### Areas of the page -/

section Areas

variable {α : Type} [Scalar α]

/-- The rectangle of the page that a picture covers: the one between the corner of its area and
the opposite corner. -/
def pictureRect (m : Mapping α) (page : Page α) (corner size : Point Int) : Rect α :=
  let opposite : Point Int := ⟨clampedSum corner.x size.x, clampedSum corner.y size.y⟩
  Rect.between (m.point page (.ofInt corner)) (m.point page (.ofInt opposite))

/-- The corners of the area of the page that a brush paints. -/
def paintedCorners (m : Mapping α) (page : Page α) (corner size : Point Int) : List (Point α) :=
  let p := m.point page (.ofInt corner)
  let v := m.lengths page (.ofInt size)
  [p, p.shift ⟨v.x, 0.0⟩, p.shift v, p.shift ⟨0.0, v.y⟩]

end Areas

/-! ### Raster operations -/

/-- The raster operation that leaves everything as it is. -/
def keepOperation : Nat := 0x00AA0029

/-- The raster operation that paints black. -/
def blackOperation : Nat := 0x00000042

/-- The raster operation that paints white. -/
def whiteOperation : Nat := 0x00FF0062

/-- The style of a paint. -/
def fillStyle (paint : String) : String := "fill:" ++ paint ++ ";"

/-- The paint of a brush that paints an area, if it paints anything. -/
def brushArea? (b : Device.Brush) : Option String :=
  if b.isHollow then none
  else if b.style = Device.Brush.patternStyle ∧ b.pattern ≠ 0 then
    some (Markup.Reference.url (Markup.Reference.pattern b.pattern))
  else some b.color.hex

/-- The paint of an area without a picture, if anything is painted. -/
def areaPaint? (operation : Nat) (b : Device.Brush) : Option String :=
  if operation = keepOperation then none
  else if operation = blackOperation then some Color.black.hex
  else if operation = whiteOperation then some Color.white.hex
  else brushArea? b

/-! ### Elements -/

/-- The definition of a picture of a size and of the pattern that repeats it. -/
def patternDefinition (id : Nat) (uri : String) (width height : Float) : Piece :=
  let image :=
    ((((Element.named "image").set "id" (Markup.Reference.image id)).set "x" "0").set "y" "0")
      |>.setFloat "width" width |>.setFloat "height" height
      |>.set "xlink:href" uri |>.set "preserveAspectRatio" "none"
  let tile :=
    (((Element.named "use").set "id" (Markup.Reference.tile id)).set "xlink:href"
      ("#" ++ Markup.Reference.image id))
  let pattern :=
    ((((Element.named "pattern").set "id" (Markup.Reference.pattern id)).set "x" "0").set "y" "0")
      |>.setFloat "width" width |>.setFloat "height" height
      |>.set "patternUnits" "userSpaceOnUse" |>.push tile
  .element (((Element.named "defs").push image).push pattern)

/-- The element of a picture. -/
def pictureElement (r : Rect Float) (opacity : Option Float) (clip : Option String)
    (uri : String) : Element :=
  let placed :=
    ((((Element.named "image").setFloat "width" r.width).setFloat "height" r.height).setFloat
      "x" r.x).setFloat "y" r.y
  ((((placed.setSome "fill-opacity" (opacity.map Decimal.Shortest.text)).setSome "clip-path"
    clip).set "preserveAspectRatio" "none").set "xlink:href" uri)

namespace State

/-- Leaves a warning if a picture had to be replaced by the placeholder. -/
def noteEmbedded (e : Embedded) (s : State) : State :=
  match e.fault with
  | none => s
  | some fault => s.note .warn ("bitmap replaced by placeholder: " ++ fault.message)

/-- The piece of a painted area. -/
def areaPiece (paint : String) (b : Blit) (s : State) : Piece :=
  let corners := paintedCorners s.context.mapping s.page b.corner b.size
  .shape "path" (s.context.clipAttributes ++
    [("style", fillStyle paint), ("d", Outline.data (.polygon corners))])

/-- Draws a picture, or paints where there is none. -/
def blit (encode : Bitmap.Encoder) (b : Blit) (s : State) : State :=
  match b.source with
  | none =>
    match areaPaint? b.operation s.context.brush with
    | none => s
    | some paint => s.emit #[s.areaPiece paint b]
  | some picture =>
    let e := picture.embed encode none
    let r := pictureRect s.context.mapping s.page b.corner b.size
    let opacity := b.alpha.map fun a => Float.ofNat a / 255
    (s.noteEmbedded e).emit
      #[.element (pictureElement r opacity s.context.clipReference? e.uri)]

/-- Puts a tool into a slot of the object table. -/
def put (index : Nat) (tool : Device.Tool) (s : State) : State × Option Fault :=
  match s.objects.set index (some tool) with
  | .ok objects => ({ s with objects }, none)
  | .error fault => (s, some fault)

/-- The colours of a picture of two colours. -/
def twoColors (c : Device.Context) : Palette := #[c.textColor, c.backgroundColor]

/-- Defines a picture and its pattern, and gives the number of the picture. -/
def definePattern (encode : Bitmap.Encoder) (picture : Picture) (fromContext : Bool) (s : State) :
    State × Nat :=
  let (images, id) := s.images.add picture
  let e := picture.embed encode (if fromContext then some (twoColors s.context) else none)
  let width := Float.ofNat e.columns * s.page.scale
  let height := Float.ofNat e.rows * s.page.scale
  let s := { s with images }
  ((s.noteEmbedded e).emit #[patternDefinition id e.uri width height], id)

/-- The number of a picture that is defined, after defining it where needed. -/
def patternOf (encode : Bitmap.Encoder) (picture : Picture) (fromContext : Bool) (s : State) :
    State × Nat :=
  if s.inPath then (s, 0)
  else
    match s.images.find? picture with
    | some id => (s, id)
    | none => s.definePattern encode picture fromContext

/-- Makes a brush that repeats a picture. The picture is defined before the slot is looked at, so
the definition stays when the handle is a fault. -/
def createPattern (encode : Bitmap.Encoder) (index : Nat) (picture : Picture) (fromContext : Bool)
    (s : State) : State × Option Fault :=
  let (s, id) := s.patternOf encode picture fromContext
  let s := s.note .debug s!"pattern brush {index} -> img-{id}"
  s.put index (.brush ⟨Device.Brush.patternStyle, s.context.brush.color, 0, id⟩)

end State

end Metafile.Playback
