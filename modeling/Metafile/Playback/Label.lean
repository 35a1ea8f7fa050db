import Metafile.Markup.Lettering
import Metafile.Playback.State

/-!
# `Metafile.Playback.Label`: text

A text hangs below its origin, unless the alignment says that the origin lies on the base line or
at the bottom. The font size is the height of the font on the page.
-/

set_option autoImplicit false

namespace Metafile.Playback

open Metafile.Markup (Attribute Piece)

/-! ### Alignment -/

/-- The bits of an alignment that stand for the base line. -/
def baselineBits : Nat := 0x18

/-- The bit of an alignment that stands for the bottom. -/
def bottomBit : Nat := 0x08

/-- The bits of an alignment that stand for the middle. -/
def centerBits : Nat := 0x06

/-- The bit of an alignment that stands for the right end. -/
def rightBit : Nat := 0x02

/-- Whether the origin of a text lies below it. -/
def hangsAbove (align : Nat) : Bool :=
  align &&& baselineBits == baselineBits || align &&& bottomBit != 0

/-- The part of a text that lies at its origin. -/
def anchor (align : Nat) : String :=
  if align &&& centerBits == centerBits then "middle"
  else if align &&& rightBit != 0 then "end"
  else "start"

/-! ### Attributes -/

namespace State

/-- The angle of a text in degrees, where it is turned. The vertical axis of a mapping with
origins may point up, and then angles turn the other way. -/
def textAngle (s : State) : Float :=
  let mapping := s.context.mapping
  let direction : Float := if mapping.usesOrigins && mapping.pointsUp s.page then 1 else -1
  direction * Float.ofInt s.context.font.escapement / 10

/-- The rotation of a text around a point, if it is turned. -/
def rotation (p : Point Float) (s : State) : List Attribute :=
  if s.context.font.escapement = 0 then []
  else
    let parts := [s.textAngle, p.x, p.y].map Decimal.Fixed.text
    [("transform", "rotate(" ++ ", ".intercalate parts ++ ")")]

/-- The attributes that say how a text looks. -/
def fontAttributes (p : Point Float) (s : State) : List Attribute :=
  let f := s.context.font
  Attribute.ofValue? "font-family" f.family ++ [("fill", s.context.textColor.hex)] ++
    s.rotation p ++ Attribute.onlyIf s.rightToLeft "writing-mode" "rl-tb" ++
    Attribute.onlyIf f.italic "font-style" "italic" ++ [Markup.Lettering.keepBlanks] ++
    Markup.Lettering.decoration f.underline f.strikeout ++
    Attribute.onlyIf (f.weight != 0) "font-weight" (toString f.weight)

/-- The size of the font on the page. -/
def fontSize (s : State) : Float :=
  (s.context.mapping.lengthX s.page (Float.ofInt s.context.font.height)).abs

/-- The point of the page at which a text with an origin is written. -/
def textPoint (origin : Point Int) (s : State) : Point Float :=
  let p := s.point (.ofInt origin)
  if hangsAbove s.context.textAlign then p else ⟨p.x, p.y + s.fontSize * Markup.Lettering.ascent⟩

/-- The piece of a text. -/
def labelPiece (origin : Point Int) (text : String) (s : State) : Piece :=
  let p := s.textPoint origin
  .label
    (s.fontAttributes p ++
      [("text-anchor", anchor s.context.textAlign), ("x", Decimal.Fixed.text p.x),
        ("y", Decimal.Fixed.text p.y)] ++
      Attribute.onlyIf (s.fontSize > 0) "font-size" (Decimal.Fixed.text s.fontSize) ++
      s.context.clipAttributes)
    text

/-- Writes a text. -/
def label (origin : Point Int) (text : String) (s : State) : State :=
  s.emit #[s.labelPiece origin text]

end State

end Metafile.Playback
