import Metafile.Color

/-!
# `Metafile.Device.Tool`: pens, brushes and fonts

Records describe drawing tools by words of bits. A `Pen` keeps its style word as it was stored and
reads the dashes, the cap and the join from it when it draws. A `Brush` keeps its style number. A
tool lives in a slot of the object table until a record selects it.
-/

set_option autoImplicit false

namespace Metafile.Device

/-- What a pen draws along a line. -/
inductive Dash
  | solid | dash | dot | dashDot | dashDotDot | invisible
deriving DecidableEq, Repr, Inhabited

/-- A pen. -/
structure Pen where
  /-- The style word: dashes, cap, join and type in one number. -/
  style : Nat
  /-- The width in logical units. -/
  width : Float
  color : Color
deriving Repr, Inhabited

namespace Pen

/-- The style of a pen that draws nothing. -/
def invisibleStyle : Nat := 5

/-- The bit of a pen whose width is a logical length. -/
def geometricBit : Nat := 0x10000

/-- The bits of a style word that say what is drawn along a line. -/
def dashBits (style : Nat) : Nat := style % 0x10

/-- What a pen draws along a line. Styles without dashes of their own are solid. -/
def dash (p : Pen) : Dash :=
  match dashBits p.style with
  | 1 => .dash
  | 2 => .dot
  | 3 => .dashDot
  | 4 => .dashDotDot
  | 5 => .invisible
  | _ => .solid

/-- Whether a pen draws nothing. -/
def isInvisible (p : Pen) : Bool := dashBits p.style == invisibleStyle

/-- The shape of the ends of a line. -/
def cap (p : Pen) : String :=
  match p.style / 0x100 % 0x10 with
  | 1 => "square"
  | 2 => "butt"
  | _ => "round"

/-- Whether the corners of a line are mitered. -/
def isMitered (p : Pen) : Bool := p.style / 0x1000 % 0x10 == 2

/-- The shape of the corners of a line. -/
def join (p : Pen) : String :=
  match p.style / 0x1000 % 0x10 with
  | 1 => "bevel"
  | 2 => "miter"
  | _ => "round"

/-- Whether the width of a pen is a logical length. Other pens are one device unit wide. -/
def isGeometric (p : Pen) : Bool := p.style / 0x10000 % 0x10 == 1

/-- The pen of a fresh context: solid, black and thin. -/
def initial : Pen := ⟨0, 1.0, .black⟩

end Pen

/-- A brush. -/
structure Brush where
  style : Nat
  color : Color
  hatch : Nat
  /-- The picture that a pattern brush repeats, or zero. -/
  pattern : Nat
deriving DecidableEq, Repr, Inhabited

namespace Brush

/-- The style of a brush of one colour. -/
def solidStyle : Nat := 0

/-- The style of a brush that paints nothing. -/
def hollowStyle : Nat := 1

/-- The style of a brush that repeats a picture which is given in the record. -/
def packedPatternStyle : Nat := 6

/-- The style of a brush that repeats a picture. -/
def patternStyle : Nat := 9

/-- Whether a brush paints nothing. -/
def isHollow (b : Brush) : Bool := b.style == hollowStyle

/-- Whether a brush repeats a picture that was defined. -/
def hasPattern (b : Brush) : Bool :=
  (b.style == patternStyle || b.style == packedPatternStyle) && b.pattern != 0

/-- The brush of a fresh context: solid and white. -/
def initial : Brush := ⟨solidStyle, .white, 0, 0⟩

end Brush

/-- A font. -/
structure Font where
  /-- The full name of the face, where the record has room for it. -/
  name : Option String
  family : Option String
  height : Int
  width : Int
  weight : Int
  italic : Bool
  underline : Bool
  strikeout : Bool
  /-- The slope of the line of text in tenths of a degree. -/
  escapement : Int
  orientation : Int
deriving DecidableEq, Repr, Inhabited

/-- The font of a fresh context. -/
def Font.initial : Font := ⟨none, none, 0, 0, 0, false, false, false, 0, 0⟩

/-- A tool in a slot of the object table. -/
inductive Tool
  | pen (p : Pen)
  | brush (b : Brush)
  | font (f : Font)
deriving Repr, Inhabited

end Metafile.Device
