import Metafile.Color
import Metafile.Geometry.Outline
import Metafile.Record.Fields

/-!
# `Metafile.Plus.Object`: brushes, pens, paths and fonts of EMF+

EMF+ records refer to objects by number. The content of an object is read once it is complete.
Gradients and hatches are painted in one colour, and of a pen only the width and the brush count:
everything else that its flags announce is passed over to reach the brush.

Points come in three forms: floating-point numbers, 16-bit integers, or steps from the point
before.
-/

set_option autoImplicit false

namespace Metafile.Plus

/-- A brush. Colours hold their opacity in the highest byte. -/
inductive Brush
  | solid (argb : Nat)
  | hatch (fore back : Nat)
  | pathGradient (center : Nat)
  | linearGradient (start stop : Nat) (x y width height : Float)
deriving Repr, Inhabited

namespace Brush

/-- The colour that stands for a brush. -/
def argb : Brush → Nat
  | solid argb => argb
  | hatch fore _ => fore
  | pathGradient center => center
  | linearGradient start .. => start

/-- The colour that a brush paints. -/
def color (b : Brush) : Color := .ofArgb b.argb

/-- The opacity of a brush. -/
def opacity (b : Brush) : Float := Color.opacityOfArgb b.argb

/-- The colour of a brush that repeats a picture, for the picture is not drawn. -/
def textureArgb : Nat := 0xFF000000

/-- Takes a brush. -/
def decode : Decode Brush := do
  let _version ← Cursor.u32
  match ← Cursor.u32 with
  | 0 => return .solid (← Cursor.u32)
  | 1 =>
    let _style ← Cursor.u32
    let fore ← Cursor.u32
    let back ← Cursor.u32
    return .hatch fore back
  | 2 => return .solid textureArgb
  | 3 =>
    let _flags ← Cursor.u32
    let _wrap ← Cursor.u32
    return .pathGradient (← Cursor.u32)
  | 4 =>
    let _flags ← Cursor.u32
    let _wrap ← Cursor.u32
    let x ← Cursor.f32
    let y ← Cursor.f32
    let width ← Cursor.f32
    let height ← Cursor.f32
    let start ← Cursor.u32
    let stop ← Cursor.u32
    return .linearGradient start stop x y width height
  | type => throw (.outOfBounds (.brushType type))

end Brush

/-! ### Pens -/

/-- A pen. -/
structure Pen where
  brush : Brush
  width : Float
  /-- The number of the unit of the width. -/
  unit : Nat
deriving Repr, Inhabited

namespace Pen

/-- A field that a flag of a pen announces. -/
inductive Field
  /-- A field of so many bytes. -/
  | fixed (bytes : Nat)
  /-- A count and as many numbers of 32 bits. -/
  | numbers
  /-- A size and as many bytes. -/
  | blob
deriving DecidableEq, Repr

/-- The fields in the order in which they lie in a pen, each with the flag that announces it: the
transform, the seven plain settings, the dashes, the alignment, the compound lines and the two
custom caps. -/
def fields : List (Nat × Field) :=
  [(0x0001, .fixed 24), (0x0002, .fixed 4), (0x0004, .fixed 4), (0x0008, .fixed 4),
    (0x0010, .fixed 4), (0x0020, .fixed 4), (0x0040, .fixed 4), (0x0080, .fixed 4),
    (0x0100, .numbers), (0x0200, .fixed 4), (0x0400, .numbers), (0x0800, .blob), (0x1000, .blob)]

/-- Passes over a field. -/
def Field.pass : Field → Decode Unit
  | .fixed bytes => Cursor.skip bytes
  | .numbers => do
    let count ← Cursor.u32
    Cursor.skip (count * 4)
  | .blob => do
    let size ← Cursor.u32
    Cursor.skip size

/-- Passes over the fields that the flags announce. -/
def passFields (flags : Nat) : List (Nat × Field) → Decode Unit
  | [] => return ()
  | (flag, f) :: rest => do
    if flags / flag % 2 = 1 then f.pass
    passFields flags rest

/-- Takes a pen. -/
def decode : Decode Pen := do
  let _version ← Cursor.u32
  let _type ← Cursor.u32
  let flags ← Cursor.u32
  let unit ← Cursor.u32
  let width ← Cursor.f32
  passFields flags fields
  return ⟨← Brush.decode, width, unit⟩

end Pen

/-! ### Points -/

/-- An integer as a floating-point number of 32 bits, widened to 64. -/
def narrowFloat (n : Int) : Float :=
  Single.toFloat (Single.ofInt n)

/-- Takes a step: one byte of 7 bits, or two bytes of 15 bits with the highest bit set before. -/
def step : Decode Int := do
  let first ← Cursor.u8
  if first < 0x80 then return signed 7 first
  let second ← Cursor.u8
  return signed 15 ((first - 0x80) * 256 + second)

/-- Takes points that are given by steps, the first of them from a place. -/
def stepPoints : Nat → Int → Int → Decode (List (Point Float))
  | 0, _, _ => return []
  | count + 1, x, y => do
    let x := clampedSum x (← step)
    let y := clampedSum y (← step)
    return ⟨narrowFloat x, narrowFloat y⟩ :: (← stepPoints count x y)

/-- Takes a point of two 16-bit integers. -/
def integerPoint : Decode (Point Float) := do
  let x ← Cursor.i16
  let y ← Cursor.i16
  return ⟨Float.ofInt x, Float.ofInt y⟩

/-- Takes a point of two floating-point numbers. -/
def floatPoint : Decode (Point Float) := do
  let x ← Cursor.f32
  let y ← Cursor.f32
  return ⟨x, y⟩

/-- Takes points in the form that the flags of their record name. -/
def points (count : Nat) (compressed relative : Bool) : Decode (List (Point Float)) := do
  if relative then stepPoints count 0 0
  else if compressed then
    Cursor.require (count * 4)
    Cursor.many count integerPoint
  else
    Cursor.require (count * 8)
    Cursor.many count floatPoint

/-! ### Paths -/

/-- A path: points, and a type for each. -/
structure Path where
  points : List (Point Float)
  types : List Nat
deriving Repr, Inhabited

namespace Path

/-- Takes types that are given by runs, until there are enough of them. A run has from one to 63
points. The last run may be longer than needed. -/
def runTypes (count : Nat) : Decode (List Nat) :=
  if _h : count = 0 then return []
  else do
    let run := (← Cursor.u8) % 64
    let type ← Cursor.u8
    if _hr : run = 0 then throw (.outOfBounds .emptyRun)
    else
      let rest ← runTypes (count - min run count)
      return List.replicate (min run count) type ++ rest
termination_by count
decreasing_by omega

/-- Takes a path. -/
def decode : Decode Path := do
  let _version ← Cursor.u32
  let count ← Cursor.u32
  let flags ← Cursor.u32
  let ps ← Plus.points count (flags / 0x4000 % 2 == 1) (flags / 0x0800 % 2 == 1)
  if flags / 0x1000 % 2 = 1 then return ⟨ps, ← runTypes count⟩
  return ⟨ps, (← Cursor.bytes count).map UInt8.toNat⟩

/-- The outline of points with types, where some points of a curve are already met. A curve is
drawn when its third point is met. A type that stands for no segment is passed over. -/
def outlineFrom (met : List (Point Float)) : List (Point Float × Nat) → Outline Float
  | [] => []
  | (p, type) :: rest =>
    let closing : Outline Float := if type / 0x80 % 2 = 1 then [.close] else []
    match type % 8 with
    | 0 => .move p :: (closing ++ outlineFrom [] rest)
    | 1 => .line p :: (closing ++ outlineFrom [] rest)
    | 3 =>
      match met with
      | [c₁, c₂] => .curve c₁ c₂ p :: (closing ++ outlineFrom [] rest)
      | _ => closing ++ outlineFrom (met ++ [p]) rest
    | _ => outlineFrom met rest

/-- The outline of a path. A curve that lacks points at the end is left out. -/
def outline (p : Path) : Outline Float :=
  outlineFrom [] (p.points.zip p.types)

end Path

/-! ### Fonts and the other objects -/

/-- A font. -/
structure Font where
  emSize : Float
  /-- The number of the unit of the size. -/
  unit : Nat
  style : Nat
  family : String
deriving Repr, Inhabited

namespace Font

/-- Takes a font. -/
def decode : Decode Font := do
  let _version ← Cursor.u32
  let emSize ← Cursor.f32
  let unit ← Cursor.u32
  let style ← Cursor.u32
  let _reserved ← Cursor.u32
  let length ← Cursor.u32
  return ⟨emSize, unit, style, ← Cursor.utf16 length⟩

/-- Whether the letters are bold. -/
def isBold (f : Font) : Bool := f.style % 2 == 1

/-- Whether the letters are italic. -/
def isItalic (f : Font) : Bool := f.style / 2 % 2 == 1

/-- Whether the text is underlined. -/
def isUnderlined (f : Font) : Bool := f.style / 4 % 2 == 1

/-- Whether the text is struck out. -/
def isStruckOut (f : Font) : Bool := f.style / 8 % 2 == 1

end Font

/-- An object. Of objects that are never drawn only the type is kept. -/
inductive Object
  | brush (b : Brush)
  | pen (p : Pen)
  | path (p : Path)
  | font (f : Font)
  | other (type : Nat)
deriving Repr, Inhabited

/-- The object that some content describes. -/
def Object.ofBytes (type : Nat) (content : Bytes) : Except Fault Object :=
  match type with
  | 1 => return .brush (← Brush.decode.first content)
  | 2 => return .pen (← Pen.decode.first content)
  | 3 => return .path (← Path.decode.first content)
  | 6 => return .font (← Font.decode.first content)
  | 4 | 5 | 7 | 8 | 9 => return .other type
  | _ => throw (.outOfBounds (.objectType type))

end Metafile.Plus
