import Metafile.Geometry.Angle
import Metafile.Plus.Kind
import Metafile.Plus.Object
import Metafile.Plus.World
import Metafile.Text.Printable

/-!
# `Metafile.Plus.Command`: what an EMF+ record asks for

A record has a kind, flags and a payload. `Command.ofRecord` reads all of it before anything is
done, so a record that is cut short asks for nothing. The one exception is the header, whose flags
count even if its payload is too short: its command carries the reading of the payload along.
-/

set_option autoImplicit false

namespace Metafile.Plus

/-- What is filled or stroked, in world coordinates. -/
inductive Figure
  | rects (rs : List (Rect Float))
  | polyline (ps : List (Point Float)) (closed : Bool)
  | ellipse (r : Rect Float)
  | curves (ps : List (Point Float))
  /-- The path with this number. -/
  | path (id : Nat)
deriving Repr, Inhabited

/-- What paints a figure: a colour or the brush with a number. -/
inductive Paint
  | color (argb : Nat)
  | brush (id : Nat)
deriving DecidableEq, Repr, Inhabited

/-- A piece of an object: all of it or its last part, or a part with the announced total. -/
inductive Fragment
  | last (content : Bytes)
  | part (total : Nat) (content : Bytes)
deriving DecidableEq, Repr, Inhabited

/-- What a record asks for. -/
inductive Command
  | header (dual : Bool) (resolution : Except Fault (Nat × Nat))
  | object (type id : Nat) (fragment : Fragment)
  | fill (figure : Figure) (paint : Paint)
  | stroke (figure : Figure) (pen : Nat)
  | label (font : Nat) (paint : Paint) (corner : Point Float) (text : String)
  | save (index : Nat)
  | restore (index : Nat)
  | container (target source : Rect Float) (index : Nat)
  | world (change : WorldChange Float)
  | page (unit : Nat) (scale : Float)
  | nothing

/-! ### Flags -/

/-- Whether a flag is set. -/
def hasFlag (flags flag : Nat) : Bool := flags / flag % 2 == 1

/-- The object number in the flags. -/
def objectId (flags : Nat) : Nat := flags % 0x100

/-- Whether coordinates are 16-bit integers. -/
def isCompressed (flags : Nat) : Bool := hasFlag flags 0x4000

/-- Whether points are given by steps. -/
def isRelative (flags : Nat) : Bool := hasFlag flags 0x0800

/-- The paint that a record names: a colour if the flags say so, and a brush otherwise. -/
def paint (flags token : Nat) : Paint :=
  if hasFlag flags 0x8000 then .color token else .brush (token % 0x100)

/-! ### Reading payloads -/

/-- Takes a rectangle of floating-point numbers. -/
def floatRect : Decode (Rect Float) := do
  let x ← Cursor.f32
  let y ← Cursor.f32
  let width ← Cursor.f32
  let height ← Cursor.f32
  return ⟨x, y, width, height⟩

/-- Takes a rectangle of 16-bit integers. -/
def integerRect : Decode (Rect Float) := do
  let x ← Cursor.i16
  let y ← Cursor.i16
  let width ← Cursor.i16
  let height ← Cursor.i16
  return ⟨Float.ofInt x, Float.ofInt y, Float.ofInt width, Float.ofInt height⟩

/-- Takes a rectangle in the form that the flags name. -/
def rect (flags : Nat) : Decode (Rect Float) :=
  if isCompressed flags then integerRect else floatRect

/-- Takes a count and as many rectangles, after making sure that they all exist. -/
def rects (flags : Nat) : Decode (List (Rect Float)) := do
  let count ← Cursor.u32
  Cursor.require (count * (if isCompressed flags then 8 else 16))
  Cursor.many count (rect flags)

/-- Takes a count and as many points in the form that the flags name. -/
def countedPoints (flags : Nat) : Decode (List (Point Float)) := do
  let count ← Cursor.u32
  points count (isCompressed flags) (isRelative flags)

/-- Takes two floating-point numbers. -/
def floatPair : Decode (Float × Float) := do
  let a ← Cursor.f32
  let b ← Cursor.f32
  return (a, b)

/-- Takes the horizontal and the vertical resolution of a header. -/
def resolution : Decode (Nat × Nat) := do
  let x ← Cursor.u32
  let y ← Cursor.u32
  return (x, y)

/-- Takes what a record that fills a figure asks for: the paint, then the figure. -/
def fillCommand (flags : Nat) (figure : Decode Figure) : Decode Command := do
  let token ← Cursor.u32
  return .fill (← figure) (paint flags token)

/-- Takes what a record that strokes a figure asks for. The flags name the pen. -/
def strokeCommand (flags : Nat) (figure : Decode Figure) : Decode Command :=
  return .stroke (← figure) (objectId flags)

/-- Takes what a record that writes text asks for. -/
def labelCommand (flags : Nat) : Decode Command := do
  let token ← Cursor.u32
  let _format ← Cursor.u32
  let length ← Cursor.u32
  -- of the layout only the corner counts: text is not wrapped
  let layout ← floatRect
  let text ← Cursor.utf16 length
  return .label (objectId flags) (paint flags token) ⟨layout.x, layout.y⟩
    (Text.Printable.ofString text)

/-- Takes what a record that begins a container asks for. -/
def containerCommand : Decode Command := do
  let target ← floatRect
  let source ← floatRect
  return .container target source (← Cursor.u32)

/-- Takes a piece of an object. A piece that is not the last begins with the announced total. -/
def objectCommand (flags : Nat) (payload : Bytes) : Decode Command := do
  let type := flags / 0x100 % 0x80
  if hasFlag flags 0x8000 then
    let total ← Cursor.u32
    return .object type (objectId flags) (.part total (payload.drop 4))
  return .object type (objectId flags) (.last payload)

/-- A multiplication of the world transform. The flags say on which side. -/
def multiply (flags : Nat) (m : Affine Float) : Command :=
  .world (.multiply (hasFlag flags 0x2000) m)

namespace Command

/-- Takes what a record asks for from its payload. -/
def decode (kind : Kind) (flags : Nat) (payload : Bytes) : Decode Command :=
  match kind with
  | .header => return .header (hasFlag flags 1) (resolution.from payload 8)
  | .object => objectCommand flags payload
  | .fillRects => fillCommand flags do return .rects (← rects flags)
  | .drawRects => strokeCommand flags do return .rects (← rects flags)
  | .fillPolygon => fillCommand flags do return .polyline (← countedPoints flags) true
  | .drawLines =>
    strokeCommand flags do return .polyline (← countedPoints flags) (hasFlag flags 0x0400)
  | .fillEllipse => fillCommand flags do return .ellipse (← rect flags)
  | .drawEllipse => strokeCommand flags do return .ellipse (← rect flags)
  | .fillPath => fillCommand flags do return .path (objectId flags)
  | .drawPath => return .stroke (.path (objectId flags)) (objectId (← Cursor.u32))
  | .drawBeziers => strokeCommand flags do return .curves (← countedPoints flags)
  | .drawString => labelCommand flags
  | .save | .beginContainerNoParams => return .save (← Cursor.u32)
  | .restore | .endContainer => return .restore (← Cursor.u32)
  | .beginContainer => containerCommand
  | .setWorldTransform => return .world (.set (← Cursor.affine))
  | .resetWorldTransform => return .world .reset
  | .multiplyWorldTransform => return multiply flags (← Cursor.affine)
  | .translateWorldTransform => do
    let (dx, dy) ← floatPair
    return multiply flags (.translation dx dy)
  | .scaleWorldTransform => do
    let (sx, sy) ← floatPair
    return multiply flags (.scaling sx sy)
  | .rotateWorldTransform => do
    let angle := Angle.radians (← Cursor.f32)
    return multiply flags (.rotation angle.sin angle.cos)
  | .setPageTransform => return .page (objectId flags) (← Cursor.f32)
  | _ => return .nothing

/-- What a record asks for. -/
def ofRecord (kind : Kind) (flags : Nat) (payload : Bytes) : Except Fault Command :=
  (decode kind flags payload).first payload

end Command

end Metafile.Plus
