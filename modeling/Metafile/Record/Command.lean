import Metafile.Bitmap.Header
import Metafile.Clip
import Metafile.Record.Setting
import Metafile.Record.Shape
import Metafile.Record.Survey
import Metafile.Text.Printable

/-!
# `Metafile.Record.Command`: what a record asks for

`Command.ofRecord` reads a whole record before anything is done with it. A record that is cut
short or that points outside of itself asks for nothing: it is a fault. A record of a kind that is
not drawn asks for nothing either, and is never a fault.
-/

set_option autoImplicit false

namespace Metafile.Record

/-- What the header of a metafile says. -/
structure Header where
  bounds : Box
  /-- The number of handles of the object table. -/
  handles : Nat
  /-- The width of the device in its own units. -/
  deviceWidth : Int
  /-- The width of the device in millimeters. -/
  millimeters : Int
deriving DecidableEq, Repr, Inhabited

/-- A change of the clip region. -/
inductive ClipChange
  | box (b : Box) (op : Clip.Operation)
  /-- The path that was drawn last. -/
  | path (op : Clip.Operation)
  | shift (v : Point Int)
  /-- Boxes in device units. -/
  | boxes (bs : List Box) (op : Clip.Operation)
  | reset
deriving Repr, Inhabited

/-- An area of the page that a picture or a brush covers. -/
structure Blit where
  corner : Point Int
  size : Point Int
  /-- The raster operation. -/
  operation : Nat
  /-- The picture, if there is one. Without a picture the brush paints. -/
  source : Option Bitmap.Picture
  /-- The opacity of the picture, from 0 to 255, if it is given. -/
  alpha : Option Nat
deriving DecidableEq, Repr, Inhabited

/-- What a record asks for. -/
inductive Command
  | header (h : Header)
  | endOfFile
  | draw (shape : Shape)
  | beginPath
  | endPath
  | closeFigure
  | abortPath
  | flattenPath
  | set (setting : Setting)
  | mapMode (code : Nat)
  | layout (bits : Nat)
  | moveTo (p : Point Int)
  | save
  | restore (relative : Int)
  | transform (change : TransformChange)
  | create (index : Nat) (tool : Device.Tool)
  /-- A brush that repeats a picture. A picture of two colours takes them from the context. -/
  | createPattern (index : Nat) (picture : Bitmap.Picture) (twoColors : Bool)
  | select (handle : Nat)
  | delete (handle : Nat)
  | clip (change : ClipChange)
  | blit (area : Blit)
  | label (origin : Point Int) (text : String)
  /-- The EMF+ records of a comment. -/
  | plus (records : Bytes)
  | nothing
deriving Repr, Inhabited

/-! ### Headers and comments -/

/-- Takes what the header of a metafile says. -/
def Header.decode : Decode Header := do
  Cursor.seek headerBytes
  let bounds ← Cursor.box
  -- the frame, the signature and the counts of bytes and records
  Cursor.seek 56
  let handles ← Cursor.u16
  -- the description and the palette
  Cursor.seek 72
  let deviceWidth ← Cursor.i32
  let _deviceHeight ← Cursor.i32
  let millimeters ← Cursor.i32
  return ⟨bounds, handles, deviceWidth, millimeters⟩

/-- The offset of the EMF+ records in a comment: they follow its identifier. -/
def plusOffset : Nat := 16

/-- Takes the EMF+ records of a comment. The declared size counts the identifier. -/
def plusRecords : Decode Bytes := do
  let (size, _identifier) ← commentHeader
  Cursor.slice plusOffset (size - 4)

/-! ### Tools -/

/-- Takes a pen. A plain pen has no type, so one that is wider than one unit counts as geometric.
-/
def penCommand : Decode Command := do
  let index ← Cursor.u32
  let style ← Cursor.u32
  let width ← Cursor.i32
  -- a vertical width, which no pen has
  Cursor.seek 24
  let color := Color.ofReference (← Cursor.u32)
  let style := if width > 1 then style ||| Device.Pen.geometricBit else style
  return .create index (.pen ⟨style, Float.ofInt width, color⟩)

/-- Takes an extended pen. A pen whose brush is hollow is invisible. -/
def extendedPenCommand : Decode Command := do
  let index ← Cursor.u32
  -- the place of a picture that lines repeat
  Cursor.seek 28
  let style ← Cursor.u32
  let width ← Cursor.u32
  let brushStyle ← Cursor.u32
  let color := Color.ofReference (← Cursor.u32)
  let style :=
    if brushStyle = Device.Brush.hollowStyle then
      style - Device.Pen.dashBits style + Device.Pen.invisibleStyle
    else style
  return .create index (.pen ⟨style, Float.ofNat width, color⟩)

/-- Takes a brush. -/
def brushCommand : Decode Command := do
  let index ← Cursor.u32
  let style ← Cursor.u32
  let color := Color.ofReference (← Cursor.u32)
  let hatch ← Cursor.u32
  return .create index (.brush ⟨style, color, hatch, 0⟩)

/-- Where the two parts of a picture lie in a record. -/
structure PicturePlace where
  headerOffset : Nat
  headerSize : Nat
  bitsOffset : Nat
  bitsSize : Nat
deriving DecidableEq, Repr

/-- Takes the place of a picture. -/
def picturePlace : Decode PicturePlace := do
  let headerOffset ← Cursor.u32
  let headerSize ← Cursor.u32
  let bitsOffset ← Cursor.u32
  let bitsSize ← Cursor.u32
  return ⟨headerOffset, headerSize, bitsOffset, bitsSize⟩

/-- Gives the picture at a place. -/
def PicturePlace.picture (p : PicturePlace) : Decode Bitmap.Picture := do
  let header ← Cursor.slice p.headerOffset p.headerSize
  let bits ← Cursor.slice p.bitsOffset p.bitsSize
  return ⟨header, bits⟩

/-- Gives the picture at a place. Without a header or without bits there is none. -/
def PicturePlace.picture? (p : PicturePlace) : Decode (Option Bitmap.Picture) := do
  if p.headerSize = 0 ∨ p.bitsSize = 0 then return none
  return some (← p.picture)

/-- Takes a brush that repeats a picture. -/
def patternCommand (twoColors : Bool) : Decode Command := do
  let index ← Cursor.u32
  let _usage ← Cursor.u32
  let place ← picturePlace
  return .createPattern index (← place.picture) twoColors

/-- The absolute value of a 32-bit integer, kept in the range of such integers. -/
def clampedAbs (n : Int) : Int :=
  min 2147483647 (n.natAbs : Int)

/-- A text, if there is any. -/
def nonEmpty (s : String) : Option String :=
  if s.isEmpty then none else some s

/-- The size from which on a font record holds the full name of the face. -/
def fullNameSize : Nat := 332

/-- Takes the full name of the face of a font, if the record has room for it. -/
def fullName (size : Nat) : Decode (Option String) := do
  if size < fullNameSize then return none
  Cursor.seek 104
  return nonEmpty (← Cursor.utf16 64)

/-- Takes a font from a record of a size. -/
def fontCommand (size : Nat) : Decode Command := do
  let index ← Cursor.u32
  let height ← Cursor.i32
  let width ← Cursor.i32
  let escapement ← Cursor.i32
  let orientation ← Cursor.i32
  let weight ← Cursor.i32
  let italic ← Cursor.u8
  let underline ← Cursor.u8
  let strikeout ← Cursor.u8
  -- the character set, the precisions, the quality and the pitch
  Cursor.seek 40
  let family ← Cursor.utf16 32
  let name ← fullName size
  return .create index (.font
    { name
      family := nonEmpty family
      height := clampedAbs height
      width := clampedAbs width
      weight
      italic := italic != 0
      underline := underline != 0
      strikeout := strikeout != 0
      escapement := escapement.tmod 3600
      orientation })

/-! ### Clip regions -/

/-- Takes a region that is given as boxes. A region that takes the place of the old one is not
read: it lifts the clipping. -/
def regionCommand : Decode Command := do
  let _size ← Cursor.u32
  let op := Clip.Operation.ofCode (← Cursor.u32)
  if op = .replace then return .clip .reset
  -- the size and the sort of the region
  Cursor.seek 24
  let count ← Cursor.u32
  -- the bounds of the region
  Cursor.seek 48
  Cursor.require (count * 16)
  return .clip (.boxes (← Cursor.many count Cursor.box) op)

/-! ### Areas -/

/-- Takes an area. The corner, the size and the operation come before the picture. -/
def blitFields : Decode Blit := do
  -- the bounds of the record
  Cursor.seek 24
  let corner ← Cursor.longPoint
  let size ← Cursor.longPoint
  let operation ← Cursor.u32
  -- the corner, the transform and the background of the source
  Cursor.seek 84
  let place ← picturePlace
  return ⟨corner, size, operation, ← place.picture?, none⟩

/-- Takes an area with an opacity. -/
def alphaBlitFields : Decode Blit := do
  let area ← blitFields
  -- the opacity is the third of the four bytes that hold the operation
  Cursor.seek 42
  return { area with alpha := some (← Cursor.u8) }

/-- Takes an area in which a picture is stretched. The place of the picture comes before the
operation and the size. -/
def stretchBlitFields : Decode Blit := do
  -- the bounds of the record
  Cursor.seek 24
  let corner ← Cursor.longPoint
  -- the corner and the size of the source
  Cursor.seek 48
  let place ← picturePlace
  let _usage ← Cursor.u32
  let operation ← Cursor.u32
  let size ← Cursor.longPoint
  return ⟨corner, size, operation, ← place.picture?, none⟩

/-! ### Text -/

/-- Takes a text from the place that its record names. -/
def labelCommand (decode : Nat → Decode String) : Decode Command := do
  -- the bounds of the record, the graphics mode and the scales
  Cursor.seek 36
  let origin ← Cursor.longPoint
  let count ← Cursor.u32
  let offset ← Cursor.u32
  Cursor.seek offset
  return .label origin (← decode count)

/-- Takes a text of narrow characters of an unknown code page. -/
def narrowText (count : Nat) : Decode String :=
  return Text.Printable.ofAscii (← Cursor.bytes count)

/-- Takes a text of narrow characters. -/
def latinText (count : Nat) : Decode String :=
  return Text.Printable.ofLatin (← Cursor.bytes count)

/-- Takes a text of wide characters. -/
def wideText (count : Nat) : Decode String :=
  return Text.Printable.ofString (← Cursor.utf16 count)

/-- Takes a small text. The options say whether bounds precede it and how wide a character is. -/
def smallLabelCommand : Decode Command := do
  let origin ← Cursor.longPoint
  let count ← Cursor.u32
  let options ← Cursor.u32
  -- the graphics mode and the scales, and then the bounds if there are any
  Cursor.seek (if options / 0x100 % 2 = 1 then 36 else 52)
  let text ← if options / 0x200 % 2 = 1 then latinText count else wideText count
  return .label origin text

/-! ### Records -/

namespace Command

/-- Takes what a record asks for, where its first field comes next. -/
def decodeFields (kind : Kind) (size : Nat) : Decode Command :=
  match kind with
  | .setMapMode => return .mapMode (← Cursor.u32)
  | .setLayout => return .layout (← Cursor.u32)
  | .moveTo => return .moveTo (← Cursor.longPoint)
  | .restoreContext => return .restore (← Cursor.i32)
  | .setWorldTransform | .modifyWorldTransform => return .transform (← transformChange kind)
  | .createPen => penCommand
  | .createExtendedPen => extendedPenCommand
  | .createBrush => brushCommand
  | .createMonoBrush => patternCommand true
  | .createPatternBrush => patternCommand false
  | .createFont => fontCommand size
  | .selectObject => return .select (← Cursor.u32)
  | .deleteObject => return .delete (← Cursor.u32)
  | .intersectClipRect => return .clip (.box (← Cursor.box) .intersect)
  | .excludeClipRect => return .clip (.box (← Cursor.box) .subtract)
  | .selectClipPath => return .clip (.path (.ofCode (← Cursor.u32)))
  | .offsetClipRegion => return .clip (.shift (← Cursor.longPoint))
  | .selectClipRegion => regionCommand
  | .bitBlt | .stretchBlt => return .blit (← blitFields)
  | .alphaBlend => return .blit (← alphaBlitFields)
  | .stretchBits => return .blit (← stretchBlitFields)
  | .textOutNarrow => labelCommand narrowText
  | .textOutWide => labelCommand wideText
  | .smallTextOut => smallLabelCommand
  | .comment => return .plus (← plusRecords)
  | _ => return .nothing

/-- Takes what a record asks for. -/
def decode (kind : Kind) (size : Nat) : Decode Command :=
  match kind with
  | .header => return .header (← Header.decode)
  | .endOfFile => return .endOfFile
  | .beginPath => return .beginPath
  | .endPath => return .endPath
  | .closeFigure => return .closeFigure
  | .abortPath => return .abortPath
  | .flattenPath => return .flattenPath
  | .saveContext => return .save
  | _ =>
    match Shape.decode? kind, Setting.decode? kind with
    | some shape, _ => return .draw (← shape)
    | none, some setting => do
      Cursor.seek headerBytes
      return .set (← setting)
    | none, none => do
      Cursor.seek headerBytes
      decodeFields kind size

/-- Whether a record is passed over without being read: a comment that holds no EMF+ records, or
any comment if EMF+ records are not drawn. -/
def isSkipped (plus : Bool) (kind : Kind) (body : Bytes) : Bool :=
  kind == .comment && !(plus && isPlusComment body)

/-- What a record asks for, where EMF+ records are drawn or not. -/
def ofRecord (plus : Bool) (kind : Kind) (body : Bytes) : Except Fault Command :=
  if isSkipped plus kind body then .ok .nothing
  else (decode kind body.length).first body

end Command

end Metafile.Record
