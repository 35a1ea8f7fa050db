import Metafile.Log
import Metafile.Markup.Lettering
import Metafile.Markup.Piece
import Metafile.Plus.Command
import Metafile.Plus.Gather

/-!
# `Metafile.Plus.Player`: playing EMF+ records

A `Player` is what EMF+ records leave behind: objects, an object that is still arriving, the world
and page transforms, and saved states. It lives through a whole conversion, from one comment to
the next. A `Stage` is a player together with what it has drawn and said.

In a dual picture every EMF+ record has a counterpart that draws the same, so a player that has
seen a dual header draws nothing.
-/

set_option autoImplicit false

namespace Metafile.Plus

open Metafile.Markup (Attribute Element Piece)

/-- A state that a later record may return to. -/
structure SavedState where
  index : Nat
  world : Affine Float
  pageUnit : Nat
  pageScale : Float
deriving Repr, Inhabited

/-- What EMF+ records leave behind. -/
structure Player where
  objects : Array (Option Object)
  pending : Gather
  world : Affine Float
  pageUnit : Nat
  pageScale : Float
  /-- The horizontal resolution in dots per inch. -/
  resolutionX : Float
  /-- The vertical resolution in dots per inch. -/
  resolutionY : Float
  /-- Whether other records draw the same picture. -/
  dual : Bool
  /-- The saved states, the last one first. -/
  saved : List SavedState
  /-- The number of records seen. -/
  records : Nat
deriving Repr, Inhabited

/-- The number of pixels in a unit. Units without a length are pixels. -/
def unitFactor (unit : Nat) (dpi : Float) : Float :=
  match unit with
  | 3 => dpi / 72
  | 4 => dpi
  | 5 => dpi / 300
  | 6 => dpi / 25.4
  | _ => 1

namespace Player

/-- A player before the first record. -/
def initial : Player where
  objects := Array.replicate 256 none
  pending := none
  world := Affine.identity
  pageUnit := 1
  pageScale := 1.0
  resolutionX := 96.0
  resolutionY := 96.0
  dual := false
  saved := []
  records := 0

/-! ### Looking things up -/

/-- The object with a number. -/
def object? (p : Player) (id : Nat) : Option Object := (p.objects[id]?).join

/-- The brush that a paint stands for. -/
def brush? (p : Player) : Paint → Option Brush
  | .color argb => some (.solid argb)
  | .brush id =>
    match p.object? id with
    | some (.brush b) => some b
    | _ => none

/-- The pen with a number. -/
def pen? (p : Player) (id : Nat) : Option Pen :=
  match p.object? id with
  | some (.pen pen) => some pen
  | _ => none

/-- The path with a number. -/
def path? (p : Player) (id : Nat) : Option Path :=
  match p.object? id with
  | some (.path path) => some path
  | _ => none

/-- The font with a number. -/
def font? (p : Player) (id : Nat) : Option Font :=
  match p.object? id with
  | some (.font f) => some f
  | _ => none

/-! ### From the world to the page -/

/-- A point of the world on the page. -/
def point (p : Player) (scale : Float) (q : Point Float) : Point Float :=
  let w := p.world.apply q
  ⟨w.x * (unitFactor p.pageUnit p.resolutionX * p.pageScale * scale),
    w.y * (unitFactor p.pageUnit p.resolutionY * p.pageScale * scale)⟩

/-- A length on the page. The world transform counts by its mean factor. -/
def length (p : Player) (scale : Float) (v : Float) (unit : Nat) : Float :=
  let factor :=
    if unit = 0 then unitFactor p.pageUnit p.resolutionX * p.pageScale
    else unitFactor unit p.resolutionX
  v * factor * p.world.determinant.abs.sqrt * scale

/-- The distance of control points that makes four curves look like a circle of radius one. -/
def kappa : Float := 0.55228475

/-- The four curves along the sides of a rectangle. -/
def ellipseOutline (r : Rect Float) : Outline Float :=
  let rx := r.width / 2
  let ry := r.height / 2
  let cx := r.x + rx
  let cy := r.y + ry
  let kx := rx * kappa
  let ky := ry * kappa
  [.move ⟨cx + rx, cy⟩,
    .curve ⟨cx + rx, cy + ky⟩ ⟨cx + kx, cy + ry⟩ ⟨cx, cy + ry⟩,
    .curve ⟨cx - kx, cy + ry⟩ ⟨cx - rx, cy + ky⟩ ⟨cx - rx, cy⟩,
    .curve ⟨cx - rx, cy - ky⟩ ⟨cx - kx, cy - ry⟩ ⟨cx, cy - ry⟩,
    .curve ⟨cx + kx, cy - ry⟩ ⟨cx + rx, cy - ky⟩ ⟨cx + rx, cy⟩,
    .close]

/-- The outline of a rectangle. -/
def rectOutline (r : Rect Float) : Outline Float :=
  .polygon [⟨r.x, r.y⟩, ⟨r.x + r.width, r.y⟩, ⟨r.x + r.width, r.y + r.height⟩,
    ⟨r.x, r.y + r.height⟩]

/-- The outlines of a figure in the world, one for each element that is drawn. There is no result
if the figure is a path that does not exist. -/
def outlines? (p : Player) : Figure → Option (List (Outline Float))
  | .rects rs => some (rs.map rectOutline)
  | .polyline [] _ => some []
  | .polyline ps closed => some [if closed then .polygon ps else .polyline ps]
  | .ellipse r => some [ellipseOutline r]
  | .curves [] => some []
  | .curves (first :: rest) => some [.move first :: Outline.curves rest]
  | .path id =>
    (p.path? id).map fun path => if path.outline.isEmpty then [] else [path.outline]

/-- The path data of an outline of the world. -/
def data (p : Player) (scale : Float) (o : Outline Float) : String :=
  (Outline.map (p.point scale) id o).data

/-! ### Drawing -/

/-- An opacity as an attribute, where it is not full. -/
def opacityText (opacity : Float) : Option String :=
  if opacity < 1 then some (Decimal.Fixed.text opacity) else none

/-- The element of a filled outline. -/
def fillElement (p : Player) (scale : Float) (brush : Brush) (o : Outline Float) : Element :=
  ((((Element.named "path").set "d" (p.data scale o)).set "fill" brush.color.hex).setSome
    "fill-opacity" (opacityText brush.opacity)).set "stroke" "none"

/-- The element of a stroked outline. No line is thinner than a pixel. -/
def strokeElement (p : Player) (scale : Float) (pen : Pen) (o : Outline Float) : Element :=
  let width := greatestFloat (p.length scale pen.width pen.unit) 1
  (((((Element.named "path").set "d" (p.data scale o)).set "fill" "none").set
    "stroke" pen.brush.color.hex).set "stroke-width" (Decimal.Fixed.text width)).setSome
    "stroke-opacity" (opacityText pen.brush.opacity)

/-- The piece of a text. -/
def labelPiece (p : Player) (scale : Float) (font : Font) (brush : Brush) (corner : Point Float)
    (text : String) : Piece :=
  let size := p.length scale font.emSize font.unit
  let origin := p.point scale corner
  .label
    ([("x", Decimal.Fixed.text origin.x),
        ("y", Decimal.Fixed.text (origin.y + size * Markup.Lettering.ascent))] ++
      Attribute.onlyIf (!font.family.isEmpty) "font-family" font.family ++
      [("font-size", Decimal.Fixed.text size), ("fill", brush.color.hex)] ++
      Attribute.onlyIf (brush.opacity < 1) "fill-opacity" (Decimal.Fixed.text brush.opacity) ++
      Attribute.onlyIf font.isBold "font-weight" "bold" ++
      Attribute.onlyIf font.isItalic "font-style" "italic" ++
      Markup.Lettering.decoration font.isUnderlined font.isStruckOut ++
      [Markup.Lettering.keepBlanks])
    text

/-- What a command draws. Nothing is drawn with tools that do not exist, nor in a dual picture. -/
def drawing (p : Player) (scale : Float) (c : Command) : List Piece :=
  if p.dual then []
  else
    match c with
    | .fill figure paint =>
      match p.outlines? figure, p.brush? paint with
      | some os, some brush => os.map fun o => .element (p.fillElement scale brush o)
      | _, _ => []
    | .stroke figure pen =>
      match p.outlines? figure, p.pen? pen with
      | some os, some pen => os.map fun o => .element (p.strokeElement scale pen o)
      | _, _ => []
    | .label font paint corner text =>
      match p.font? font, p.brush? paint with
      | some font, some brush =>
        if text.isEmpty then [] else [p.labelPiece scale font brush corner text]
      | _, _ => []
    | _ => []

/-! ### States -/

/-- Saves the state under an index. Indexes may repeat. -/
def save (p : Player) (index : Nat) : Player :=
  { p with saved := ⟨index, p.world, p.pageUnit, p.pageScale⟩ :: p.saved }

/-- Returns to the last state that was saved under an index, if there is one. It and all that were
saved after it are given up. -/
def restore? (p : Player) (index : Nat) : Option Player :=
  match p.saved.dropWhile (·.index != index) with
  | [] => none
  | s :: rest =>
    some { p with
      saved := rest, world := s.world, pageUnit := s.pageUnit, pageScale := s.pageScale }

/-- Sets the page transform. A scale that is not a positive number is left out. -/
def setPage (p : Player) (unit : Nat) (scale : Float) : Player :=
  { p with
    pageUnit := unit
    pageScale := if scale.isFinite && scale > 0 then scale else p.pageScale }

/-- Sets the resolution. A resolution of zero is left out. -/
def setResolution (p : Player) (x y : Nat) : Player :=
  { p with
    resolutionX := if x > 0 then Float.ofNat x else p.resolutionX
    resolutionY := if y > 0 then Float.ofNat y else p.resolutionY }

end Player

/-! ### The stage -/

/-- A player with what it has drawn and said. -/
structure Stage where
  player : Player
  drawn : Array Piece
  log : Log
deriving Inhabited

namespace Stage

/-- Leaves a message. -/
def note (s : Stage) (level : Level) (text : String) : Stage :=
  { s with log := s.log.push ⟨level, text⟩ }

/-- Changes the player. -/
def update (s : Stage) (f : Player → Player) : Stage :=
  { s with player := f s.player }

/-- Reads the content of an object and puts the object into its place. Content that cannot be read
leaves the place as it is. -/
def store (s : Stage) (type id : Nat) (content : Bytes) : Stage :=
  match Object.ofBytes type content with
  | .ok o => s.update fun p => { p with objects := p.objects.setIfInBounds id (some o) }
  | .error f => s.note .warn s!"EMF+ object {id} (type {type}) dropped: {f.message}"

/-- Ends the arrival of the pending object: what is there of it is stored. -/
def flush (s : Stage) : Stage :=
  match s.player.pending with
  | none => s
  | some p => (s.update fun q => { q with pending := none }).store p.type p.id p.content

/-- Takes a piece of an object. A piece that does not belong to the pending object ends it. -/
def receive (s : Stage) (type id : Nat) (fragment : Fragment) : Stage :=
  match fragment with
  | .last content =>
    match s.player.pending.append? type id content with
    | some p => (s.update fun q => { q with pending := some p }).flush
    | none => s.flush.store type id content
  | .part total content =>
    let s :=
      match s.player.pending.append? type id content with
      | some p => s.update fun q => { q with pending := some p }
      | none => s.flush.update fun q => { q with pending := some ⟨type, id, total, content⟩ }
    if s.player.pending.isComplete then s.flush else s

/-- Does what a header says. Its flags count before its payload is looked at. -/
def header (s : Stage) (dual : Bool) (resolution : Except Fault (Nat × Nat)) :
    Stage × Option Fault :=
  let s := s.update fun p => { p with dual }
  match resolution with
  | .error f => (s, some f)
  | .ok (x, y) =>
    let s := s.update (·.setResolution x y)
    let dpiX := Decimal.Shortest.text s.player.resolutionX
    let dpiY := Decimal.Shortest.text s.player.resolutionY
    (s.note .debug s!"EMF+ header: dual mode {dual}, dpi {dpiX}x{dpiY}", none)

/-- Does what a command says. A fault is the reason why a part of it was not done. -/
def perform (scale : Float) (s : Stage) (c : Command) : Stage × Option Fault :=
  match c with
  | .header dual resolution => s.header dual resolution
  | .object type id fragment => (s.receive type id fragment, none)
  | .fill .. | .stroke .. | .label .. =>
    ({ s with drawn := s.drawn ++ (s.player.drawing scale c).toArray }, none)
  | .save index => (s.update (·.save index), none)
  | .restore index =>
    match s.player.restore? index with
    | some p => ({ s with player := p }, none)
    | none => (s.note .debug s!"EMF+ restore of unknown state {index}", none)
  | .container target source index =>
    (s.update fun p =>
      { p.save index with world := enterContainer target source p.world }, none)
  | .world change => (s.update fun p => { p with world := change.onto p.world }, none)
  | .page unit scale => (s.update (·.setPage unit scale), none)
  | .nothing => (s, none)

/-! ### Playing -/

/-- The number of bytes before the payload of a record. -/
def headerBytes : Nat := 12

/-- The kind, the flags, the size and the payload size at the beginning of a record. -/
def recordHeader : Decode (Nat × Nat × Nat × Nat) := do
  let code ← Cursor.u16
  let flags ← Cursor.u16
  let size ← Cursor.u32
  let dataSize ← Cursor.u32
  return (code, flags, size, dataSize)

/-- Plays one record: counts it, ends the arrival of an object if it is about something else, and
does what it says. -/
def playRecord (scale : Float) (kind : Kind) (flags : Nat) (payload : Bytes) (s : Stage) :
    Stage :=
  let s := s.update fun p => { p with records := p.records + 1 }
  -- only further pieces may come between the first piece of an object and its last one
  let s :=
    if kind ≠ .object && s.player.pending.isSome then
      (s.note .debug s!"EMF+ {kind.name} ends a pending object early").flush
    else s
  let (s, fault) :=
    match Command.ofRecord kind flags payload with
    | .ok c => s.perform scale c
    | .error f => (s, some f)
  match fault with
  | none => s
  | some f => s.note .warn s!"EMF+ record {kind.name} skipped: {f.message}"

/-- Plays the records of a comment from an offset on. What does not begin like a record ends the
comment. -/
def playFrom (verbose : Bool) (scale : Float) (offset : Nat) (data : Bytes) (s : Stage) : Stage :=
  match recordHeader.first data with
  | .error _ => s
  | .ok (code, flags, size, dataSize) =>
    let place := Log.hexadecimal 1 offset
    if _h : size < headerBytes ∨ (data.take size).length < size then
      s.note .warn s!"EMF+ record at {place} has invalid size {size}"
    else
      match Kind.ofCode? code with
      | none =>
        let number := Log.hexadecimal 4 code
        s.note .warn s!"EMF+ record kind {number} at {place} is out of range"
      | some kind =>
        let number := Log.hexadecimal 4 code
        let s :=
          if verbose then
            s.note .debug s!"EMF+ {place}: {number} {kind.name} ({kind.support.name})"
          else s
        let payload := ((data.take size).drop headerBytes).take dataSize
        playFrom verbose scale (offset + size) (data.drop size)
          (s.playRecord scale kind flags payload)
termination_by data.length
decreasing_by
  simp only [List.length_take] at _h
  simp only [List.length_drop]
  unfold headerBytes at _h
  omega

/-- Plays the records of a comment. -/
def play (verbose : Bool) (scale : Float) (data : Bytes) (s : Stage) : Stage :=
  playFrom verbose scale 0 data s

/-- Ends the playing. An object that is still arriving is stored as it is. -/
def finish (s : Stage) : Stage :=
  if s.player.pending.isSome then
    (s.note .warn "EMF+ object continuation unresolved at end of file").flush
  else s

end Stage

end Metafile.Plus
