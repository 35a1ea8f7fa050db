import Metafile.Device.Context
import Metafile.Record.Fields

/-!
# `Metafile.Record.Setting`: records that set one attribute of drawing

Each of these records changes one attribute of the context and nothing else. `Setting.onto` is
that change.
-/

set_option autoImplicit false

namespace Metafile.Record

/-- A new value for an attribute of drawing. -/
inductive Setting
  | backgroundMode (mode : Nat)
  | polyFillMode (mode : Nat)
  | rasterOperation (mode : Nat)
  | stretchMode (mode : Nat)
  | textAlign (bits : Nat)
  | textColor (c : Color)
  | backgroundColor (c : Color)
  | arcDirection (code : Nat)
  | miterLimit (limit : Nat)
  | windowExtent (size : Point Float)
  | windowOrigin (p : Point Float)
  | viewportExtent (size : Point Float)
  | viewportOrigin (p : Point Float)
  /-- Factors for the extent of the window. -/
  | scaleWindow (factors : Point Float)
  /-- Factors for the extent of the viewport. -/
  | scaleViewport (factors : Point Float)
deriving Repr, Inhabited

namespace Setting

/-- A frame whose extent grows by a factor on each axis. -/
def grow (f : Frame Float) (factors : Point Float) : Frame Float :=
  { f with extent := ⟨f.extent.x * factors.x, f.extent.y * factors.y⟩ }

/-- The mapping after a setting. Most settings do not touch it. -/
def ontoMapping (m : Mapping Float) : Setting → Mapping Float
  | .windowExtent size => { m with window := { m.window with extent := size } }
  | .windowOrigin p => { m with window := { m.window with origin := p } }
  | .viewportExtent size => { m with viewport := { m.viewport with extent := size } }
  | .viewportOrigin p => { m with viewport := { m.viewport with origin := p } }
  | .scaleWindow factors => { m with window := grow m.window factors }
  | .scaleViewport factors => { m with viewport := grow m.viewport factors }
  | _ => m

/-- The context after a setting. -/
def onto (c : Device.Context) (s : Setting) : Device.Context :=
  match s with
  | .backgroundMode mode => { c with backgroundMode := mode }
  | .polyFillMode mode => { c with polyFillMode := mode }
  | .rasterOperation mode => { c with rasterOperation := mode }
  | .stretchMode mode => { c with stretchMode := mode }
  | .textAlign bits => { c with textAlign := bits }
  | .textColor color => { c with textColor := color }
  | .backgroundColor color => { c with backgroundColor := color }
  | .arcDirection code => c.setArcDirection code
  | .miterLimit limit => { c with miterLimit := Float.ofNat limit }
  | _ => { c with mapping := s.ontoMapping c.mapping }

/-- Takes a pair of 32-bit integers as a point. -/
def pair : Decode (Point Float) :=
  return Point.ofInt (← Cursor.longPoint)

/-- The factor of a numerator and a denominator. A denominator of zero changes nothing. -/
def factor (numerator denominator : Int) : Float :=
  if denominator = 0 then 1.0 else Float.ofInt numerator / Float.ofInt denominator

/-- Takes a factor for each axis. -/
def factors : Decode (Point Float) := do
  let xn ← Cursor.i32
  let xd ← Cursor.i32
  let yn ← Cursor.i32
  let yd ← Cursor.i32
  return ⟨factor xn xd, factor yn yd⟩

/-- Takes the setting of a record from its first field on. There is none for other kinds. -/
def decode? (kind : Kind) : Option (Decode Setting) :=
  match kind with
  | .setBackgroundMode => some do return .backgroundMode (← Cursor.u32)
  | .setPolyFillMode => some do return .polyFillMode (← Cursor.u32)
  | .setRasterOperation => some do return .rasterOperation (← Cursor.u32)
  | .setStretchMode => some do return .stretchMode (← Cursor.u32)
  | .setTextAlign => some do return .textAlign (← Cursor.u32)
  | .setTextColor => some do return .textColor (.ofReference (← Cursor.u32))
  | .setBackgroundColor => some do return .backgroundColor (.ofReference (← Cursor.u32))
  | .setArcDirection => some do return .arcDirection (← Cursor.u32)
  | .setMiterLimit => some do return .miterLimit (← Cursor.u32)
  | .setWindowExtent => some do return .windowExtent (← pair)
  | .setWindowOrigin => some do return .windowOrigin (← pair)
  | .setViewportExtent => some do return .viewportExtent (← pair)
  | .setViewportOrigin => some do return .viewportOrigin (← pair)
  | .scaleWindowExtent => some do return .scaleWindow (← factors)
  | .scaleViewportExtent => some do return .scaleViewport (← factors)
  | _ => none

end Setting

end Metafile.Record
