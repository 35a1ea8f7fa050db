import Metafile.Device.Tool
import Metafile.Fault
import Metafile.Geometry.Mapping
import Metafile.Geometry.Outline

/-!
# `Metafile.Device.Context`: the attributes of drawing, and the saved ones

A `Context` holds everything that decides how the next record is drawn: tools, colours, modes, the
clip region, the world transform and the mapping. Records save whole contexts and return to them.

`Saved` is the stack of saved contexts. `Saved.restore_save` states that a restore by one step
gives back what was saved last.
-/

set_option autoImplicit false

namespace Metafile.Device

/-- A clip region and the number of its definition. The number is zero for a region that has no
definition, because none could be written when it was set. -/
structure ClipRegion where
  outline : Outline Float
  id : Nat
deriving Repr, Inhabited

/-- The attributes of drawing. -/
structure Context where
  pen : Pen
  brush : Brush
  font : Font
  backgroundMode : Nat
  backgroundColor : Color
  textColor : Color
  textAlign : Nat
  polyFillMode : Nat
  stretchMode : Nat
  rasterOperation : Nat
  miterLimit : Float
  /-- Whether arcs run clockwise. -/
  clockwise : Bool
  clip : Option ClipRegion
  world : Affine Float
  mapping : Mapping Float
deriving Repr, Inhabited

/-- The fill mode that counts windings. The other mode alternates. -/
def windingMode : Nat := 2

namespace Context

/-- The context before any record changes it. -/
def initial : Context where
  pen := .initial
  brush := .initial
  font := .initial
  backgroundMode := 2
  backgroundColor := .white
  textColor := .black
  textAlign := 0
  polyFillMode := 1
  stretchMode := 0
  rasterOperation := 13
  miterLimit := 10.0
  clockwise := false
  clip := none
  world := Affine.identity
  mapping := Mapping.initial

/-- The number of the definition of the clip region, or zero. -/
def clipId (c : Context) : Nat :=
  c.clip.elim 0 ClipRegion.id

/-- Sets the direction of arcs. An unknown number changes nothing. -/
def setArcDirection (code : Nat) (c : Context) : Context :=
  match code with
  | 1 => { c with clockwise := false }
  | 2 => { c with clockwise := true }
  | _ => c

/-- Selects a tool. -/
def select (t : Tool) (c : Context) : Context :=
  match t with
  | .pen p => { c with pen := p }
  | .brush b => { c with brush := b }
  | .font f => { c with font := f }

/-- The bit of a handle that stands for a tool which every device has. -/
def stockBit : Nat := 0x80000000

/-- Whether a handle stands for a tool which every device has. -/
def isStock (handle : Nat) : Bool := handle / stockBit % 2 == 1

/-- Paints with one shade of gray. -/
def paintGray (level : UInt8) (c : Context) : Context :=
  { c with brush := { c.brush with color := .gray level, style := Brush.solidStyle } }

/-- Selects a tool which every device has. There is no result for those that change nothing here:
fonts, palettes and the tools that a device colours itself. -/
def selectStock? (handle : Nat) (c : Context) : Option Context :=
  if handle < stockBit then none
  else match handle - stockBit with
  | 0 => some (c.paintGray 0xFF)
  | 1 => some (c.paintGray 0xC0)
  | 2 => some (c.paintGray 0x80)
  | 3 => some (c.paintGray 0x40)
  | 4 => some (c.paintGray 0x00)
  | 5 => some { c with brush := { c.brush with style := Brush.hollowStyle } }
  | 6 => some { c with pen := { c.pen with color := .white, style := 0 } }
  | 7 => some { c with pen := { c.pen with color := .black, style := 0 } }
  | 8 => some { c with pen := { c.pen with style := Pen.invisibleStyle } }
  | _ => none

end Context

/-- Saved contexts, the last one first. -/
abbrev Saved := List Context

namespace Saved

/-- Saves a context. -/
def save (c : Context) (s : Saved) : Saved := c :: s

/-- Returns to the `|relative|`-th saved context, counted from the last one. It and all that were
saved after it are given up. -/
def restore (relative : Int) (s : Saved) : Except Fault (Context × Saved) :=
  if relative = 0 then .error (.outOfBounds (.savedContext relative s.length))
  else
    match s.drop (relative.natAbs - 1) with
    | [] => .error (.outOfBounds (.savedContext relative s.length))
    | c :: rest => .ok (c, rest)

/-- Nothing can go wrong but that the context was not saved. -/
theorem restore_eq_error {relative : Int} {s : Saved} {fault : Fault}
    (h : s.restore relative = .error fault) :
    fault = .outOfBounds (.savedContext relative s.length) := by
  unfold restore at h
  split at h
  · exact (Except.error.inj h).symm
  · split at h
    · exact (Except.error.inj h).symm
    · cases h

/-- A restore by one step gives back what was saved last. -/
theorem restore_save (c : Context) (s : Saved) : (s.save c).restore (-1) = .ok (c, s) := rfl

end Saved

end Metafile.Device
