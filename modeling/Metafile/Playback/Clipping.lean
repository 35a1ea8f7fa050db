import Metafile.Playback.State
import Metafile.Record.Command

/-!
# `Metafile.Playback.Clipping`: clip regions

A new clip region is defined once, under the next number, and elements refer to it. Inside of a
path no definition can be written, so there the region has the number zero and nothing refers to
it.
-/

set_option autoImplicit false

namespace Metafile.Playback

open Metafile.Markup (Element Piece)
open Metafile.Record (ClipChange)

/-- The definition of a clip region. -/
def clipDefinition (id : Nat) (region : Outline Float) : Piece :=
  .element ((Element.named "defs").push
    (((Element.named "clipPath").set "id" (Markup.Reference.clip id)).push
      ((Element.named "path").set "d" region.data)))

/-- The region of a box in device units. -/
def deviceBox (scale : Float) (b : Box) : Outline Float :=
  let p (x y : Int) : Point Float := ⟨Float.ofInt x * scale, Float.ofInt y * scale⟩
  .quadrangle (p b.left b.top) (p b.right b.top) (p b.right b.bottom) (p b.left b.bottom)

namespace State

/-- The region of a box in logical units. -/
def logicalBox (b : Box) (s : State) : Outline Float :=
  let p (x y : Int) : Point Float := s.point (.ofInt ⟨x, y⟩)
  .quadrangle (p b.left b.top) (p b.right b.top) (p b.right b.bottom) (p b.left b.bottom)

/-- Makes an outline the clip region. -/
def setClip (region : Outline Float) (s : State) : State :=
  if s.inPath then s.update fun c => { c with clip := some ⟨region, 0⟩ }
  else
    let id := s.clips + 1
    let s := { s with clips := id }
    (s.emit #[clipDefinition id region]).update fun c => { c with clip := some ⟨region, id⟩ }

/-- Combines the clip region with an outline. -/
def combineClip (combine : Clip.Combiner) (incoming : Outline Float) (op : Clip.Operation)
    (s : State) : State :=
  s.setClip (combine.apply (s.context.clip.map Device.ClipRegion.outline) incoming op)

/-- Moves the clip region by a logical vector. Without a region there is nothing to move. -/
def shiftClip (v : Point Int) (s : State) : State :=
  match s.context.clip with
  | none => s
  | some region =>
    let origin := s.point Point.zero
    let moved := s.point (.ofInt v)
    s.setClip (region.outline.shift ⟨moved.x - origin.x, moved.y - origin.y⟩)

/-- Changes the clip region. -/
def changeClip (combine : Clip.Combiner) (change : ClipChange) (s : State) : State :=
  match change with
  | .box b op => s.combineClip combine (s.logicalBox b) op
  | .path op => s.combineClip combine s.trail.outline op
  | .shift v => s.shiftClip v
  | .boxes bs op => s.combineClip combine (bs.flatMap (deviceBox s.page.scale)) op
  | .reset => (s.note .debug "clip reset").update fun c => { c with clip := none }

end State

end Metafile.Playback
