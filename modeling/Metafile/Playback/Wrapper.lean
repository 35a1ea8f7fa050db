import Metafile.Playback.State

/-!
# `Metafile.Playback.Wrapper`: the group of the world transform

The world transform is written as a group around what is drawn. A new transform closes the group
of the old one and opens its own. Groups cannot begin or end inside of a path: what changes there
is known from the survey and takes effect before or after the path.
-/

set_option autoImplicit false

namespace Metafile.Playback

open Metafile.Markup (Piece)
open Metafile.Record (TransformChange)

/-- An affine map as the value of an attribute. -/
def matrixText (a : Affine Float) : String :=
  let parts := [a.m11, a.m12, a.m21, a.m22, a.dx, a.dy].map Decimal.Fixed.text
  "matrix(" ++ " ".intercalate parts ++ ")"

namespace State

/-- The start tag of the group for the world transform. -/
def wrapperPiece (s : State) : Piece :=
  .opening "g"
    [("transform", matrixText (s.context.mapping.wrapper s.page s.context.world))]

/-- Opens a group for the world transform, and closes the one that is open. Nothing happens inside
of a path. -/
def wrap (s : State) : State :=
  if s.inPath then s
  else
    -- groups do not nest: each transform is that of the world, not of the group before
    let ended : Array Piece := if s.wrapped then #[.ending "g"] else #[]
    { s.emit (ended.push s.wrapperPiece) with wrapped := true }

/-- Changes the world transform. Nothing happens inside of a path. -/
def transform (t : TransformChange) (s : State) : State :=
  if s.inPath then s
  else
    match t.onto? s.context.world with
    | some world => (s.update fun c => { c with world }).wrap
    | none => s.note .warn s!"unknown MODIFYWORLDTRANSFORM mode {t.mode}"

/-- Changes the world transform by several changes, one after the other, and opens a group for the
result. -/
def replay (ts : List TransformChange) (s : State) : State :=
  if ts.isEmpty then s
  else (s.update fun c => { c with world := ts.foldl (fun w t => t.onto w) c.world }).wrap

/-- Whether two contexts put the same logical point at different places. -/
def placesDiffer (a b : Device.Context) : Bool :=
  !(a.world == b.world) || !(a.mapping == b.mapping)

/-- Returns to a saved context. A context that was not saved leaves everything as it is, and the
picture counts as incomplete. Any other fault is passed on. -/
def restore (relative : Int) (s : State) : State × Option Fault :=
  match s.saved.restore relative with
  | .ok (context, saved) =>
    let after := { s with context, saved }
    (if placesDiffer context s.context then after.wrap else after, none)
  | .error (.outOfBounds cause) => (s.fail cause.text, none)
  | .error fault => (s, some fault)

end State

end Metafile.Playback
