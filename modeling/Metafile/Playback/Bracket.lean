import Metafile.Playback.Wrapper

/-!
# `Metafile.Playback.Bracket`: path brackets

Between the record that begins a path and the record that ends it, shapes add to one path. The
path is written when the bracket is closed, and what was held back follows it. How the path is
painted is said by later records, so it is looked up in what the survey knows about the bracket.

A bracket that is not ended in order is closed without being painted.
-/

set_option autoImplicit false

namespace Metafile.Playback

open Metafile.Markup (Attribute Piece)
open Metafile.Record (PathUse)

/-- The piece of a bracket that is closed, painted in some way. -/
def Bracket.piece (paint : List Attribute) (b : Bracket) : Piece :=
  .shape "path" (b.clip ++ [("d", b.drawn.outline.data)] ++ paint)

/-- The paint of a path that is not shown. -/
def unpainted : List Attribute := [("fill", "none"), ("stroke", "none")]

namespace State

/-- Writes the path of a bracket and what was held back. -/
def close (paint : List Attribute) (b : Bracket) (s : State) : State :=
  { s with bracket := none, written := s.written.push (b.piece paint) ++ s.held, held := #[] }

/-- Closes the open bracket without painting its path. -/
def abandon (s : State) : State :=
  match s.bracket with
  | some b => s.close unpainted b
  | none => s

/-- What the survey knows about the bracket that was opened last. -/
def pathUse? (uses : List PathUse) (s : State) : Option PathUse :=
  if s.brackets = 0 then none else uses[s.brackets - 1]?

/-- The paint of a path of which later records fill or stroke the inside or the line. -/
def pathPaint (use : PathUse) (s : State) : List Attribute :=
  (if use.isStroked then s.strokeAttributes else []) ++
    (if use.isFilled then s.context.fillAttributes else []) ++
    (if use.isFilled then [] else [("fill", "none")]) ++
    (if use.isStroked then [] else [("stroke", "none")])

/-- Opens a bracket, with the world transform that holds for its path. -/
def beginPath (uses : List PathUse) (s : State) : State × Option Fault :=
  -- brackets do not nest: one that is still open is given up
  let abandoned := s.abandon
  let s := { abandoned with brackets := abandoned.brackets + 1 }
  match s.pathUse? uses with
  | none => (s, some (.outOfBounds .unmatchedPath))
  | some use =>
    let s := s.replay use.before
    ({ s with bracket := some ⟨s.context.clipAttributes, .empty⟩, trail := .empty }, none)

/-- Closes the open bracket and paints its path. The changes of the world transform that came
after the path take effect. -/
def endPath (uses : List PathUse) (s : State) : State × Option Fault :=
  match s.bracket with
  | none => (s, none)
  | some b =>
    match s.pathUse? uses with
    | none => (s, some (.outOfBounds .unmatchedPath))
    | some use => ((s.close (s.pathPaint use) b).replay use.after, none)

/-- Closes the open bracket without painting its path, and forgets the path. -/
def abortPath (s : State) : State :=
  { s.abandon with trail := .empty }

/-- Takes the curves out of the path that was drawn last. -/
def flattenPath (s : State) : State :=
  { s with trail := .ofOutline s.trail.outline.flatten }

end State

end Metafile.Playback
