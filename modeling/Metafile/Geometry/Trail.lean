import Metafile.Geometry.Outline

/-!
# `Metafile.Geometry.Trail`: outlines in the making

A path is drawn by many records, each of which adds a few segments at the end. A `Trail` keeps its
segments in reverse, so that adding to a long path costs no more than what is added.

`Trail.outline` is the view as an outline, and `outline_append` states that adding to a trail adds
to that outline.
-/

set_option autoImplicit false

namespace Metafile

/-- An outline that grows at its end. -/
structure Trail (α : Type) where
  /-- The segments, the last one first. -/
  latest : List (Segment α)
deriving Repr, Inhabited

namespace Trail

variable {α : Type}

/-- The trail of nothing. -/
def empty : Trail α := ⟨[]⟩

/-- A trail that begins with an outline. -/
def ofOutline (o : Outline α) : Trail α := ⟨o.reverse⟩

/-- The outline that was drawn. -/
def outline (t : Trail α) : Outline α := t.latest.reverse

/-- Adds an outline at the end. -/
def append (t : Trail α) (o : Outline α) : Trail α := ⟨o.reverseAux t.latest⟩

/-- The trail of nothing has no outline. -/
@[simp] theorem outline_empty : (empty : Trail α).outline = [] := rfl

/-- A trail has the outline with which it begins. -/
@[simp] theorem outline_ofOutline (o : Outline α) : (ofOutline o).outline = o :=
  List.reverse_reverse o

/-- Adding to a trail adds to its outline. -/
@[simp] theorem outline_append (t : Trail α) (o : Outline α) :
    (t.append o).outline = t.outline ++ o := by
  simp [append, outline, List.reverseAux_eq]

end Trail

end Metafile
