import Metafile.Proofs.Geometry.Flatten

/-!
# `Metafile.Proofs.Geometry.Beginnings`: how outlines begin

An outline that does not begin with a move has no start, and as path data it cannot be drawn.
`Outline.begins?` tells whether the first segment is a move, if there is one. Placing an outline
and taking its curves out keep the answer, and where one outline is added to another, the answer
is that of the first of the two that is not empty.
-/

set_option autoImplicit false

namespace Metafile

/-- Whether a segment is a move. -/
def Segment.isMove {α : Type} : Segment α → Bool
  | .move _ => true
  | _ => false

namespace Outline

variable {α β : Type}

/-- Whether an outline begins with a move, if it is not empty. -/
def begins? (o : Outline α) : Option Bool := o.head?.map Segment.isMove

/-- An empty outline does not begin at all. -/
@[simp] theorem begins?_nil : begins? ([] : Outline α) = none := rfl

/-- The first segment decides. -/
@[simp] theorem begins?_cons (s : Segment α) (rest : Outline α) :
    begins? (s :: rest) = some s.isMove := rfl

/-- Two outlines begin as the first of them, unless it is empty. -/
@[simp] theorem begins?_append (a b : Outline α) :
    begins? (a ++ b) = (begins? a).or (begins? b) := by
  cases a <;> rfl

/-- An outline that is placed elsewhere begins as before. -/
@[simp] theorem begins?_map (onPoint onRadii : Point α → Point β) (o : Outline α) :
    begins? (o.map onPoint onRadii) = begins? o := by
  cases o with
  | nil => rfl
  | cons s rest => cases s <;> rfl

/-- Outlines one after the other begin as the first of them that is not empty. -/
theorem begins?_flatMap {γ : Type} (outline : γ → Outline α) (xs : List γ) :
    begins? (xs.flatMap outline) = xs.findSome? fun x => begins? (outline x) := by
  induction xs with
  | nil => rfl
  | cons x rest ih =>
      rw [List.flatMap_cons, begins?_append, ih, List.findSome?_cons]
      cases begins? (outline x) <;> rfl

/-- A curve is replaced by at least one line, so an outline without its curves begins as before.
-/
@[simp] theorem begins?_flatten (o : Outline Float) : begins? o.flatten = begins? o := by
  unfold flatten
  cases o with
  | nil => rfl
  | cons s rest =>
      cases s with
      | curve c₁ c₂ stop =>
          rw [flattenFrom]
          -- the lines for the curve end where it does
          cases hlines : (Cubic.mk Point.zero c₁ c₂ stop).flatten with
          | nil =>
              have hlast := Cubic.getLast?_flatten (.mk Point.zero c₁ c₂ stop)
              rw [hlines] at hlast
              cases hlast
          | cons p others => rfl
      | move p => rfl
      | line p => rfl
      | arc radii stop large sweep => rfl
      | close => rfl

/-- Outlines with the same lines begin in the same way. -/
theorem SameLines.begins?_eq {a b : Outline Float} (h : SameLines a b) :
    begins? a = begins? b := by
  rw [← begins?_flatten a, h.flatten_eq, begins?_flatten]

/-- An outline that is empty or begins with a move. -/
def Begun (o : Outline α) : Prop := o.begins? ≠ some false

/-- How an outline begins is seen from its first segment. -/
instance (o : Outline α) : Decidable o.Begun := inferInstanceAs (Decidable (_ ≠ _))

/-- An empty outline counts as one that begins with a move, for it has no path data. -/
theorem begun_nil : Begun ([] : Outline α) := (Option.some_ne_none false).symm

end Outline

end Metafile
