import Metafile.Geometry.Flatten

/-!
# `Metafile.Proofs.Geometry.Flatten`: taking the curves out of a part of an outline

An outline can be made of lines as a whole, or a part of it first and the whole again later. Both
give the same lines, because the lines for a curve end exactly where the curve ends: the pen goes
on from the same point. `Outline.SameLines` is the relation in which two such outlines stand. It
is kept when both go on in the same way (`SameLines.append`) and when the curves are taken out of
one of them (`SameLines.flatten_left`).
-/

set_option autoImplicit false

namespace Metafile

/-! ### The lines for a curve -/

/-- The last line of some curves ends where the last curve does. -/
theorem Cubic.getLast?_drain (work : Cubic.Work) :
    (Cubic.drain work).getLast? = work.getLast?.map fun w => w.1.stop := by
  induction work using Cubic.drain.induct with
  | case1 => rw [Cubic.drain, List.getLast?_nil, List.getLast?_nil, Option.map_none]
  | case2 c rest ih =>
      rw [Cubic.drain, List.getLast?_cons, List.getLast?_cons, ih]
      cases rest.getLast? <;> rfl
  | case3 c depth rest hflat ih =>
      rw [Cubic.drain, if_pos hflat, List.getLast?_cons, List.getLast?_cons, ih]
      cases rest.getLast? <;> rfl
  | case4 c depth rest hflat ih =>
      -- the second half of a curve ends where the curve does
      rw [Cubic.drain, if_neg hflat, ih, List.getLast?_cons_cons, List.getLast?_cons,
        List.getLast?_cons]
      cases rest.getLast? <;> rfl

/-- The last line for a curve ends where the curve does, with the same floating-point coordinates.
-/
theorem Cubic.getLast?_flatten (c : Cubic) : c.flatten.getLast? = some c.stop :=
  Cubic.getLast?_drain [(c, Cubic.maxDepth)]

namespace Outline

/-! ### Where the pen stands -/

/-- The pen and the start of its figure after a segment. -/
def penStep (pen : Point Float × Point Float) (s : Segment Float) : Point Float × Point Float :=
  match s with
  | .move p => (p, p)
  | .close => (pen.2, pen.2)
  | .line p => (p, pen.2)
  | .arc _ stop _ _ => (stop, pen.2)
  | .curve _ _ stop => (stop, pen.2)

/-- The pen and the start of its figure after an outline. -/
def penAfter (pen : Point Float × Point Float) (o : Outline Float) : Point Float × Point Float :=
  o.foldl penStep pen

/-- After lines the pen stands at the end of the last of them. -/
theorem penAfter_lines (pen : Point Float × Point Float) (ps : List (Point Float)) :
    penAfter pen (ps.map .line) = (ps.getLast?.getD pen.1, pen.2) := by
  induction ps generalizing pen with
  | nil => rfl
  | cons p rest ih =>
      rw [List.map_cons, penAfter, List.foldl_cons, ← penAfter, ih, List.getLast?_cons,
        Option.getD_some]
      rfl

/-- An outline can be flattened part by part, each from where the pen stands. -/
theorem flattenFrom_append (pen figure : Point Float) (a b : Outline Float) :
    flattenFrom pen figure (a ++ b) = flattenFrom pen figure a ++
      flattenFrom (penAfter (pen, figure) a).1 (penAfter (pen, figure) a).2 b := by
  induction a generalizing pen figure with
  | nil => rfl
  | cons s rest ih =>
      cases s with
      | curve c₁ c₂ stop =>
          rw [List.cons_append, flattenFrom, flattenFrom, ih, List.append_assoc]
          rfl
      | move p => exact congrArg (_ :: ·) (ih p p)
      | close => exact congrArg (_ :: ·) (ih figure figure)
      | line p => exact congrArg (_ :: ·) (ih p figure)
      | arc radii stop large sweep => exact congrArg (_ :: ·) (ih stop figure)

/-- The lines of an outline take the pen to where the outline does. -/
theorem penAfter_flattenFrom (pen figure : Point Float) (o : Outline Float) :
    penAfter (pen, figure) (flattenFrom pen figure o) = penAfter (pen, figure) o := by
  induction o generalizing pen figure with
  | nil => rfl
  | cons s rest ih =>
      cases s with
      | curve c₁ c₂ stop =>
          rw [flattenFrom, penAfter, List.foldl_append, ← penAfter, ← penAfter, penAfter_lines,
            Cubic.getLast?_flatten]
          exact ih stop figure
      | move p => exact ih p p
      | close => exact ih figure figure
      | line p => exact ih p figure
      | arc radii stop large sweep => exact ih stop figure

/-! ### Outlines without curves -/

/-- There are no curves in a flattened outline. -/
theorem isCurve_flattenFrom (pen figure : Point Float) (o : Outline Float) :
    ∀ s ∈ flattenFrom pen figure o, s.isCurve = false := by
  induction o generalizing pen figure with
  | nil => exact fun _ h => (List.not_mem_nil h).elim
  | cons s rest ih =>
      cases s with
      | curve c₁ c₂ stop =>
          refine List.forall_mem_append.2 ⟨fun s hs => ?_, ih stop figure⟩
          obtain ⟨p, _, rfl⟩ := List.mem_map.1 hs
          rfl
      | move p => exact List.forall_mem_cons.2 ⟨rfl, ih p p⟩
      | close => exact List.forall_mem_cons.2 ⟨rfl, ih figure figure⟩
      | line p => exact List.forall_mem_cons.2 ⟨rfl, ih p figure⟩
      | arc radii stop large sweep => exact List.forall_mem_cons.2 ⟨rfl, ih stop figure⟩

/-- An outline without curves stays as it is. -/
theorem flattenFrom_of_lines {o : Outline Float} (h : ∀ s ∈ o, s.isCurve = false)
    (pen figure : Point Float) : flattenFrom pen figure o = o := by
  induction o generalizing pen figure with
  | nil => rfl
  | cons s rest ih =>
      obtain ⟨hfirst, hrest⟩ := List.forall_mem_cons.1 h
      cases s with
      | curve c₁ c₂ stop => cases hfirst
      | move p => exact congrArg (_ :: ·) (ih hrest p p)
      | close => exact congrArg (_ :: ·) (ih hrest figure figure)
      | line p => exact congrArg (_ :: ·) (ih hrest p figure)
      | arc radii stop large sweep => exact congrArg (_ :: ·) (ih hrest stop figure)

/-- Taking the curves out of a part first changes nothing in the lines of the whole. -/
theorem flatten_flatten_append (a b : Outline Float) :
    (a.flatten ++ b).flatten = (a ++ b).flatten := by
  unfold flatten
  rw [flattenFrom_append, flattenFrom_append,
    flattenFrom_of_lines (isCurve_flattenFrom _ _ a), penAfter_flattenFrom]

/-! ### Outlines with the same lines -/

/-- Two outlines that give the same lines, and go on giving the same lines however they go on. -/
def SameLines (a b : Outline Float) : Prop :=
  ∀ more, (a ++ more).flatten = (b ++ more).flatten

/-- An outline has the lines of itself. -/
theorem SameLines.refl (a : Outline Float) : SameLines a a := fun _ => rfl

/-- Outlines with the same lines have the same lines. -/
theorem SameLines.flatten_eq {a b : Outline Float} (h : SameLines a b) :
    a.flatten = b.flatten := by
  have hnothing := h []
  rwa [List.append_nil, List.append_nil] at hnothing

/-- What is added to both makes no difference. -/
theorem SameLines.append {a b : Outline Float} (h : SameLines a b) (o : Outline Float) :
    SameLines (a ++ o) (b ++ o) := by
  intro more
  rw [List.append_assoc, List.append_assoc, h]

/-- Taking the curves out of one of them makes no difference. -/
theorem SameLines.flatten_left {a b : Outline Float} (h : SameLines a b) :
    SameLines a.flatten b := by
  intro more
  rw [flatten_flatten_append, h]

end Outline

end Metafile
