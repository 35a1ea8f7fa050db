import Metafile.Proofs.Geometry.Flatten

/-!
# `Metafile.Proofs.Geometry.Projection`: flattening touches nothing but the curves

The flattened outline has one run of segments for each segment of the outline, in the same order.
The run for a curve is the lines from the point where the pen stands to the end of the curve, and
the run for any other segment is the segment itself (`Segment.lines`).

`Outline.flatten` carries the pen and the start of the figure along. `Outline.standing` says where
the pen stands by looking back: it stands where the last segment ended, or at the start of the
figure if that segment was a closing, or at the origin if there was none. `flattenFrom_cons` is
one step in these words, and `flattenFrom_eq_runs` is the whole, by induction on the outline with
what lies behind the pen as the part that grows.
-/

set_option autoImplicit false

namespace Metafile

namespace Segment

/-- The point of a move, where a figure starts. -/
def moved? {α : Type} : Segment α → Option (Point α)
  | .move p => some p
  | _ => none

/-- The segments that stand for a segment when the pen is at a point: lines for a curve, and the
segment itself otherwise. -/
def lines (pen : Point Float) : Segment Float → Outline Float
  | .curve c₁ c₂ stop => (Cubic.mk pen c₁ c₂ stop).flatten.map .line
  | s => [s]

/-- The lines for a curve are one line or more, and the last of them ends where the curve does. -/
theorem lines_curve (pen c₁ c₂ stop : Point Float) :
    ∃ ps, (Segment.curve c₁ c₂ stop).lines pen = (ps ++ [stop]).map .line := by
  obtain ⟨ps, hps⟩ := List.getLast?_eq_some_iff.1 (Cubic.getLast?_flatten ⟨pen, c₁, c₂, stop⟩)
  exact ⟨ps, congrArg (List.map Segment.line) hps⟩

end Segment

namespace Outline

/-! ### Looking back -/

/-- Where the last figure starts: at the last move, or at the origin if there is none. -/
def figureStart (o : Outline Float) : Point Float :=
  (o.reverse.findSome? Segment.moved?).getD Point.zero

/-- Where the pen stands behind an outline: where the last segment ends, at the start of the
figure if that segment is a closing, and at the origin if there is no segment. -/
def standing (o : Outline Float) : Point Float :=
  match o.getLast? with
  | none => Point.zero
  | some s => s.stop?.getD o.figureStart

/-- A move starts a new figure, and no other segment does. -/
theorem figureStart_concat (o : Outline Float) (s : Segment Float) :
    figureStart (o ++ [s]) = s.moved?.getD o.figureStart := by
  unfold figureStart
  rw [List.reverse_append, List.reverse_singleton, List.singleton_append, List.findSome?_cons]
  cases s.moved? <;> rfl

/-- A segment takes the pen to its end, and a closing takes it to the start of the figure. -/
theorem standing_concat (o : Outline Float) (s : Segment Float) :
    standing (o ++ [s]) = s.stop?.getD (s.moved?.getD o.figureStart) := by
  rw [standing, List.getLast?_concat, ← figureStart_concat]

/-- A closing takes the pen to the start of the figure, however many lines were drawn since. -/
example (p q r : Point Float) : standing [.move p, .line q, .line r, .close] = p := rfl

/-! ### One run for each segment -/

/-- From where the pen stands, the first segment gives its run, and the rest goes on behind it. -/
theorem flattenFrom_cons (before : Outline Float) (s : Segment Float) (rest : Outline Float) :
    flattenFrom before.standing before.figureStart (s :: rest) =
      s.lines before.standing ++
        flattenFrom (standing (before ++ [s])) (figureStart (before ++ [s])) rest := by
  rw [standing_concat, figureStart_concat]
  -- each kind of segment moves the pen in its own way
  cases s with
  | curve c₁ c₂ stop => rfl
  | move p => rfl
  | line p => rfl
  | arc radii stop large sweep => rfl
  | close => rfl

/-- The outline that goes on behind another one has a run for each of its segments. The pen stands
where the segments before it have left it. -/
theorem flattenFrom_eq_runs (before o : Outline Float) :
    flattenFrom before.standing before.figureStart o =
      (o.mapIdx fun i s => s.lines (standing (before ++ o.take i))).flatten := by
  induction o generalizing before with
  | nil => rfl
  | cons s rest ih =>
      rw [flattenFrom_cons, ih, List.mapIdx_cons, List.flatten_cons]
      simp only [List.take_zero, List.append_nil, List.take_succ_cons, List.append_assoc,
        List.singleton_append]

/-- There are no curves left to flatten a second time. -/
theorem flatten_flatten (o : Outline Float) : o.flatten.flatten = o.flatten :=
  flattenFrom_of_lines (isCurve_flattenFrom _ _ o) _ _

/-- A move forgets where the pen stood, so what begins with a move is flattened on its own. -/
theorem flatten_append_move (o : Outline Float) (p : Point Float) (rest : Outline Float) :
    flatten (o ++ .move p :: rest) = o.flatten ++ flatten (.move p :: rest) := by
  rw [flatten, flattenFrom_append]
  rfl

/-- Flattening replaces each curve by lines and changes nothing else. There is one run of segments
for each segment, in order: the segment itself, if it is not a curve, and otherwise one line or
more from where the pen stands, the last of which goes to the end of the curve. So there are no
curves left, to flatten again changes nothing, and an outline that begins with a move can be
flattened on its own. -/
theorem flatten_keeps_structure (o : Outline Float) :
    o.flatten = (o.mapIdx fun i s => s.lines (standing (o.take i))).flatten ∧
    (∀ (s : Segment Float) (pen : Point Float), s.isCurve ∨ s.lines pen = [s]) ∧
    (∀ pen c₁ c₂ stop : Point Float,
      (Segment.curve c₁ c₂ stop).lines pen = (Cubic.mk pen c₁ c₂ stop).flatten.map .line ∧
      ∃ ps, (Segment.curve c₁ c₂ stop).lines pen = (ps ++ [stop]).map .line) ∧
    o.flatten.any Segment.isCurve = false ∧
    o.flatten.flatten = o.flatten ∧
    ∀ p rest, flatten (o ++ .move p :: rest) = o.flatten ++ flatten (.move p :: rest) := by
  refine ⟨flattenFrom_eq_runs [] o, ?_, ?_, ?_, flatten_flatten o, flatten_append_move o⟩
  · intro s pen
    cases s with
    | curve c₁ c₂ stop => exact Or.inl rfl
    | _ => exact Or.inr rfl
  · intro pen c₁ c₂ stop
    exact ⟨rfl, Segment.lines_curve pen c₁ c₂ stop⟩
  · rw [List.any_eq_false]
    intro s hs
    rw [isCurve_flattenFrom _ _ o s hs]
    exact Bool.false_ne_true

end Outline

end Metafile
