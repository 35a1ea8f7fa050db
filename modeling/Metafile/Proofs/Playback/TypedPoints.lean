import Metafile.Proofs.Playback.Indexes
import Metafile.Proofs.Playback.Position
import Metafile.Proofs.Record.PointArrays

/-!
# `Metafile.Proofs.Playback.TypedPoints`: what points with types draw

A record of points with types is drawn in turns. A turn takes one point, or the three points of a
curve, and the type of the last point it took says whether the figure is closed. `turns` are the
turns by the indices of their points. Each index comes in exactly one turn, and the turns take
them in order (`flatten_turns`), so the loop ends and stays inside the points. `stepsOutline`
draws turn by turn (`stepsOutline_drop`).

`Stroke` is what a writer of such a record means by a few points: a move, a line or a curve, which
may close the figure. The types that are written for strokes draw the strokes
(`stepsOutline_strokes`).

`State.drawn_typedPoints` says what a record of points with types adds to an open path.
-/

set_option autoImplicit false

namespace Metafile.Playback

open Metafile.Record (Entry PathUse Shape neededBytes steppedPoints stepTypes)

/-! ### Turns -/

/-- The turns over points with types, from an index on. A turn takes one point, or the three
points of a curve if there are as many. -/
def turns (steps : List (Point Float × Nat)) (i : Nat) : List (List (Fin steps.length)) :=
  if hi : i < steps.length then
    if hcurve : steps[i].2 / 2 = 2 ∧ i + 2 < steps.length then
      [⟨i, hi⟩, ⟨i + 1, Nat.lt_of_succ_lt hcurve.2⟩, ⟨i + 2, hcurve.2⟩] :: turns steps (i + 3)
    else [⟨i, hi⟩] :: turns steps (i + 1)
  else []
termination_by steps.length - i

/-- The segment to a point that is drawn to on its own, if its type asks for one. -/
def pointSegment (p : Point Float) (type : Nat) : Outline Float :=
  match type / 2 with
  | 1 | 2 => [.line p]
  | 3 => [.move p]
  | _ => []

/-- What a turn draws: a curve through three points, or a segment to one. -/
def turnSegments (steps : List (Point Float × Nat)) : List (Fin steps.length) → Outline Float
  | [i, j, k] => [.curve steps[i].1 steps[j].1 steps[k].1]
  | [i] => pointSegment steps[i].1 steps[i].2
  | _ => []

/-- What a turn adds to a path: what it draws, and then the closing that the type of the last of
its points asks for. -/
def turnOutline (steps : List (Point Float × Nat)) (turn : List (Fin steps.length)) :
    Outline Float :=
  turnSegments steps turn ++ turn.getLast?.elim [] fun i => closing steps[i].2

/-- The turns take every point from the index on once, in order. -/
theorem flatten_turns (steps : List (Point Float × Nat)) (i : Nat) :
    (turns steps i).flatten = (List.finRange steps.length).drop i := by
  have hnext {i : Nat} (hi : i < steps.length) : (List.finRange steps.length).drop i =
      ⟨i, hi⟩ :: (List.finRange steps.length).drop (i + 1) := by
    rw [List.drop_eq_getElem_cons (by rwa [List.length_finRange]), List.getElem_finRange]
    rfl
  fun_induction turns steps i with
  | case1 i hi hcurve ih =>
      rw [List.flatten_cons, ih, hnext hi, hnext (Nat.lt_of_succ_lt hcurve.2), hnext hcurve.2]
      rfl
  | case2 i hi _ ih =>
      rw [List.flatten_cons, ih, hnext hi]
      rfl
  | case3 i hi =>
      rw [List.drop_eq_nil_of_le (by rw [List.length_finRange]; exact Nat.not_lt.1 hi)]
      rfl

/-- There are not more turns than points. -/
theorem length_turns_le (steps : List (Point Float × Nat)) (i : Nat) :
    (turns steps i).length ≤ steps.length - i := by
  fun_induction turns steps i with
  | case1 i hi _ ih => rw [List.length_cons]; omega
  | case2 i hi _ ih => rw [List.length_cons]; omega
  | case3 => exact Nat.zero_le _

/-- What is drawn to a point on its own is its segment, and then the closing. -/
theorem stepOutline_eq (p : Point Float) (type : Nat) :
    stepOutline p type = pointSegment p type ++ closing type := by
  unfold stepOutline pointSegment
  rcases type / 2 with _ | _ | _ | _ | _ <;> rfl

/-- A curve is drawn through its point and the next two. -/
theorem stepsOutline_curve {p q r : Point Float} {type middle last : Nat}
    {rest : List (Point Float × Nat)} (h : type / 2 = 2) :
    stepsOutline ((p, type) :: (q, middle) :: (r, last) :: rest) =
      .curve p q r :: (closing last ++ stepsOutline rest) :=
  if_pos h

/-- Points with types are drawn turn by turn. -/
theorem stepsOutline_drop (steps : List (Point Float × Nat)) (i : Nat) :
    stepsOutline (steps.drop i) = (turns steps i).flatMap (turnOutline steps) := by
  fun_induction turns steps i with
  | case1 i hi hcurve ih =>
      have hmiddle := Nat.lt_of_succ_lt hcurve.2
      rw [List.drop_eq_getElem_cons hi, List.drop_eq_getElem_cons hmiddle,
        List.drop_eq_getElem_cons hcurve.2, List.flatMap_cons, ← ih]
      exact stepsOutline_curve hcurve.1
  | case2 i hi hsingle ih =>
      rw [List.drop_eq_getElem_cons hi, stepsOutline_cons, List.flatMap_cons, ← ih,
        stepOutline_eq]
      · rfl
      · rw [List.length_drop]
        exact fun h => hsingle ⟨h.1, by omega⟩
  | case3 i hi => rw [List.drop_eq_nil_of_le (Nat.not_lt.1 hi)]; rfl

/-- A closing has no points. -/
theorem points_closing (type : Nat) : (closing type).flatMap Segment.points = [] := by
  unfold closing
  split <;> rfl

/-- The points that are drawn to are some of those that there are, in their order. -/
theorem points_stepsOutline (steps : List (Point Float × Nat)) :
    ((stepsOutline steps).flatMap Segment.points).Sublist (steps.map Prod.fst) := by
  have hstep (p : Point Float) (type : Nat) :
      ((stepOutline p type).flatMap Segment.points).Sublist [p] := by
    rw [stepOutline_eq, List.flatMap_append, points_closing, List.append_nil]
    unfold pointSegment
    split <;> simp [Segment.points]
  fun_induction stepsOutline steps with
  | case1 p type q middle r last rest hcurve ih =>
      -- three Bézier points in a row become one curve
      rw [List.flatMap_cons, List.flatMap_append, points_closing]
      exact ((ih.cons_cons r).cons_cons q).cons_cons p
  | case2 p type q middle r last rest hcurve ih =>
      rw [List.flatMap_append]
      exact (hstep p type).append ih
  | case3 p type rest _ ih =>
      rw [List.flatMap_append]
      exact (hstep p type).append ih
  | case4 => exact .slnil

/-! ### Strokes -/

/-- What a few points with types stand for: a move, a line or a curve, and whether it closes the
figure. -/
inductive Stroke
  | move (p : Point Int) (closes : Bool)
  | line (p : Point Int) (closes : Bool)
  | curve (p q r : Point Int) (closes : Bool)
deriving DecidableEq, Repr

namespace Stroke

/-- The points of a stroke. -/
def points : Stroke → List (Point Int)
  | .move p _ | .line p _ => [p]
  | .curve p q r _ => [p, q, r]

/-- The points of a stroke with their types. Only the last type says that the figure is closed. -/
def steps : Stroke → List (Point Int × Nat)
  | .move p closes => [(p, 6 + closes.toNat)]
  | .line p closes => [(p, 2 + closes.toNat)]
  | .curve p q r closes => [(p, 4), (q, 4), (r, 4 + closes.toNat)]

/-- What a stroke draws, where its points are sent elsewhere. -/
def outline (onPoint : Point Int → Point Float) : Stroke → Outline Float
  | .move p closes => .move (onPoint p) :: if closes then [.close] else []
  | .line p closes => .line (onPoint p) :: if closes then [.close] else []
  | .curve p q r closes =>
    .curve (onPoint p) (onPoint q) (onPoint r) :: if closes then [.close] else []

/-- Without their types the points of a stroke are left. -/
theorem map_fst_steps (stroke : Stroke) : stroke.steps.map Prod.fst = stroke.points := by
  cases stroke <;> rfl

/-- A stroke ends at its last point, whether it closes the figure or not. -/
theorem stop?_outline (onPoint : Point Int → Point Float) (stroke : Stroke) :
    (stroke.outline onPoint).stop? = stroke.points.getLast?.map onPoint := by
  cases stroke with
  | move p closes => cases closes <;> rfl
  | line p closes => cases closes <;> rfl
  | curve p q r closes => cases closes <;> rfl

/-- Placing what a stroke draws is drawing it through the placed points. -/
theorem place_outline (s : State) (stroke : Stroke) :
    s.place (stroke.outline Point.ofInt) = stroke.outline fun p => s.point (.ofInt p) := by
  cases stroke with
  | move p closes => cases closes <;> rfl
  | line p closes => cases closes <;> rfl
  | curve p q r closes => cases closes <;> rfl

end Stroke

/-- The types of a stroke draw the stroke, whatever follows. -/
theorem stepsOutline_stroke (stroke : Stroke) (rest : List (Point Float × Nat)) :
    stepsOutline (Shape.floatSteps stroke.steps ++ rest) =
      stroke.outline Point.ofInt ++ stepsOutline rest := by
  cases stroke with
  | move p closes =>
      have htype : (6 + closes.toNat) / 2 = 3 := by decide +revert
      show stepsOutline ((.ofInt p, 6 + closes.toNat) :: rest) = _
      rw [stepsOutline_cons (by omega), stepOutline_eq, pointSegment, htype]
      cases closes <;> rfl
  | line p closes =>
      have htype : (2 + closes.toNat) / 2 = 1 := by decide +revert
      show stepsOutline ((.ofInt p, 2 + closes.toNat) :: rest) = _
      rw [stepsOutline_cons (by omega), stepOutline_eq, pointSegment, htype]
      cases closes <;> rfl
  | curve p q r closes =>
      show stepsOutline
        ((.ofInt p, 4) :: (.ofInt q, 4) :: (.ofInt r, 4 + closes.toNat) :: rest) = _
      rw [stepsOutline_curve (by decide)]
      cases closes <;> rfl

/-- The types of strokes draw the strokes, one segment for each. -/
theorem stepsOutline_strokes (strokes : List Stroke) :
    stepsOutline (Shape.floatSteps (strokes.flatMap Stroke.steps)) =
      strokes.flatMap (Stroke.outline Point.ofInt) := by
  induction strokes with
  | nil => rfl
  | cons stroke rest ih =>
      rw [List.flatMap_cons, List.flatMap_cons, ← ih, ← stepsOutline_stroke]
      unfold Shape.floatSteps
      rw [List.map_append]

/-- Strokes end at the last of their points. -/
theorem stop?_strokes (strokes : List Stroke) (onPoint : Point Int → Point Float) :
    Outline.stop? (strokes.flatMap (Stroke.outline onPoint)) =
      (strokes.flatMap Stroke.points).getLast?.map onPoint := by
  induction strokes with
  | nil => rfl
  | cons stroke rest ih =>
      rw [List.flatMap_cons, List.flatMap_cons, Outline.stop?_append, ih, Stroke.stop?_outline,
        List.getLast?_append]
      cases (rest.flatMap Stroke.points).getLast? <;> rfl

/-! ### Records of points with types -/

/-- A record of points with types that holds what it announces draws its points. -/
theorem command_of_steppedPoints {e : Entry} {short : Bool} (plus : Bool)
    (hkind : e.kind? = some (.ofTypedPoints short))
    (hfits : neededBytes .typed short e.body ≤ e.body.length) :
    e.command plus =
      .ok (.draw (.steps ((steppedPoints short e.body).zip (stepTypes short e.body)))) := by
  have hcommand : e.command plus =
      ((Shape.typedPoints short).first e.body).map fun steps => .draw (.steps steps) := by
    unfold Entry.command
    rw [hkind]
    cases short <;> exact Record.first_draw _ Shape.steps e.body
  rw [hcommand, Record.first_typedPoints_eq_ok.2 ⟨hfits, rfl⟩]
  rfl

/-- The points become floating-point ones, and the types stay. -/
theorem floatSteps_zip (ps : List (Point Int)) (types : List Nat) :
    Shape.floatSteps (ps.zip types) = (floatPoints ps).zip types :=
  List.zip_map_left.symm

/-- What points with types draw: a move to the position, unless they begin with a move, and then
turn by turn. -/
theorem shapeOutline_steps (h : Heading) {ps : List (Point Int)} {types : List Nat}
    (hlength : ps.length = types.length) :
    shapeOutline h (.steps (ps.zip types)) =
      (if types.head?.any (· / 2 == 3) then [] else [.move h.position]) ++
        (turns ((floatPoints ps).zip types) 0).flatMap
          (turnOutline ((floatPoints ps).zip types)) := by
  have hfloat : (floatPoints ps).length = types.length := (List.length_map _).trans hlength
  rw [← stepsOutline_drop, List.drop_zero, ← beginsWithMove_zip hfloat, ← floatSteps_zip]
  rfl

namespace State

variable {setup : Setup} {uses : List PathUse} {e : Entry} {s : State}

/-- In an open path a shape adds its outline to the path. -/
theorem draw_of_bracket {b : Bracket} (shape : Shape) (h : s.bracket = some b) :
    s.draw shape = s.extend (shapeOutline s.heading shape) b := by
  rw [draw, h]

/-- In an open path the record of a shape adds its outline to the path and to the trail, and takes
the position to its last point. -/
theorem next_draw_open (uses : List PathUse) {shape : Shape}
    (hc : e.command setup.options.plus = .ok (.draw shape))
    (hopen : s.inPath = true) :
    (s.next setup uses e).2 = none ∧
      (s.next setup uses e).1.openPath = s.openPath ++ s.place (shapeOutline s.heading shape) ∧
      (s.next setup uses e).1.trail.outline =
        s.trail.outline ++ s.place (shapeOutline s.heading shape) ∧
      (s.next setup uses e).1.position = shape.lastPoint?.getD s.position := by
  obtain ⟨log, hlog⟩ := announce_eq setup e s
  obtain ⟨b, hbracket⟩ :
      ∃ b, ({ s with log } : State).bracket = some b := Option.isSome_iff_exists.1 hopen
  have hdraw : s.next setup uses e =
      (({ s with log } : State).extend (shapeOutline s.heading shape) b, none) := by
    rw [next_of_command hc, hlog]
    exact congrArg (·, none) (draw_of_bracket shape hbracket)
  rw [hdraw]
  exact ⟨rfl, extend_openPath _ hbracket, Trail.outline_append ..,
    stop?_shapeOutline s.heading shape⟩

/-- What a record of points with types adds to an open path. There is a move to the current
position first, unless the first type is a move. Then the points are drawn turn by turn: each
point is in exactly one turn, there are no turns without end, and what is drawn goes through some
of the points, in order. If the types are those of strokes, the strokes are drawn, each by one
segment through its points on the page, and the current position is at the last point. -/
theorem drawn_typedPoints {short : Bool} (hkind : e.kind? = some (.ofTypedPoints short))
    (hfits : neededBytes .typed short e.body ≤ e.body.length) (hopen : s.inPath = true) :
    let points := steppedPoints short e.body
    let types := stepTypes short e.body
    let steps := (floatPoints points).zip types
    let start := if types.head?.any (· / 2 == 3) then [] else [Segment.move s.position]
    let drawn := (turns steps 0).flatMap (turnOutline steps)
    let t := (s.next setup uses e).1
    (s.next setup uses e).2 = none ∧
    t.openPath = s.openPath ++ s.place (start ++ drawn) ∧
    t.trail.outline = s.trail.outline ++ s.place (start ++ drawn) ∧
    steps.length = Bytes.wordAt e.body 24 4 ∧
    (turns steps 0).flatten = List.finRange steps.length ∧ (turns steps 0).length ≤ steps.length ∧
    (drawn.flatMap Segment.points).Sublist (floatPoints points) ∧
    ∀ strokes : List Stroke, points.zip types = strokes.flatMap Stroke.steps →
      s.place (start ++ drawn) =
        s.place start ++ strokes.flatMap (Stroke.outline fun p => s.point (.ofInt p)) ∧
      t.position = (points.getLast?.map Point.ofInt).getD s.position := by
  intro points types steps start drawn t
  have hcount : points.length = Bytes.wordAt e.body 24 4 := Record.length_steppedPoints ..
  have hlength : points.length = types.length := hcount.trans (Record.length_stepTypes ..).symm
  have hfloat : (floatPoints points).length = types.length := (List.length_map _).trans hlength
  have hdrawn : stepsOutline steps = drawn := stepsOutline_drop steps 0
  -- all of the record is there, so it can be read, and its shape is drawn into the open path
  obtain ⟨hnone, hpath, htrail, hposition⟩ := next_draw_open uses
    (command_of_steppedPoints setup.options.plus hkind hfits) hopen
  rw [shapeOutline_steps s.heading hlength] at hpath htrail
  refine ⟨hnone, hpath, htrail, ?_, flatten_turns steps 0, length_turns_le steps 0, ?_, ?_⟩
  · rw [List.length_zip, hfloat, Nat.min_self, ← hlength, hcount]
  · rw [← hdrawn, ← List.map_fst_zip (Nat.le_of_eq hfloat)]
    exact points_stepsOutline steps
  · intro strokes hstrokes
    have hsteps : stepsOutline steps = strokes.flatMap (Stroke.outline Point.ofInt) := by
      rw [← stepsOutline_strokes, ← hstrokes, floatSteps_zip]
    -- types that are made of strokes put the points into the order of the strokes
    have hends : points = strokes.flatMap Stroke.points := by
      rw [← List.map_fst_zip (Nat.le_of_eq hlength), hstrokes, List.map_flatMap]
      exact List.flatMap_congr fun stroke _ => Stroke.map_fst_steps stroke
    constructor
    · rw [← hdrawn, hsteps]
      show List.map _ (start ++ _) = _
      rw [List.map_append, List.map_flatMap]
      exact congrArg (List.map _ start ++ ·)
        (List.flatMap_congr fun stroke _ => Stroke.place_outline s stroke)
    · rw [hends, ← stop?_strokes, ← hsteps]
      rw [Shape.lastPoint?, floatSteps_zip] at hposition
      exact hposition

/-- A state in which a path was just begun. -/
def begun : State := { initial with bracket := some ⟨[], .empty⟩ }

/-- A record of a line, of a curve that closes the figure, and of a move. -/
def closedCurve : Entry :=
  ⟨88, 92, Record.Kind.polyDraw16.record (List.replicate 16 0 ++ [5, 0, 0, 0] ++
    [1, 0, 2, 0, 3, 0, 4, 0, 5, 0, 6, 0, 7, 0, 8, 0, 255, 255, 9, 0] ++ [2, 4, 4, 5, 6])⟩

/-- The line does not begin with a move, so there is one to the position first. -/
theorem drawn_typedPoints_closedCurve :
    let strokes : List Stroke :=
      [.line ⟨1, 2⟩ false, .curve ⟨3, 4⟩ ⟨5, 6⟩ ⟨7, 8⟩ true, .move ⟨-1, 9⟩ false]
    let t := (begun.next default [] closedCurve).1
    closedCurve.kind? = some .polyDraw16 ∧
    neededBytes .typed true closedCurve.body ≤ closedCurve.body.length ∧ begun.inPath = true ∧
    t.openPath = begun.place [.move begun.position] ++
      strokes.flatMap (Stroke.outline fun p => begun.point (.ofInt p)) ∧
    t.position = .ofInt ⟨-1, 9⟩ := by
  intro strokes t
  have hkind : closedCurve.kind? = some (.ofTypedPoints true) := by decide
  have hfits : neededBytes .typed true closedCurve.body ≤ closedCurve.body.length := by decide
  have hlast : (steppedPoints true closedCurve.body).getLast? = some ⟨-1, 9⟩ := by decide
  have hstart : ((stepTypes true closedCurve.body).head?.any (· / 2 == 3)) = false := by decide
  obtain ⟨_, hpath, _, _, _, _, _, hstrokes⟩ :=
    @drawn_typedPoints default [] _ begun _ hkind hfits rfl
  obtain ⟨hadded, hposition⟩ := hstrokes strokes (by decide)
  rw [hadded, hstart] at hpath
  rw [hlast] at hposition
  exact ⟨hkind, hfits, rfl, hpath, hposition⟩

end State

end Metafile.Playback
