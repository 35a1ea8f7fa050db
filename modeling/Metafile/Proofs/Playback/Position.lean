import Metafile.Proofs.Geometry.Endings
import Metafile.Proofs.Playback.Figures
import Metafile.Proofs.Playback.OpenPath
import Metafile.Proofs.Record.Standing

/-!
# `Metafile.Proofs.Playback.Position`: where the current position is

Whatever is written as path data takes the current position along. So a shape that begins at a
point of its own moves it too, to the last point of the shape (`Shape.lastPoint?`). Only boxes and
ellipses that are drawn outside of a path leave it where it is, since they have elements made for
them.

The position at a boundary is then known from the records alone: it is where the last record that
moves it has left it (`Reaches.position_eq`). `Reaches.position_moved` says what each record does
to it, when the shapes that stand apart have left it alone, and that the shapes which go on start
there.
-/

set_option autoImplicit false

namespace Metafile

/-! ### Where shapes and records leave the position -/

namespace Record

open Playback (beginsWithMove continues onEllipse stepsOutline)

namespace Shape

/-- Points with types as points of scalars. -/
def floatSteps (ps : List (Point Int × Nat)) : List (Point Float × Nat) :=
  ps.map fun s => (Point.ofInt s.1, s.2)

/-- Whether the first segment of a shape starts from the current position. Points with types can
begin with a move instead. -/
def startsFromPosition : Shape → Bool
  | .steps ps => !beginsWithMove (floatSteps ps)
  | shape => continues shape

/-- Whether a shape has an element made for it when it is drawn outside of a path. -/
def hasElement : Shape → Bool
  | .rectangle _ | .roundRect .. | .ellipse _ => true
  | _ => false

/-- Where the outline of a box with round corners begins and ends: at the left end of its upper
side. -/
def roundStart (b : Box) (corner : Point Int) : Point Float :=
  let low : Point Float := .ofInt ⟨min b.left b.right, min b.top b.bottom⟩
  let high : Point Float := .ofInt ⟨max b.left b.right, max b.top b.bottom⟩
  ⟨low.x + leastFloat (Float.abs (Float.ofInt corner.x / 2)) ((high.x - low.x) / 2), low.y⟩

/-- The last point of a shape, in logical units, if it has any. Curves that lack points are not
drawn, and a pie ends at its center. -/
def lastPoint? : Shape → Option (Point Float)
  | .polyline ps _ | .polylineTo ps => ps.getLast?.map .ofInt
  | .polylines groups _ => groups.flatten.getLast?.map .ofInt
  | .curves [] => none
  | .curves (p :: ps) => (p :: ps.take (ps.length / 3 * 3)).getLast?.map .ofInt
  | .curvesTo ps => (ps.take (ps.length / 3 * 3)).getLast?.map .ofInt
  | .steps ps => (stepsOutline (floatSteps ps)).stop?
  | .rectangle b => some (.ofInt ⟨b.left, b.bottom⟩)
  | .roundRect b corner => some (roundStart b corner)
  | .ellipse b =>
      some ⟨(b.center : Point Float).x - (b.radii : Point Float).x, (b.center : Point Float).y⟩
  | .arc .pie b _ _ => some b.center
  | .arc _ b _ stop => some (onEllipse b.center b.radii (.ofInt stop))
  | .angleArc center radius start sweep =>
    let angle :=
      if sweep.abs ≥ 360 then Angle.radians start else Angle.radians start + Angle.radians sweep
    some (Angle.onCircle (.ofInt center) (Float.ofNat radius) angle)

/-- Where the drawing of a shape leaves the current position, if it moves it. -/
def stop? (inPath : Bool) (shape : Shape) : Option (Point Float) :=
  if !inPath && shape.hasElement then none else shape.lastPoint?

/-- A box or an ellipse has a last point. -/
theorem exists_lastPoint? {shape : Shape} (h : shape.hasElement = true) :
    ∃ p, shape.lastPoint? = some p := by
  cases shape <;> first | exact ⟨_, rfl⟩ | cases h

/-- A shape leaves the position exactly if it has an element made for it, or if it has no other
last point. -/
theorem stop?_getD_eq_iff {shape : Shape} {inPath : Bool} {p : Point Float} :
    (shape.stop? inPath).getD p = p ↔
      inPath = false ∧ shape.hasElement = true ∨ ∀ q, shape.lastPoint? = some q → q = p := by
  have hgetD : shape.lastPoint?.getD p = p ↔ ∀ q, shape.lastPoint? = some q → q = p := by
    cases shape.lastPoint? <;> simp
  rw [stop?, ← hgetD]
  cases inPath <;> cases shape.hasElement <;> simp

/-- A shape does the same inside and outside of a path exactly if it has no element made for it,
or if its last point is where the position is already. -/
theorem stop?_inPath_iff {shape : Shape} {inPath : Bool} {p : Point Float} :
    (shape.stop? (!inPath)).getD p = (shape.stop? inPath).getD p ↔
      shape.hasElement = false ∨ shape.lastPoint? = some p := by
  cases helement : shape.hasElement with
  | false => simp [stop?, helement]
  | true =>
      obtain ⟨q, hq⟩ := exists_lastPoint? helement
      cases inPath <;> simp [stop?, helement, hq, eq_comm]

/-- A shape that goes on has no element made for it. -/
theorem stop?_of_goesOn {shape : Shape} (h : shape.standing = .goesOn) (inPath : Bool) :
    shape.stop? inPath = shape.lastPoint? := by
  have helement : shape.hasElement = false := by
    cases shape <;> first | rfl | cases h
  rw [stop?, helement, Bool.and_false]
  rfl

end Shape

namespace Command

/-- Where a command leaves the current position, if it moves it. -/
def stop? (inPath : Bool) : Command → Option (Point Float)
  | .moveTo p => some (.ofInt p)
  | .draw shape => shape.stop? inPath
  | _ => none

/-- A command that stands aside does not move the position. -/
theorem stop?_of_aside {c : Command} (h : c.standing = .aside) (inPath : Bool) :
    c.stop? inPath = none := by
  cases c with
  | draw shape =>
      rcases shape.standing_cases with hshape | hshape <;> exact nomatch hshape.symm.trans h
  | moveTo p => cases h
  | _ => rfl

end Command

namespace Entry

/-- Where a record leaves the current position, if it moves it. -/
def stop? (plus inPath : Bool) (e : Entry) : Option (Point Float) :=
  (e.command plus).toOption.bind (Command.stop? inPath)

end Entry

end Record

namespace Playback

open Metafile.Record (Command Entry PathUse Shape Standing Survey)

/-! ### Where a drawing ends -/

/-- Lines between points end at the last point, whether the figure is closed or not. -/
theorem stop?_polylineOutline (closed : Bool) (ps : List (Point Int)) :
    (polylineOutline closed ps).stop? = ps.getLast?.map .ofInt := by
  unfold polylineOutline floatPoints
  split
  · rw [Outline.stop?_polygon, List.getLast?_map]
  · rw [Outline.stop?_polyline, List.getLast?_map]

/-- An arc ends where it is drawn to. -/
theorem stop?_arcOutline (h : Heading) (center radii start stop : Point Float) :
    (arcOutline h center radii start stop).stop? = some stop := by
  unfold arcOutline
  split <;> rfl

/-- An arc ends at the end of its sweep, and as a pie at its centre. -/
theorem stop?_formOutline (h : Heading) (form : Record.ArcForm) (b : Box)
    (start stop : Point Int) :
    (formOutline h form b start stop).stop? = (Shape.arc form b start stop).lastPoint? := by
  have harc := stop?_arcOutline h b.center b.radii (onEllipse b.center b.radii (.ofInt start))
    (onEllipse b.center b.radii (.ofInt stop))
  cases form with
  | alone => exact Outline.stop?_cons_of_some _ harc
  | joined => exact Outline.stop?_cons_of_some _ harc
  | chord =>
      refine Outline.stop?_cons_of_some _ ?_
      rw [Outline.stop?_append, harc]
      rfl
  | pie =>
      refine Outline.stop?_cons_of_some _ ?_
      rw [Outline.stop?_append]
      rfl

/-- An arc by angles ends at the end of its sweep, and as a whole circle where it begins. -/
theorem stop?_angleArcOutline (h : Heading) (center : Point Int) (radius : Nat)
    (start sweep : Float) :
    (angleArcOutline h (.ofInt center) (Float.ofNat radius) start sweep).stop? =
      (Shape.angleArc center radius start sweep).lastPoint? := by
  refine Outline.stop?_cons_of_some _ ?_
  -- the whole circle ends where it begins
  by_cases hwhole : sweep.abs ≥ 360
  · rw [if_pos hwhole, if_pos hwhole]
    rfl
  · rw [if_neg hwhole, if_neg hwhole]
    rfl

/-- Drawn from some position, the outline of a shape ends at the last point of the shape. -/
theorem stop?_shapeOutline (h : Heading) (shape : Shape) :
    (shapeOutline h shape).stop?.getD h.position = shape.lastPoint?.getD h.position := by
  cases shape with
  | polyline ps closed => exact congrArg (·.getD h.position) (stop?_polylineOutline closed ps)
  | polylines groups closed =>
      suffices hstop : Outline.stop? (groups.flatMap (polylineOutline closed)) =
          groups.flatten.getLast?.map .ofInt from congrArg (·.getD h.position) hstop
      induction groups with
      | nil => rfl
      | cons ps rest ih =>
          rw [List.flatMap_cons, Outline.stop?_append, ih, stop?_polylineOutline,
            List.flatten_cons, List.getLast?_append]
          cases rest.flatten.getLast? <;> rfl
  | polylineTo ps =>
      rw [shapeOutline, floatPoints, Outline.stop?_lines, List.getLast?_map]
      rfl
  | curves ps =>
      cases ps with
      | nil => rfl
      | cons p ps =>
          -- the first point is a start only, so the curves are made of the others
          rw [shapeOutline, Outline.stop?_cons, Outline.stop?_curves, floatPoints,
            List.length_map, ← List.map_take, List.getLast?_map, Shape.lastPoint?,
            ← Outline.getLast?_or]
          cases (ps.take (ps.length / 3 * 3)).getLast? <;> rfl
  | curvesTo ps =>
      rw [shapeOutline, Outline.stop?_curves, floatPoints, List.length_map, ← List.map_take,
        List.getLast?_map]
      rfl
  | steps ps =>
      unfold shapeOutline
      dsimp only
      split
      · rfl
      · -- the move to the position counts only if nothing is drawn after it
        exact Outline.stop?_move_getD _ _
  | rectangle b => rfl
  | roundRect b corner => rfl
  | ellipse b => rfl
  | arc form b start stop =>
      exact congrArg (·.getD h.position) (stop?_formOutline h form b start stop)
  | angleArc center radius start sweep =>
      exact congrArg (·.getD h.position) (stop?_angleArcOutline h center radius start sweep)

namespace State

/-- Drawn on its own, a shape ends in the same place, since a move to the position changes
nothing. -/
theorem ownOutline_stop? (shape : Shape) (s : State) :
    (s.ownOutline shape).stop?.getD s.position = shape.lastPoint?.getD s.position := by
  unfold ownOutline
  split
  · rw [Outline.stop?_move_getD]
    exact stop?_shapeOutline s.heading shape
  · exact stop?_shapeOutline s.heading shape

/-- Without points there is nothing to move the position to. -/
theorem lastPoint?_of_isBlank {shape : Shape} (h : isBlank shape = true) :
    shape.lastPoint? = none := by
  cases shape with
  | polyline ps closed => cases ps <;> first | rfl | cases h
  | curves ps => cases ps <;> first | rfl | cases h
  | _ => cases h

/-- A shape outside of a path takes the position to the point that it states, if it states one. -/
theorem ownStop_eq (shape : Shape) (s : State) :
    s.ownStop shape = (shape.stop? false).getD s.position := by
  cases shape with
  | rectangle b => rfl
  | roundRect b corner => rfl
  | ellipse b => rfl
  | _ => exact ownOutline_stop? _ s

/-- What drawing a shape does to the position. -/
theorem draw_position (shape : Shape) (s : State) :
    (s.draw shape).position = (shape.stop? s.inPath).getD s.position := by
  unfold draw
  split
  · rename_i b hbracket
    rw [inPath, hbracket]
    exact stop?_shapeOutline s.heading shape
  · rename_i hbracket
    have hclosed : s.inPath = false := by rw [inPath, hbracket]; rfl
    rw [hclosed]
    by_cases hblank : isBlank shape = true
    · rw [if_pos hblank, Shape.stop?, lastPoint?_of_isBlank hblank, ite_self]
      rfl
    · obtain ⟨written, held, heq⟩ :=
        emit_eq #[s.shapePiece shape] { s with position := s.ownStop shape }
      rw [if_neg hblank, heq]
      exact ownStop_eq shape s

/-- What a command does to the position. -/
theorem perform_position (setup : Setup) (uses : List PathUse) (c : Command) (s : State) :
    (s.perform setup uses c).1.position = (c.stop? s.inPath).getD s.position := by
  by_cases hplaces : keepsPlaces c = true
  · obtain ⟨_, _, _, _, _, _, _, _, _, _, heq⟩ := perform_eq_of_keepsPlaces setup uses s hplaces
    rw [heq]
    cases c <;> first | rfl | cases hplaces
  cases c with
  | draw shape => exact draw_position shape s
  | moveTo p =>
      show (s.moveTo (.ofInt p)).position = .ofInt p
      unfold moveTo
      split <;> rfl
  | closeFigure =>
      -- the path is extended, but by a segment that does not say where the pen stands
      show s.closeFigure.position = s.position
      unfold closeFigure
      split <;> rfl
  | header header =>
      obtain ⟨written, held, log, heq⟩ := beginDocument_eq setup.options header s
      exact (congrArg position heq).trans rfl
  | endOfFile =>
      obtain ⟨player, log, heq⟩ := endDocument_eq setup.options s
      obtain ⟨written, held, hgiven⟩ := abandon_eq s
      rw [hgiven] at heq
      exact (congrArg position heq).trans rfl
  | beginPath =>
      obtain ⟨world, bracket, brackets, trail, wrapped, written, held, heq⟩ := beginPath_eq uses s
      exact (congrArg position heq).trans rfl
  | endPath =>
      obtain ⟨world, bracket, wrapped, written, held, heq⟩ := endPath_eq uses s
      exact (congrArg position heq).trans rfl
  | abortPath =>
      obtain ⟨written, held, heq⟩ := abandon_eq s
      exact (congrArg position heq).trans rfl
  | mapMode code =>
      obtain ⟨mapping, log, heq⟩ := setMapMode_eq code s
      exact (congrArg position heq).trans rfl
  | restore relative =>
      obtain ⟨context, saved, wrapped, failed, written, held, log, heq⟩ := restore_eq relative s
      exact (congrArg (position ·.1) heq).trans rfl
  | transform change =>
      obtain ⟨world, wrapped, written, held, log, heq⟩ := transform_eq change s
      exact (congrArg position heq).trans rfl
  | select handle =>
      obtain ⟨context, log, heq⟩ := select_eq handle s
      exact (congrArg position heq).trans rfl
  | set _ | save => rfl
  | _ => exact absurd rfl hplaces

variable {setup : Setup} {uses : List PathUse} {e : Entry}

/-- What a record does to the position. A record that cannot be read leaves it alone. -/
theorem next_position (s : State) :
    (s.next setup uses e).1.position =
      (e.stop? setup.options.plus s.inPath).getD s.position := by
  obtain ⟨log, hlog⟩ := announce_eq setup e s
  rw [next, step_eq, hlog, Entry.stop?]
  cases e.command setup.options.plus with
  | error cause => rfl
  | ok c => exact perform_position setup uses c { s with log }

/-! ### What starts from the position -/

/-- A shape that starts from the position is drawn on its own as a path that moves there first. -/
theorem ownOutline_of_start {shape : Shape} (h : shape.startsFromPosition = true) (s : State) :
    ∃ rest, s.ownOutline shape = .move s.position :: rest := by
  cases shape with
  | steps ps =>
      have hmove : beginsWithMove (Shape.floatSteps ps) = false := by
        rw [Shape.startsFromPosition] at h
        exact Bool.not_eq_true' _ ▸ h
      refine ⟨stepsOutline (Shape.floatSteps ps), ?_⟩
      show (if beginsWithMove (Shape.floatSteps ps) then []
        else [Segment.move s.position]) ++ _ = _
      rw [hmove]
      rfl
  | _ => exact ⟨_, if_pos h⟩

/-- Outside of a path the record of such a shape adds that path to the document. -/
theorem next_written_of_start {shape : Shape}
    (hc : e.command setup.options.plus = .ok (.draw shape))
    (h : shape.startsFromPosition = true) {s : State} (hclosed : s.inPath = false) :
    ∃ rest, (s.next setup uses e).1.written = s.written.push (s.shapePiece shape) ∧
      s.geometry shape =
        ("path", [("d", Outline.data (s.place (.move s.position :: rest)))]) := by
  obtain ⟨rest, hrest⟩ := ownOutline_of_start h s
  refine ⟨rest, ?_, ?_⟩
  · obtain ⟨log, hlog⟩ := announce_eq setup e s
    have hblank : isBlank shape = false := by
      cases shape <;> first | rfl | cases h
    have hwritten := (draw_adds shape { s with log }).written
    have hstill : ({ s with log } : State).inPath = false := hclosed
    rw [shapePieces, hstill, hblank] at hwritten
    rw [next_of_command hc, hlog]
    exact hwritten.trans (Array.append_singleton)
  · rw [← hrest]
    cases shape <;> first | rfl | cases h

/-- Inside of a path only points with types move there first. -/
theorem next_openPath_of_start {ps : List (Point Int × Nat)}
    (hc : e.command setup.options.plus = .ok (.draw (.steps ps)))
    (h : (Shape.steps ps).startsFromPosition = true) {s : State} (hopen : s.inPath = true) :
    ∃ rest, (s.next setup uses e).1.openPath = s.openPath ++
      s.place (.move s.position :: rest) := by
  obtain ⟨rest, hrest⟩ := ownOutline_of_start h s
  obtain ⟨log, hlog⟩ := announce_eq setup e s
  refine ⟨rest, ?_⟩
  rw [next_of_command hc, hlog, perform_openPath setup uses { s with log } fun _ => rfl,
    commandsOf]
  have hstill : ({ s with log } : State).inPath = true := hopen
  rw [hstill, ← hrest]
  rfl

end State

/-! ### The last record that moved the position -/

/-- Where a record after some others leaves the current position, if it moves it. The others say
whether a path is open. -/
def stopAfter (plus : Bool) (earlier : List Entry) (e : Entry) : Option (Point Float) :=
  e.stop? plus (openUnaborted earlier)

/-- The same, where a shape that stands apart is not counted. -/
def ownStopAfter (plus : Bool) (earlier : List Entry) (e : Entry) : Option (Point Float) :=
  if e.standing = .apart then none else stopAfter plus earlier e

/-- Where the last of some records that moves the position leaves it. The records come backwards.
-/
def lastStop? (stop? : List Entry → Entry → Option (Point Float)) :
    List Entry → Option (Point Float)
  | [] => none
  | e :: before => (stop? before.reverse e).or (lastStop? stop? before)

/-- Where each record moves the position in the same way after those before it, the last one does.
-/
theorem lastStop?_congr {f g : List Entry → Entry → Option (Point Float)} {records : List Entry}
    (h : ∀ i (hi : i < records.length),
      f (records.take i) records[i] = g (records.take i) records[i]) :
    lastStop? f records.reverse = lastStop? g records.reverse := by
  obtain ⟨backwards, rfl⟩ : ∃ backwards : List Entry, records = backwards.reverse :=
    ⟨records.reverse, records.reverse_reverse.symm⟩
  rw [List.reverse_reverse]
  induction backwards with
  | nil => rfl
  | cons e before ih =>
      -- the first of the reversed list is the last record, behind all the others
      simp only [List.reverse_cons] at h
      have hlast := h before.reverse.length (by simp)
      rw [List.take_left' rfl, List.getElem_concat_length rfl] at hlast
      rw [lastStop?, lastStop?, hlast, ih]
      intro i hi
      have hearlier := h i (by rw [List.length_append]; omega)
      rwa [List.take_append_of_le_length (Nat.le_of_lt hi),
        List.getElem_append_left hi] at hearlier

namespace Reaches

variable {setup : Setup} {stream : Bytes} {survey : Survey} {earlier later : List Entry}
  {e : Entry} {s t : State}

/-- The position at a boundary is where the last record that moves it has left it. -/
theorem position_eq (h : Reaches setup stream survey earlier later t) :
    t.position = (lastStop? (stopAfter setup.options.plus) earlier.reverse).getD .zero := by
  refine h.induction (motive := fun earlier _ t =>
    t.position = (lastStop? (stopAfter setup.options.plus) earlier.reverse).getD .zero) rfl ?_
  intro earlier e later s t c hs ih hc hperform
  have hnext : (s.next setup survey.paths e).1.position = _ := State.next_position s
  -- whether a path is open in this state is known from the earlier records
  rw [State.next_of_command hc, hperform, hs.inPath_eq, ih] at hnext
  rw [hnext, List.reverse_concat, lastStop?, List.reverse_reverse, stopAfter]
  cases e.stop? setup.options.plus (openUnaborted earlier) <;> rfl

/-- If no shape that stands apart has moved the position, then one that sets it or goes on has. -/
theorem position_of_own (h : Reaches setup stream survey earlier later t)
    (hapart : ∀ i (hi : i < earlier.length), earlier[i].standing = .apart →
      stopAfter setup.options.plus (earlier.take i) earlier[i] = none) :
    t.position = (lastStop? (ownStopAfter setup.options.plus) earlier.reverse).getD .zero := by
  rw [h.position_eq, lastStop?_congr]
  intro i hi
  unfold ownStopAfter
  split
  · exact hapart i hi ‹_›
  · rfl

/-- What the records have done to the current position, and what the next one does. The position
is where the last record has left it that moves it. If no shape that stands apart has moved it,
that is a record that sets it or goes on. A shape that stands apart leaves the position alone
exactly if it is a box or an ellipse outside of a path, or has no last point elsewhere, and it
does the same inside and outside of a path exactly if it is no box and no ellipse, or ends at the
position. A shape that goes on takes the position to its last point, and where it starts from the
position, a move there comes first. All other records leave the position alone, as do those that
cannot be read. -/
theorem position_moved (h : Reaches setup stream survey earlier (e :: later) s) :
    s.position = (lastStop? (stopAfter setup.options.plus) earlier.reverse).getD .zero ∧
    ((∀ i (hi : i < earlier.length), earlier[i].standing = .apart →
        stopAfter setup.options.plus (earlier.take i) earlier[i] = none) →
      s.position = (lastStop? (ownStopAfter setup.options.plus) earlier.reverse).getD .zero) ∧
    (∀ c, e.command setup.options.plus = .ok c → e.standing = .apart → ∃ shape, c = .draw shape ∧
      ((s.next setup survey.paths e).1.position = s.position ↔
        s.inPath = false ∧ shape.hasElement = true ∨
          ∀ p, shape.lastPoint? = some p → p = s.position) ∧
      ∀ u : State, u.inPath = !s.inPath → u.position = s.position →
        ((u.next setup survey.paths e).1.position = (s.next setup survey.paths e).1.position ↔
          shape.hasElement = false ∨ shape.lastPoint? = some s.position)) ∧
    (∀ c, e.command setup.options.plus = .ok c → e.standing = .goesOn → ∃ shape, c = .draw shape ∧
      (s.next setup survey.paths e).1.position = shape.lastPoint?.getD s.position ∧
      (s.inPath = false → shape.startsFromPosition = true → ∃ rest,
        (s.next setup survey.paths e).1.written = s.written.push (s.shapePiece shape) ∧
        s.geometry shape =
          ("path", [("d", Outline.data (s.place (.move s.position :: rest)))])) ∧
      (s.inPath = true → ∀ ps, shape = .steps ps → shape.startsFromPosition = true → ∃ rest,
        (s.next setup survey.paths e).1.openPath =
          s.openPath ++ s.place (.move s.position :: rest))) ∧
    (∀ c, e.command setup.options.plus = .ok c → e.standing = .sets → ∃ p, c = .moveTo p ∧
      (s.next setup survey.paths e).1.position = .ofInt p) ∧
    (e.standing = .aside ∨ (∃ cause, e.command setup.options.plus = .error cause) →
      (s.next setup survey.paths e).1.position = s.position) := by
  -- where the record leaves the position depends on its command and on whether a path is open
  have hnext {c : Command} (hc : e.command setup.options.plus = .ok c) (u : State) :
      (u.next setup survey.paths e).1.position = (c.stop? u.inPath).getD u.position := by
    rw [State.next_position, Entry.stop?, hc]
    rfl
  have hstanding {c : Command} {standing : Standing} (hc : e.command setup.options.plus = .ok c)
      (h : e.standing = standing) : c.standing = standing :=
    (Entry.command_standing hc).trans h
  -- the whole run comes from the last record that moved, the rest from this record alone
  refine ⟨h.position_eq, h.position_of_own, ?_, ?_, ?_, ?_⟩
  · intro c hc happart
    obtain ⟨shape, rfl⟩ := Command.draw_of_standing (.inl (hstanding hc happart))
    refine ⟨shape, rfl, ?_, fun u hinPath hposition => ?_⟩
    · rw [hnext hc]
      exact Shape.stop?_getD_eq_iff
    · rw [hnext hc, hnext hc, hinPath, hposition]
      exact Shape.stop?_inPath_iff
  · intro c hc hgoesOn
    obtain ⟨shape, rfl⟩ := Command.draw_of_standing (.inr (hstanding hc hgoesOn))
    refine ⟨shape, rfl, ?_,
      fun hclosed hstart => State.next_written_of_start hc hstart hclosed, ?_⟩
    · rw [hnext hc, Command.stop?, Shape.stop?_of_goesOn (hstanding hc hgoesOn)]
    · rintro hopen ps rfl hstart
      exact State.next_openPath_of_start hc hstart hopen
  · intro c hc hsets
    obtain ⟨p, rfl⟩ := Command.moveTo_of_standing (hstanding hc hsets)
    exact ⟨p, rfl, hnext hc s⟩
  · rintro (haside | ⟨cause, hc⟩)
    · cases hc : e.command setup.options.plus with
      | error cause => rw [State.next_position, Entry.stop?, hc]; rfl
      | ok c =>
          rw [hnext hc, Command.stop?_of_aside (hstanding hc haside)]
          rfl
    · rw [State.next_position, Entry.stop?, hc]
      rfl

end Reaches

/-- Coordinates as a record stores them. -/
def coordinates (ns : List Nat) : Bytes := ns.flatMap (Bytes.ofNat 4)

/-- A record that draws a line holds its end behind its header. -/
theorem command_of_lineTo {plus : Bool} {e : Entry} {p : Point Int}
    (hkind : e.kind? = some .lineTo) (hread : (Shape.longPoint.first e.body).toOption = some p) :
    e.command plus = .ok (.draw (.polylineTo [p])) := by
  have hcommand : e.command plus =
      (Shape.longPoint.first e.body).map fun p => .draw (.polylineTo [p]) := by
    unfold Entry.command
    rw [hkind]
    exact Record.first_draw Shape.longPoint (fun p => .polylineTo [p]) e.body
  rw [hcommand, eq_ok_of_toOption hread]
  rfl

/-- A stream that sets the position, draws a box, and goes on with a line. -/
def boxedStream : Bytes :=
  Record.streamOf [(.header, List.replicate 80 0), (.moveTo, coordinates [10, 20]),
    (.rectangle, coordinates [1, 2, 3, 4]), (.lineTo, coordinates [50, 60]),
    (.endOfFile, List.replicate 12 0)]

/-- The records of the stream that draws a box. -/
def boxedEntries : List Entry := (Survey.ofStream boxedStream).entries

/-- A box outside of a path leaves the position alone, and the line starts where it was set to.
Its path data are one move to that place and one line. -/
theorem position_moved_boxed :
    ∃ e later s rest,
      Reaches .plain boxedStream (.ofStream boxedStream) (boxedEntries.take 3) (e :: later) s ∧
      e.kind? = some .lineTo ∧ s.position = .ofInt ⟨10, 20⟩ ∧
      (s.next .plain (Survey.ofStream boxedStream).paths e).1.written =
        s.written.push (s.shapePiece (.polylineTo [⟨50, 60⟩])) ∧
      s.geometry (.polylineTo [⟨50, 60⟩]) =
        ("path", [("d", Outline.data (s.place (.move (.ofInt ⟨10, 20⟩) :: rest)))]) ∧
      Outline.data (s.place (.move (.ofInt ⟨10, 20⟩) :: rest)) = "M 10,20 L 50,60" := by
  have h : Reaches .plain boxedStream _ (boxedEntries.take 3) (boxedEntries.drop 3) _ :=
    .of_steps 3 (by decide +kernel) (by decide +kernel)
  rw [show boxedEntries.drop 3 =
    ⟨128, 54, Record.Kind.lineTo.record (coordinates [50, 60])⟩ :: boxedEntries.drop 4 by
    decide +kernel] at h
  obtain ⟨_, hown, _, hgoesOn, _⟩ := h.position_moved
  have hposition := (hown (by decide +kernel)).trans
    (by decide +kernel : _ = (.ofInt ⟨10, 20⟩ : Point Float))
  have hcommand : Entry.command Setup.plain.options.plus
      ⟨128, 54, Record.Kind.lineTo.record (coordinates [50, 60])⟩ =
        .ok (.draw (.polylineTo [⟨50, 60⟩])) :=
    command_of_lineTo rfl (by decide +kernel)
  obtain ⟨shape, hshape, _, hwritten, _⟩ := hgoesOn _ hcommand (by decide)
  obtain rfl : Shape.polylineTo [⟨50, 60⟩] = shape := Command.draw.inj hshape
  obtain ⟨rest, hpiece, hgeometry⟩ := hwritten (by decide +kernel) rfl
  rw [hposition] at hgeometry
  -- the line is evaluated to find out what comes after the move
  have hdata : ((State.start (.ofStream boxedStream)).steps .plain
      (Survey.ofStream boxedStream).paths (boxedEntries.take 3)).1.geometry
        (.polylineTo [⟨50, 60⟩]) = ("path", [("d", "M 10,20 L 50,60")]) := by decide +kernel
  have hsame := List.cons.inj (congrArg Prod.snd (hgeometry.symm.trans hdata))
  exact ⟨_, _, _, rest, h, by decide, hposition, hpiece, hgeometry, congrArg Prod.snd hsame.1⟩

/-- A stream that draws a box in a path, and lines that stand apart. The position is set before
each of them. -/
def strayStream : Bytes :=
  Record.streamOf [(.header, List.replicate 80 0), (.moveTo, coordinates [10, 20]),
    (.beginPath, []), (.rectangle, coordinates [1, 2, 3, 4]), (.abortPath, []),
    (.moveTo, coordinates [10, 20]),
    (.polyline, List.replicate 16 0 ++ coordinates [2, 0, 0, 50, 0]),
    (.lineTo, coordinates [50, 60]), (.endOfFile, List.replicate 12 0)]

/-- The records of the stream that draws lines. -/
def strayEntries : List Entry := (Survey.ofStream strayStream).entries

/-- In a path the box moves the position to its last corner. The lines move it to the last of
their points, and so the line after them does not start where the position was set to. -/
theorem shapes_move_position :
    (∃ e later s,
      Reaches .plain strayStream (.ofStream strayStream) (strayEntries.take 3) (e :: later) s ∧
      e.kind? = some .rectangle ∧ s.position = .ofInt ⟨10, 20⟩ ∧
      (s.next .plain (Survey.ofStream strayStream).paths e).1.position = .ofInt ⟨1, 4⟩ ∧
      (s.next .plain (Survey.ofStream strayStream).paths e).1.position ≠ s.position) ∧
    ∃ e later s,
      Reaches .plain strayStream (.ofStream strayStream) (strayEntries.take 7) (e :: later) s ∧
      e.kind? = some .lineTo ∧ s.position = .ofInt ⟨50, 0⟩ ∧
      lastStop? (ownStopAfter true) (strayEntries.take 7).reverse = some (.ofInt ⟨10, 20⟩) ∧
      s.position ≠ .ofInt ⟨10, 20⟩ := by
  have hbox : Reaches .plain strayStream _ (strayEntries.take 3) (strayEntries.drop 3) _ :=
    .of_steps 3 (by decide +kernel) (by decide +kernel)
  have hline : Reaches .plain strayStream _ (strayEntries.take 7) (strayEntries.drop 7) _ :=
    .of_steps 7 (by decide +kernel) (by decide +kernel)
  rw [show strayEntries.drop 3 =
    ⟨112, 43, Record.Kind.rectangle.record (coordinates [1, 2, 3, 4])⟩ :: strayEntries.drop 4 by
    decide +kernel] at hbox
  rw [show strayEntries.drop 7 =
    ⟨204, 54, Record.Kind.lineTo.record (coordinates [50, 60])⟩ :: strayEntries.drop 8 by
    decide +kernel] at hline
  exact ⟨⟨_, _, _, hbox, by decide, by decide +kernel, by decide +kernel, by decide +kernel⟩,
    ⟨_, _, _, hline, by decide, by decide +kernel, by decide +kernel, by decide +kernel⟩⟩

end Playback

end Metafile
