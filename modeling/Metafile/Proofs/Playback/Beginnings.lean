import Mathlib.Data.List.Infix
import Metafile.Proofs.Geometry.Beginnings
import Metafile.Proofs.Playback.Figures

/-!
# `Metafile.Proofs.Playback.Beginnings`: how the path of a bracket begins

Inside of a bracket every record adds its own commands to the path and relies on earlier records
to have begun a figure. Shapes that go on from the current position do not move there first, and
neither does the record that closes a figure. `Entry.begins?` reads off a record alone whether
what it adds begins with a move.

`State.steps_begins?` follows the records of a bracket: the path begins as the first of them that
adds anything. `BegunPaths` asks of a list of records that this one begins with a move, in every
bracket. Then at every boundary the path of the open bracket begins with a move
(`Reaches.openPath_begun`), and so does the trail (`Reaches.trail_begun`).
-/

set_option autoImplicit false

namespace Metafile

open Metafile.Outline (begins? Begun)

/-! ### Records -/

namespace Record

/-- Whether what a shape adds to a path begins with a move, if it adds anything. -/
def Shape.begins? : Shape → Option Bool
  | .polyline [] _ | .curves [] => none
  | .polyline (_ :: _) _ | .curves (_ :: _) => some true
  | .polylines groups _ => if groups.all List.isEmpty then none else some true
  | .polylineTo ps => if ps.isEmpty then none else some false
  | .curvesTo ps => if ps.length < 3 then none else some false
  | .steps _ | .rectangle _ | .roundRect .. | .ellipse _ => some true
  | .arc form .. => some (form != .joined)
  | .angleArc .. => some false

/-- Whether what a command adds to a path begins with a move, if it adds anything. -/
def Command.begins? : Command → Option Bool
  | .draw shape => shape.begins?
  | .moveTo _ => some true
  | .closeFigure => some false
  | _ => none

/-- Whether what a record adds to a path begins with a move, if it adds anything. -/
def Entry.begins? (plus : Bool) (e : Entry) : Option Bool :=
  (e.command plus).toOption.bind Command.begins?

end Record

namespace Playback

open Metafile.Record (Command Entry Kind PathUse Shape Survey)

/-! ### Shapes -/

/-- Lines between points begin with a move to the first of them, open or closed. -/
private theorem begins?_polylineOutline (closed : Bool) (ps : List (Point Int)) :
    begins? (polylineOutline closed ps) = if ps.isEmpty then none else some true := by
  cases ps with
  | nil => cases closed <;> rfl
  | cons p rest => cases closed <;> rfl

/-- Points with types begin with a move if the first of them is one. -/
private theorem begins?_stepsOutline {steps : List (Point Float × Nat)}
    (h : beginsWithMove steps = true) : begins? (stepsOutline steps) = some true := by
  cases steps with
  | nil => cases h
  | cons step rest =>
      obtain ⟨p, type⟩ := step
      have hmove : type / 2 = 3 := eq_of_beq h
      have hstep : begins? (stepOutline p type) = some true := by
        unfold stepOutline
        rw [hmove]
        rfl
      -- a curve would take two more points, but this is none
      match rest with
      | [] => rw [stepsOutline, Outline.begins?_append, hstep]; rfl; nofun
      | [second] => rw [stepsOutline, Outline.begins?_append, hstep]; rfl; nofun
      | second :: third :: others =>
          rw [stepsOutline, if_neg (by omega), Outline.begins?_append, hstep]
          rfl

/-- The outline of a shape begins as the shape says, whatever it depends on besides. -/
theorem begins?_shapeOutline (h : Heading) (shape : Shape) :
    begins? (shapeOutline h shape) = shape.begins? := by
  cases shape with
  | polyline ps closed => cases ps <;> cases closed <;> rfl
  | polylines groups closed =>
      rw [shapeOutline, Outline.begins?_flatMap, Shape.begins?]
      induction groups with
      | nil => rfl
      | cons ps rest ih =>
          rw [List.findSome?_cons, begins?_polylineOutline, List.all_cons, ih]
          cases ps <;> rfl
  | polylineTo ps => cases ps <;> rfl
  | curves ps => cases ps <;> rfl
  | curvesTo ps =>
      -- fewer than three points draw no curve
      match ps with
      | [] => rfl
      | [_] => rfl
      | [_, _] => rfl
      | _ :: _ :: _ :: _ => rw [Shape.begins?, if_neg (by simp)]; rfl
  | steps ps =>
      unfold shapeOutline
      dsimp only
      split
      · rename_i hmove
        exact begins?_stepsOutline hmove
      · rfl
  | rectangle b => rfl
  | roundRect b corner => rfl
  | ellipse b => rfl
  | arc form b start stop => cases form <;> rfl
  | angleArc center radius start sweep => rfl

/-- A shape that does not go on from the current position begins with a move. -/
theorem begins?_of_not_continues {shape : Shape} (h : continues shape = false) :
    shape.begins? ≠ some false := by
  cases shape with
  | polyline ps closed => cases ps <;> simp [Shape.begins?]
  | polylines groups closed => rw [Shape.begins?]; split <;> simp
  | curves ps => cases ps <;> simp [Shape.begins?]
  | arc form b start stop =>
      have hform : form ≠ .joined := by
        rintro rfl
        cases h
      rw [Shape.begins?, bne_iff_ne.2 hform]
      nofun
  | steps _ | rectangle _ | roundRect _ _ | ellipse _ => simp [Shape.begins?]
  | polylineTo _ | curvesTo _ | angleArc _ _ _ _ => cases h

namespace State

variable {setup : Setup} {uses : List PathUse} {s t : State} {e : Entry}

/-- A shape that is drawn on its own begins with a move: if it goes on, then to the current
position. -/
theorem ownOutline_begun (shape : Shape) (s : State) : Begun (s.ownOutline shape) := by
  unfold ownOutline
  split
  · nofun
  · rename_i hcontinues
    unfold Begun
    rw [begins?_shapeOutline]
    exact begins?_of_not_continues (Bool.eq_false_iff.2 hcontinues)

/-! ### The open path -/

/-- The outline of a command begins as the command says. -/
theorem begins?_outlineOf (c : Command) (s : State) : begins? (s.outlineOf c) = c.begins? := by
  cases c with
  | draw shape =>
      show begins? (s.place _) = _
      rw [place, Outline.begins?_map, begins?_shapeOutline]
      rfl
  | moveTo p => rfl
  | closeFigure => rfl
  | _ => rfl

/-- In an open bracket a record that does not close it goes on with the path. -/
theorem next_begins? (hopen : s.inPath = true) (hkeeps : closesPath e = false)
    (h : s.next setup uses e = (t, none)) :
    t.inPath = true ∧
      t.openPath.begins? = s.openPath.begins?.or (e.begins? setup.options.plus) := by
  obtain ⟨c, hc, hperform⟩ := next_eq_ok h
  obtain ⟨hbegin, hend, habort, hlast⟩ := closesPath_eq_false.1 hkeeps
  -- a command that keeps the bracket open adds to its path
  have hstays (before : Bool) : inPathAfter c before = before := by
    rw [inPathAfter_eq hc]
    split <;> first | rfl | contradiction
  obtain ⟨log, hlog⟩ := announce_eq setup e s
  have hopened : (s.announce setup e).inPath = true := by
    rw [hlog]
    exact hopen
  have hpath := perform_openPath setup uses (s.announce setup e) hstays
  rw [hperform, commandsOf, if_pos hopened] at hpath
  refine ⟨(perform_bracket hperform).1.trans ((hstays _).trans hopened), ?_⟩
  rw [show t.openPath = _ from hpath, Outline.begins?_append, begins?_outlineOf,
    Entry.begins?, hc, hlog]
  rfl

/-- The path of a bracket begins as the first of its records that adds anything. -/
theorem steps_begins? {records : List Entry} (hopen : s.inPath = true)
    (hkeeps : ∀ e ∈ records, closesPath e = false)
    (h : s.steps setup uses records = (t, none)) :
    t.inPath = true ∧ t.openPath.begins? =
      s.openPath.begins?.or (records.findSome? (Entry.begins? setup.options.plus)) := by
  induction records generalizing s with
  | nil =>
      obtain ⟨rfl, _⟩ := Prod.mk.inj h
      exact ⟨hopen, (Option.or_none ..).symm⟩
  | cons e rest ih =>
      change s.steps setup uses ([e] ++ rest) = (t, none) at h
      obtain ⟨u, hfirst, hrest⟩ := steps_split h
      obtain ⟨hone, hmany⟩ := List.forall_mem_cons.1 hkeeps
      obtain ⟨hopened, hfirstBegins⟩ := next_begins? hopen hone (steps_singleton.1 hfirst)
      obtain ⟨hstill, hrestBegins⟩ := ih hopened hmany hrest
      refine ⟨hstill, ?_⟩
      rw [hrestBegins, hfirstBegins, Option.or_assoc, List.findSome?_cons]
      cases e.begins? setup.options.plus <;> rfl

/-- A record that begins a path leaves it empty. -/
theorem next_of_begin (hbegin : e.kind? = some .beginPath) (h : s.next setup uses e = (t, none)) :
    t.inPath = true ∧ t.openPath = [] := by
  cases next_trailStep h with
  | began _ b hbracket hdrawn _ =>
      rw [inPath, openPath, hbracket]
      exact ⟨rfl, congrArg Trail.outline hdrawn⟩
  | ended hkind _ _ => simp [hbegin] at hkind
  | aborted hkind _ _ => simp [hbegin] at hkind
  | flattened hkind _ _ => simp [hbegin] at hkind
  | grown hother _ _ _ => exact absurd hbegin hother

end State

/-! ### Brackets -/

/-- The records of the bracket that is open before some records: those up to the one that closes
it. -/
def bracketRecords (later : List Entry) : List Entry :=
  later.takeWhile fun e => !State.closesPath e

/-- In every bracket the first record that adds to the path begins with a move. -/
def BegunPaths (plus : Bool) (entries : List Entry) : Prop :=
  ∀ b later, b :: later <:+ entries → b.kind? = some .beginPath →
    (bracketRecords later).findSome? (Entry.begins? plus) ≠ some false

/-- Whether it does can be computed. -/
instance (plus : Bool) (entries : List Entry) : Decidable (BegunPaths plus entries) :=
  decidable_of_iff (∀ l ∈ entries.tails, ∀ b ∈ l.head?, b.kind? = some .beginPath →
      (bracketRecords l.tail).findSome? (Entry.begins? plus) ≠ some false) (by
    simp only [List.mem_tails, BegunPaths]
    constructor
    · intro h b later hsuffix
      exact h (b :: later) hsuffix b rfl
    · intro h l hsuffix b hb
      obtain ⟨later, rfl⟩ := List.head?_eq_some_iff.1 hb
      exact h b later hsuffix)

namespace Reaches

variable {setup : Setup} {stream : Bytes} {survey : Survey} {earlier later : List Entry}
  {t : State}

/-- At every boundary the path of the open bracket begins as the first record that has added to
it. -/
theorem begins?_openPath (h : Reaches setup stream survey earlier later t)
    (hopen : t.inPath = true) :
    ∃ opened b inside, earlier = opened ++ b :: inside ∧ b.kind? = some .beginPath ∧
      (∀ e ∈ inside, State.closesPath e = false) ∧
      t.openPath.begins? = inside.findSome? (Entry.begins? setup.options.plus) := by
  obtain ⟨opened, b, inside, s, hsplit, _, hopening⟩ := h.opening hopen
  obtain ⟨r, _, hlast⟩ := hopening.reaches.cut
  obtain ⟨hbegun, hempty⟩ := State.next_of_begin hopening.begins (State.steps_singleton.1 hlast)
  have hbegins := (State.steps_begins? hbegun hopening.keeps hopening.played).2
  rw [hempty] at hbegins
  exact ⟨opened, b, inside, hsplit, hopening.begins, hopening.keeps, hbegins⟩

/-- If all brackets begin with a move, then at every boundary so does the path of the open one. -/
theorem openPath_begun (h : Reaches setup stream survey earlier later t)
    (hpaths : BegunPaths setup.options.plus survey.entries) : Begun t.openPath := by
  cases hopen : t.inPath with
  | false =>
      unfold State.openPath
      rw [State.bracket_of_closed hopen]
      exact Outline.begun_nil
  | true =>
      obtain ⟨opened, b, inside, rfl, hbegin, hkeeps, hbegins⟩ := h.begins?_openPath hopen
      have hsuffix : b :: (inside ++ later) <:+ survey.entries :=
        ⟨opened, by rw [h.split, List.append_assoc]; rfl⟩
      have hbracket := hpaths b _ hsuffix hbegin
      -- the records of the bracket so far are in front of those that are still to come
      have hinside : bracketRecords (inside ++ later) = inside ++ bracketRecords later :=
        List.takeWhile_append_of_pos fun e he => by rw [hkeeps e he]; rfl
      rw [hinside, List.findSome?_append, ← hbegins] at hbracket
      intro hfalse
      rw [hfalse] at hbracket
      exact hbracket rfl

/-- If all brackets begin with a move, then so does what a record may take as clip region. -/
theorem trail_begun (h : Reaches setup stream survey earlier later t)
    (hpaths : BegunPaths setup.options.plus survey.entries) : Begun t.trail.outline := by
  refine h.induction (motive := fun _ _ t => Begun t.trail.outline) Outline.begun_nil ?_
  intro earlier e later s t c hs ih hc hperform
  have hnext : s.next setup survey.paths e = (t, none) :=
    (State.next_of_command hc).trans hperform
  cases State.next_trailStep hnext with
  | began _ _ _ _ htrail => rw [htrail]; exact Outline.begun_nil
  | ended _ _ htrail => rwa [htrail]
  | aborted _ _ htrail => rw [htrail]; exact Outline.begun_nil
  | flattened _ _ htrail =>
      unfold Begun
      rw [htrail, Outline.begins?_flatten]
      exact ih
  | grown _ _ _ hgrows =>
      cases hgrows with
      | outside _ _ htrail => rwa [htrail]
      | inside b o _ hafter _ =>
          -- inside of a bracket the trail has the lines of the open path
          have hreaches := hs.concat hnext
          have hopen := hreaches.openPath_begun hpaths
          unfold State.openPath Begun at hopen
          rw [hafter] at hopen
          unfold Begun
          rw [(hreaches.retraces _ hafter).begins?_eq]
          exact hopen

end Reaches

end Playback

end Metafile
