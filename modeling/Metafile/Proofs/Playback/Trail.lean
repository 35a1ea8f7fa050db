import Metafile.Proofs.Geometry.Flatten
import Metafile.Proofs.Playback.Held

/-!
# `Metafile.Proofs.Playback.Trail`: the path that is kept and the path that is shown

What is drawn in a bracket is kept twice. The bracket collects the path that is written into the
document, and the trail of the state is the path that a later record may take as clip region. Only
the trail is changed by the records that flatten and abort paths.

`Reaches.trail_shown` states how far the two agree. While a bracket is open, the path data in the
text is that of the trail, unless the trail was flattened since the bracket began. While none is
open, no record but those that begin, abort or flatten a path touches the trail, so selecting it
as clip region combines the lines of the path that the last bracket has shown (`Shows`). An abort
also forgets the path of a bracket that was ended before it: `clip_forgets_aborted_path`.
-/

set_option autoImplicit false

namespace Metafile.Playback

open Metafile.Markup (Document Piece)
open Metafile.Record (Command Entry Kind PathUse Survey)
open Metafile.Outline (SameLines)

namespace State

variable {setup : Setup} {uses : List PathUse} {s t u : State} {e : Entry}

/-! ### One command -/

/-- The trail and the open bracket go on by the same outline, and neither does where no bracket is
open. -/
inductive Grows (s t : State) : Prop
  | outside (hbefore : s.bracket = none) (hafter : t.bracket = none) (h : t.trail = s.trail)
  | inside (b : Bracket) (o : Outline Float) (hbefore : s.bracket = some b)
      (hafter : t.bracket = some { b with drawn := b.drawn.append o })
      (h : t.trail = s.trail.append o)

/-- What touches neither the trail nor the bracket adds nothing to them. -/
theorem Grows.of_same (hbracket : t.bracket = s.bracket) (htrail : t.trail = s.trail) :
    Grows s t := by
  cases hbefore : s.bracket with
  | none => exact .outside hbefore (hbracket.trans hbefore) htrail
  | some b => exact .inside b [] hbefore (hbracket.trans hbefore) htrail

/-- A state that is known in full, where neither the bracket nor the trail is another one. -/
theorem Grows.of_eq (heq : t = u) (hbracket : u.bracket = s.bracket)
    (htrail : u.trail = s.trail) :
    Grows s t :=
  heq ▸ .of_same hbracket htrail

/-- An outline that is added to the open path is added to both. -/
theorem extend_grows {b : Bracket} (o : Outline Float) (h : s.bracket = some b) :
    Grows s (s.extend o b) :=
  .inside b (s.place o) h rfl rfl

/-- A shape goes into both inside of a path, and into neither outside. -/
theorem draw_grows (shape : Record.Shape) (s : State) : Grows s (s.draw shape) := by
  unfold draw
  split
  · exact extend_grows _ ‹_›
  · split
    · exact .of_same rfl rfl
    · obtain ⟨written, held, heq⟩ :=
        emit_eq #[s.shapePiece shape] { s with position := s.ownStop shape }
      exact .of_eq heq rfl rfl

/-- Whether a command does more to the path than to add to it. -/
def handlesPath : Command → Bool
  | .beginPath | .endPath | .abortPath | .flattenPath | .endOfFile => true
  | _ => false

/-- Records that begin, abort or flatten a path have such commands. -/
theorem soleKind?_of_draws {c : Command} (hdraws : handlesPath c = false) :
    c.soleKind? ≠ some .beginPath ∧ c.soleKind? ≠ some .abortPath ∧
      c.soleKind? ≠ some .flattenPath := by
  revert hdraws
  cases c <;> simp [handlesPath, Command.soleKind?]

/-- All other commands add to the path of an open bracket, or leave the path alone. -/
theorem perform_grows (setup : Setup) (uses : List PathUse) {c : Command} (s : State)
    (hdraws : handlesPath c = false) : Grows s (s.perform setup uses c).1 := by
  -- only drawing, moving and closing touch the trail, and all others are read off their change
  cases c with
  | draw shape => exact draw_grows shape s
  | moveTo p =>
      show Grows s (s.moveTo (.ofInt p))
      unfold moveTo
      split
      · exact extend_grows _ ‹_›
      · exact .of_same rfl rfl
  | closeFigure =>
      show Grows s s.closeFigure
      unfold closeFigure
      split
      · exact extend_grows _ ‹_›
      · exact .of_same rfl rfl
  | header header =>
      obtain ⟨written, held, log, heq⟩ := beginDocument_eq setup.options header s
      exact .of_eq heq rfl rfl
  | mapMode code =>
      obtain ⟨mapping, log, heq⟩ := setMapMode_eq code s
      exact .of_eq heq rfl rfl
  | restore relative =>
      obtain ⟨context, saved, wrapped, failed, written, held, log, heq⟩ := restore_eq relative s
      exact .of_eq (congrArg Prod.fst heq) rfl rfl
  | transform change =>
      obtain ⟨world, wrapped, written, held, log, heq⟩ := transform_eq change s
      exact .of_eq heq rfl rfl
  | create index tool =>
      obtain ⟨objects, heq⟩ := put_eq index tool s
      exact .of_eq heq rfl rfl
  | createPattern index picture twoColors =>
      obtain ⟨objects, images, written, held, log, heq⟩ :=
        createPattern_eq setup.encode index picture twoColors s
      exact .of_eq heq rfl rfl
  | select handle =>
      obtain ⟨context, log, heq⟩ := select_eq handle s
      exact .of_eq heq rfl rfl
  | delete handle =>
      obtain ⟨objects, heq⟩ := delete_eq handle s
      exact .of_eq heq rfl rfl
  | clip change =>
      obtain ⟨clip, clips, written, held, log, heq⟩ := changeClip_eq setup.combine change s
      exact .of_eq heq rfl rfl
  | blit area =>
      obtain ⟨written, held, log, heq⟩ := blit_eq setup.encode area s
      exact .of_eq heq rfl rfl
  | label origin text =>
      obtain ⟨written, held, heq⟩ := emit_eq #[s.labelPiece origin text] s
      exact .of_eq heq rfl rfl
  | plus records =>
      obtain ⟨written, held, log, heq⟩ :=
        runPlus_eq (·.play setup.options.verbose s.page.scale records) s
      exact .of_eq heq rfl rfl
  | set _ | layout _ | save | nothing => exact .of_same rfl rfl
  | beginPath | endPath | abortPath | flattenPath | endOfFile => cases hdraws

/-! ### One record -/

/-- The end of a bracket leaves the trail, so that clip regions can be made from it. -/
theorem endPath_trail (uses : List PathUse) (s : State) : (s.endPath uses).1.trail = s.trail := by
  obtain ⟨world, bracket, wrapped, written, held, heq⟩ := endPath_eq uses s
  exact (congrArg trail heq).trans rfl

/-- The end of the document leaves the trail. -/
theorem endDocument_trail (o : Options) (s : State) : (s.endDocument o).trail = s.trail := by
  obtain ⟨player, log, hend⟩ := endDocument_eq o s
  obtain ⟨written, held, hgiven⟩ := abandon_eq s
  rw [hend, hgiven]

/-- What one record does to the trail and to the open bracket. -/
inductive TrailStep (e : Entry) (s t : State) : Prop
  | began (h : e.kind? = some .beginPath) (b : Bracket) (hbracket : t.bracket = some b)
      (hdrawn : b.drawn = .empty) (htrail : t.trail = .empty)
  | ended (h : e.kind? = some .endPath ∨ e.kind? = some .endOfFile) (hbracket : t.bracket = none)
      (htrail : t.trail = s.trail)
  | aborted (h : e.kind? = some .abortPath) (hbracket : t.bracket = none)
      (htrail : t.trail = .empty)
  | flattened (h : e.kind? = some .flattenPath) (hbracket : t.bracket = s.bracket)
      (htrail : t.trail.outline = s.trail.outline.flatten)
  | grown (hbegin : e.kind? ≠ some .beginPath) (habort : e.kind? ≠ some .abortPath)
      (hflatten : e.kind? ≠ some .flattenPath) (h : Grows s t)

/-- A record that is played without a fault does one of five things to the trail. -/
theorem next_trailStep (h : s.next setup uses e = (t, none)) : TrailStep e s t := by
  obtain ⟨c, hc, hperform⟩ := next_eq_ok h
  obtain ⟨log, hlog⟩ := announce_eq setup e s
  rw [hlog] at hperform
  -- the commands of these kinds tell their records apart
  have hsole (kind : Kind) (h : kind.isSole = true) :
      c.soleKind? = some kind ↔ e.kind? = some kind :=
    Entry.command_soleKind? hc h
  have hclosed (hstays : inPathAfter c s.inPath = false) : t.bracket = none :=
    bracket_of_closed ((perform_bracket hperform).1.trans hstays)
  -- a record that handles no path can only add to the trail
  cases hhandles : handlesPath c with
  | false =>
      have hgrows := perform_grows setup uses { s with log } hhandles
      rw [hperform] at hgrows
      obtain ⟨hbegin, habort, hflatten⟩ := soleKind?_of_draws hhandles
      refine .grown (fun hkind => hbegin ((hsole _ rfl).2 hkind))
        (fun hkind => habort ((hsole _ rfl).2 hkind))
        (fun hkind => hflatten ((hsole _ rfl).2 hkind)) ?_
      cases hgrows with
      | outside hbefore hafter h => exact .outside hbefore hafter h
      | inside b o hbefore hafter h => exact .inside b o hbefore hafter h
  | true =>
      cases c with
      | beginPath =>
          change beginPath uses { s with log } = (t, none) at hperform
          unfold beginPath at hperform
          simp only at hperform
          split at hperform
          · cases hperform
          · obtain ⟨rfl, _⟩ := Prod.mk.inj hperform
            exact .began ((hsole _ rfl).1 rfl) _ rfl rfl rfl
      | endPath =>
          have htrail := endPath_trail uses { s with log }
          rw [show endPath uses { s with log } = (t, none) from hperform] at htrail
          exact .ended (.inl ((hsole _ rfl).1 rfl)) (hclosed rfl) htrail
      | endOfFile =>
          obtain ⟨rfl, _⟩ := Prod.mk.inj hperform
          exact .ended (.inr ((hsole _ rfl).1 rfl)) (hclosed rfl)
            (endDocument_trail setup.options { s with log })
      | abortPath =>
          have hbracket := hclosed rfl
          obtain ⟨rfl, _⟩ := Prod.mk.inj hperform
          exact .aborted ((hsole _ rfl).1 rfl) hbracket rfl
      | flattenPath =>
          obtain ⟨rfl, _⟩ := Prod.mk.inj hperform
          exact .flattened ((hsole _ rfl).1 rfl) rfl (Trail.outline_ofOutline _)
      | _ => cases hhandles

/-- While no path is open, a record leaves the trail alone unless it begins, aborts or flattens a
path, also where the record cannot be done. -/
theorem next_trail_of_closed (setup : Setup) (uses : List PathUse) (hclosed : s.inPath = false)
    (hbegin : e.kind? ≠ some .beginPath) (habort : e.kind? ≠ some .abortPath)
    (hflatten : e.kind? ≠ some .flattenPath) : (s.next setup uses e).1.trail = s.trail := by
  obtain ⟨log, hlog⟩ := announce_eq setup e s
  rw [next, step_eq, hlog]
  cases hc : e.command setup.options.plus with
  | error cause => rfl
  | ok c =>
      cases hhandles : handlesPath c with
      | false =>
          cases perform_grows setup uses { s with log } hhandles with
          | outside _ _ htrail => exact htrail
          | inside b _ hbefore _ _ =>
              -- no path is open that the record could add to
              rw [inPath, show s.bracket = some b from hbefore] at hclosed
              cases hclosed
      | true =>
          cases c with
          | endPath => exact endPath_trail uses { s with log }
          | endOfFile => exact endDocument_trail setup.options { s with log }
          | beginPath => exact absurd ((Entry.command_soleKind? hc rfl).1 rfl) hbegin
          | abortPath => exact absurd ((Entry.command_soleKind? hc rfl).1 rfl) habort
          | flattenPath => exact absurd ((Entry.command_soleKind? hc rfl).1 rfl) hflatten
          | _ => cases hhandles

/-! ### The trail and the open bracket -/

/-- The trail has the lines of the path in the open bracket, however both go on. -/
def Retraces (s : State) : Prop :=
  ∀ b, s.bracket = some b → SameLines s.trail.outline b.drawn.outline

/-- The trail is the path in the open bracket. -/
def Copies (s : State) : Prop :=
  ∀ b, s.bracket = some b → s.trail = b.drawn

/-- A step keeps the lines of the trail those of the open bracket. -/
theorem TrailStep.retraces (h : TrailStep e s t) (hs : Retraces s) : Retraces t := by
  intro b hb
  cases h with
  | began _ b' hbracket hdrawn htrail =>
      obtain rfl : b' = b := Option.some.inj (hbracket.symm.trans hb)
      rw [htrail, hdrawn]
      exact .refl _
  | ended _ hbracket _ => rw [hbracket] at hb; cases hb
  | aborted _ hbracket _ => rw [hbracket] at hb; cases hb
  | flattened _ hbracket htrail =>
      rw [htrail]
      exact (hs b (hbracket.symm.trans hb)).flatten_left
  | grown _ _ _ h =>
      cases h with
      | outside _ hafter _ => rw [hafter] at hb; cases hb
      | inside b' o hbefore hafter htrail =>
          obtain rfl := Option.some.inj (hafter.symm.trans hb)
          rw [htrail, Trail.outline_append, Trail.outline_append]
          exact (hs b' hbefore).append o

/-- A record that begins a path makes the trail a copy, and one that does not flatten it keeps the
trail one. -/
theorem TrailStep.copies (h : TrailStep e s t)
    (hs : e.kind? = some .beginPath ∨ e.kind? ≠ some .flattenPath ∧ Copies s) : Copies t := by
  intro b hb
  cases h with
  | began _ b' hbracket hdrawn htrail =>
      obtain rfl : b' = b := Option.some.inj (hbracket.symm.trans hb)
      rw [htrail, hdrawn]
  | ended _ hbracket _ => rw [hbracket] at hb; cases hb
  | aborted _ hbracket _ => rw [hbracket] at hb; cases hb
  | flattened hkind _ _ => simp [hkind] at hs
  | grown hbegin _ _ h =>
      obtain ⟨_, hs⟩ := hs.resolve_left hbegin
      cases h with
      | outside _ hafter _ => rw [hafter] at hb; cases hb
      | inside b' o hbefore hafter htrail =>
          obtain rfl := Option.some.inj (hafter.symm.trans hb)
          rw [htrail, hs b' hbefore]

/-- Records that do not flatten the trail keep it a copy. -/
theorem steps_copies {records : List Entry} (hs : Copies s)
    (hflatten : ∀ e ∈ records, e.kind? ≠ some .flattenPath)
    (h : s.steps setup uses records = (t, none)) : Copies t := by
  induction records generalizing s with
  | nil =>
      obtain ⟨rfl, _⟩ := Prod.mk.inj h
      exact hs
  | cons e rest ih =>
      change s.steps setup uses ([e] ++ rest) = (t, none) at h
      obtain ⟨u, hfirst, hrest⟩ := steps_split h
      obtain ⟨hone, hmany⟩ := List.forall_mem_cons.1 hflatten
      exact ih ((next_trailStep (steps_singleton.1 hfirst)).copies (.inr ⟨hone, hs⟩)) hmany hrest

/-- Selecting the trail as clip region hands its lines to the combiner. -/
theorem clip_path_region (combine : Clip.Combiner) (op : Clip.Operation) (s : State) :
    (s.changeClip combine (.path op)).context.clip.map Device.ClipRegion.outline =
      some (combine (s.context.clip.map Device.ClipRegion.outline)
        s.trail.outline.flatten op) := by
  obtain ⟨id, clips, written, held, heq⟩ := setClip_eq
    (combine.apply (s.context.clip.map Device.ClipRegion.outline) s.trail.outline op) s
  show (s.setClip _).context.clip.map Device.ClipRegion.outline = _
  rw [heq]
  rfl

end State

/-! ### What the last bracket has shown -/

/-- The outline that the last bracket has shown at a boundary at which none is open. -/
inductive Shows (setup : Setup) (stream : Bytes) (survey : Survey) (earlier later : List Entry) :
    Outline Float → Prop
  /-- The record `b` began the bracket, and `e` ended it and wrote its path. Since then no path
  was begun or aborted. -/
  | ended {opened inside after : List Entry} {b e : Entry} {s₀ s : State} {bracket : Bracket}
      (hsplit : earlier = opened ++ b :: inside ++ e :: after)
      (hopening : Opening setup stream survey opened b inside (e :: after ++ later) s₀ s)
      (hbracket : s.bracket = some bracket)
      (hend : e.kind? = some .endPath)
      (hwritten : ∃ u paint more, s.next setup survey.paths e = (u, none) ∧
        u.written = s.written.push (bracket.piece paint) ++ s.held ++ more)
      (hafter : ∀ x ∈ after, x.kind? ≠ some .beginPath ∧ x.kind? ≠ some .abortPath) :
      Shows setup stream survey earlier later bracket.drawn.outline
  /-- Every path that was begun was aborted later. -/
  | nothing (h : ∀ opened b inside, earlier = opened ++ b :: inside → b.kind? = some .beginPath →
        ∃ x ∈ inside, x.kind? = some .abortPath) :
      Shows setup stream survey earlier later []

namespace Shows

variable {setup : Setup} {stream : Bytes} {survey : Survey} {earlier later : List Entry}
  {e : Entry} {shown : Outline Float}

/-- A record that begins no path and aborts none leaves what is shown. -/
theorem concat (h : Shows setup stream survey earlier (e :: later) shown)
    (hbegin : e.kind? ≠ some .beginPath) (habort : e.kind? ≠ some .abortPath) :
    Shows setup stream survey (earlier ++ [e]) later shown := by
  cases h with
  | @ended opened inside after b e' s₀ s bracket hsplit hopening hbracket hend hwritten hafter =>
      -- the record is one more of those after the end of the path
      have hlonger : earlier ++ [e] = opened ++ b :: inside ++ e' :: (after ++ [e]) := by
        rw [hsplit]
        simp
      have hlist : e' :: after ++ e :: later = e' :: (after ++ [e]) ++ later := by simp
      rw [hlist] at hopening
      refine .ended hlonger hopening hbracket hend hwritten ?_
      exact List.forall_mem_append.2 ⟨hafter, List.forall_mem_singleton.2 ⟨hbegin, habort⟩⟩
  | nothing h =>
      refine .nothing fun opened b inside hsplit hb => ?_
      rcases List.eq_nil_or_concat inside with rfl | ⟨inside, last, rfl⟩
      · -- the record itself begins no path
        obtain rfl : e = b := (List.cons.inj (List.append_inj' hsplit rfl).2).1
        exact absurd hb hbegin
      · rw [List.concat_eq_append, ← List.cons_append, ← List.append_assoc] at hsplit
        obtain ⟨x, hx, hkind⟩ := h opened b inside (List.append_inj' hsplit rfl).1 hb
        exact ⟨x, by rw [List.concat_eq_append]; exact List.mem_append_left _ hx, hkind⟩

/-- After a record that aborts a path nothing is shown. -/
theorem of_abort (habort : e.kind? = some .abortPath) :
    Shows setup stream survey (earlier ++ [e]) later [] := by
  refine .nothing fun opened b inside hsplit hb => ?_
  rcases List.eq_nil_or_concat inside with rfl | ⟨inside, last, rfl⟩
  · obtain rfl : e = b := (List.cons.inj (List.append_inj' hsplit rfl).2).1
    rw [habort] at hb
    cases hb
  · rw [List.concat_eq_append, ← List.cons_append, ← List.append_assoc] at hsplit
    obtain rfl : e = last := (List.cons.inj (List.append_inj' hsplit rfl).2).1
    exact ⟨e, by rw [List.concat_eq_append]; simp, habort⟩

end Shows

namespace Reaches

variable {setup : Setup} {stream : Bytes} {survey : Survey} {earlier later : List Entry}
  {t : State}

/-- At every boundary the trail has the lines of the path in the open bracket. -/
theorem retraces (h : Reaches setup stream survey earlier later t) : State.Retraces t := by
  refine h.induction (motive := fun _ _ t => State.Retraces t) (fun _ hnone => by cases hnone) ?_
  intro earlier e later s t c _ ih hc hperform
  have hnext : s.next setup survey.paths e = (t, none) :=
    (State.next_of_command hc).trans hperform
  exact (State.next_trailStep hnext).retraces ih

/-- Where no path is open, the trail has the lines of what the last bracket has shown. -/
theorem shows_trail (h : Reaches setup stream survey earlier later t) (hlater : later ≠ [])
    (hclosed : t.inPath = false) :
    ∃ shown, Shows setup stream survey earlier later shown ∧
      t.trail.outline.flatten = shown.flatten := by
  refine h.induction (motive := fun earlier later t => later ≠ [] → t.inPath = false →
    ∃ shown, Shows setup stream survey earlier later shown ∧
      t.trail.outline.flatten = shown.flatten)
    (fun _ _ => ⟨[], .nothing (by simp), rfl⟩) ?_ hlater hclosed
  intro earlier e later s t c hs ih hc hperform hlater hclosed
  have hnext : s.next setup survey.paths e = (t, none) :=
    (State.next_of_command hc).trans hperform
  have hlast : e.kind? ≠ some .endOfFile := fun hend =>
    hlater ((Survey.end_last hs.accepted hs.split).2.1 hend)
  have ih := ih (List.cons_ne_nil e later)
  cases State.next_trailStep hnext with
  | began _ b hbracket _ _ =>
      rw [State.inPath, hbracket] at hclosed
      cases hclosed
  | ended hkind _ htrail =>
      have hend := hkind.resolve_right hlast
      rw [htrail]
      cases hopen : s.inPath with
      | false =>
          -- no path was open, and the record does nothing
          obtain ⟨shown, hshows, hlines⟩ := ih hopen
          exact ⟨shown, hshows.concat (by simp [hend]) (by simp [hend]), hlines⟩
      | true =>
          obtain ⟨opened, b, inside, s₀, hsplit, _, hopening⟩ := hs.opening hopen
          obtain ⟨bracket, hbracket⟩ := Option.isSome_iff_exists.1 hopen
          obtain ⟨hopened, huse⟩ := hs.use_of_end hopen
          obtain ⟨u, paint, more, hu, _, hwritten, _⟩ := State.closes hbracket
            (by simp [State.closesPath, hend]) hs.use_of_begin hopened huse
          exact ⟨bracket.drawn.outline, .ended (by rw [hsplit]) hopening hbracket hend
            ⟨u, paint, more, hu, hwritten⟩ (by simp), (hs.retraces bracket hbracket).flatten_eq⟩
  | aborted hkind _ htrail =>
      rw [htrail]
      exact ⟨[], .of_abort hkind, rfl⟩
  | flattened hkind hbracket htrail =>
      obtain ⟨shown, hshows, hlines⟩ := ih (by rw [State.inPath, ← hbracket]; exact hclosed)
      refine ⟨shown, hshows.concat (by simp [hkind]) (by simp [hkind]), ?_⟩
      rw [htrail, (SameLines.refl s.trail.outline).flatten_left.flatten_eq, hlines]
  | grown hbegin habort _ hgrows =>
      cases hgrows with
      | outside hbefore _ htrail =>
          obtain ⟨shown, hshows, hlines⟩ := ih (by rw [State.inPath, hbefore]; rfl)
          exact ⟨shown, hshows.concat hbegin habort, by rw [htrail, hlines]⟩
      | inside b o _ hafter _ =>
          rw [State.inPath, hafter] at hclosed
          cases hclosed

/-- While a path is open, the path data in the text is that of the trail, unless the trail was
flattened since the path began. While none is open, a record leaves the trail alone unless it
begins, aborts or flattens a path. So a record that selects the path as clip region combines the
lines of what the last bracket has shown, or of nothing where the last path was aborted. -/
theorem trail_shown (h : Reaches setup stream survey earlier later t) (qualifier : String) :
    (t.inPath = true → ∃ opened b inside s bracket, earlier = opened ++ b :: inside ∧
      Opening setup stream survey opened b inside later s t ∧ t.bracket = some bracket ∧
      ((∀ x ∈ inside, x.kind? ≠ some .flattenPath) →
        t.text qualifier = t.textBefore qualifier bracket ++ "d=\"" ++
          String.ofList (Outline.chars t.trail.outline))) ∧
    (t.inPath = false → ∀ e rest, later = e :: rest →
      (e.kind? ≠ some .beginPath → e.kind? ≠ some .abortPath → e.kind? ≠ some .flattenPath →
        (t.next setup survey.paths e).1.trail = t.trail) ∧
      ∃ shown, Shows setup stream survey earlier later shown ∧
        ∀ u, e.kind? = some .selectClipPath → t.next setup survey.paths e = (u, none) →
          ∃ op, e.command setup.options.plus = .ok (.clip (.path op)) ∧
            u.context.clip.map Device.ClipRegion.outline =
              some (setup.combine (t.context.clip.map Device.ClipRegion.outline) shown.flatten
                op)) := by
  refine ⟨fun hopen => ?_, fun hclosed => ?_⟩
  · obtain ⟨opened, b, inside, s, hsplit, _, hopening⟩ := h.opening hopen
    obtain ⟨bracket, hbracket⟩ := Option.isSome_iff_exists.1 hopen
    refine ⟨opened, b, inside, s, bracket, hsplit, hopening, hbracket, fun hflatten => ?_⟩
    -- the record that began the path has made the trail a copy of it
    obtain ⟨r, _, hlast⟩ := hopening.reaches.cut
    have hfresh := (State.next_trailStep (State.steps_singleton.1 hlast)).copies
      (.inl hopening.begins)
    have hcopies := State.steps_copies hfresh hflatten hopening.played
    rw [State.text_of_open hbracket, hcopies bracket hbracket]
  · rintro e rest rfl
    refine ⟨fun hbegin habort hflatten =>
      State.next_trail_of_closed setup survey.paths hclosed hbegin habort hflatten, ?_⟩
    obtain ⟨shown, hshows, hlines⟩ := h.shows_trail (List.cons_ne_nil e rest) hclosed
    refine ⟨shown, hshows, fun u hkind hnext => ?_⟩
    obtain ⟨c, hc, hperform⟩ := State.next_eq_ok hnext
    obtain ⟨op, rfl⟩ := Record.Entry.command_of_selectClipPath hkind hc
    obtain ⟨log, hlog⟩ := State.announce_eq setup e t
    obtain ⟨rfl, _⟩ := Prod.mk.inj hperform
    refine ⟨op, hc, ?_⟩
    rw [State.clip_path_region, hlog, ← hlines]

end Reaches

/-- The records of a path with a line. -/
def lineRecords : List (Kind × Bytes) :=
  [(.header, List.replicate 80 0), (.beginPath, []), (.moveTo, List.replicate 8 0),
    (.lineTo, List.replicate 8 1), (.endPath, []), (.strokePath, List.replicate 16 0)]

/-- A path is stroked and then selected as clip region. -/
def clippedStream : Bytes :=
  Record.streamOf (lineRecords ++ [(.selectClipPath, [5, 0, 0, 0]),
    (.endOfFile, List.replicate 12 0)])

/-- The records of the stream with a clip region. -/
def clippedEntries : List Entry := (Survey.ofStream clippedStream).entries

/-- The clip region has the lines of the path that was stroked. -/
theorem trail_shown_before_clip :
    ∃ e later t u shown op,
      Reaches .plain clippedStream (.ofStream clippedStream) (clippedEntries.take 6)
        (e :: later) t ∧
      t.inPath = false ∧ t.next .plain (Survey.ofStream clippedStream).paths e = (u, none) ∧
      Shows .plain clippedStream (.ofStream clippedStream) (clippedEntries.take 6) (e :: later)
        shown ∧
      u.context.clip.map Device.ClipRegion.outline =
        some (Setup.plain.combine (t.context.clip.map Device.ClipRegion.outline) shown.flatten
          op) := by
  have h : Reaches .plain clippedStream _ (clippedEntries.take 6) (clippedEntries.drop 6) _ :=
    .of_steps 6 (by decide +kernel) (by decide +kernel)
  rw [show clippedEntries.drop 6 = ⟨160, 67, Kind.selectClipPath.record [5, 0, 0, 0]⟩ ::
    clippedEntries.drop 7 by decide +kernel] at h
  obtain ⟨_, hselect⟩ := h.trail_shown ""
  have hclosed : ((State.start (.ofStream clippedStream)).steps .plain
      (Survey.ofStream clippedStream).paths (clippedEntries.take 6)).1.inPath = false := by
    decide +kernel
  obtain ⟨_, shown, hshows, hregion⟩ := hselect hclosed _ _ rfl
  obtain ⟨op, _, hclip⟩ := hregion _ (by decide) (Prod.ext rfl (by decide +kernel))
  exact ⟨_, _, _, _, shown, op, h, hclosed, Prod.ext rfl (by decide +kernel), hshows, hclip⟩

/-- A path is stroked, and a record that aborts a path comes before the one that selects it. -/
def forgottenStream : Bytes :=
  Record.streamOf (lineRecords ++ [(.abortPath, []), (.selectClipPath, [5, 0, 0, 0]),
    (.endOfFile, List.replicate 12 0)])

/-- The records of the stream with a path that is forgotten. -/
def forgottenEntries : List Entry := (Survey.ofStream forgottenStream).entries

/-- The bracket has shown a line, and no later bracket is begun. But no line is in the clip
region, although the combiner takes over whatever it is given. -/
theorem clip_forgets_aborted_path :
    ∃ s bracket u region,
      Reaches .plain forgottenStream (.ofStream forgottenStream) (forgottenEntries.take 4)
        (forgottenEntries.drop 4) s ∧
      s.bracket = some bracket ∧ bracket.drawn.outline.length = 2 ∧
      bracket.drawn.outline.flatten.length = 2 ∧
      ((forgottenEntries.drop 4).take 4).map Entry.kind? =
        [some .endPath, some .strokePath, some .abortPath, some .selectClipPath] ∧
      Reaches .plain forgottenStream (.ofStream forgottenStream) (forgottenEntries.take 8)
        (forgottenEntries.drop 8) u ∧
      u.context.clip = some region ∧ region.outline.length = 0 := by
  have hs :
      Reaches .plain forgottenStream _ (forgottenEntries.take 4) (forgottenEntries.drop 4) _ :=
    .of_steps 4 (by decide +kernel) (by decide +kernel)
  have hu :
      Reaches .plain forgottenStream _ (forgottenEntries.take 8) (forgottenEntries.drop 8) _ :=
    .of_steps 8 (by decide +kernel) (by decide +kernel)
  have hbracket : ((State.start (.ofStream forgottenStream)).steps .plain
      (Survey.ofStream forgottenStream).paths (forgottenEntries.take 4)).1.bracket.map (fun b =>
        (b.drawn.outline.length, b.drawn.outline.flatten.length)) = some (2, 2) := by
    decide +kernel
  have hregion : ((State.start (.ofStream forgottenStream)).steps .plain
      (Survey.ofStream forgottenStream).paths (forgottenEntries.take 8)).1.context.clip.map
        (fun r => r.outline.length) = some 0 := by decide +kernel
  obtain ⟨bracket, hsome, hlengths⟩ := Option.map_eq_some_iff.1 hbracket
  obtain ⟨hlength, hlines⟩ := Prod.mk.inj hlengths
  obtain ⟨region, hclip, hempty⟩ := Option.map_eq_some_iff.1 hregion
  exact ⟨_, bracket, _, region, hs, hsome, hlength, hlines, by decide +kernel, hu, hclip, hempty⟩

end Metafile.Playback
