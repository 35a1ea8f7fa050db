import Metafile.Proofs.Playback.Faults
import Metafile.Proofs.Playback.Figures
import Metafile.Proofs.Playback.Outcome

/-!
# `Metafile.Proofs.Playback.Halted`: what a conversion keeps that is cut short

Playing stops at the first record that cannot be done, and the document is what was written up to
then. `Reaches.cut_short` compares it with the page on which all records before that one have
drawn at once. Every figure of the page is written or held back, each once, and the path data in
the text goes on with the commands of the path that is open. But nothing writes what is held back:
so all figures are in the document exactly if nothing was drawn beside a path that is still open.
At the end record, or where a path is given up, the same figures would have been written after the
path.
-/

set_option autoImplicit false

namespace Metafile.Playback

open Metafile.Markup (Document Piece)
open Metafile.Markup.Document (figures)
open Metafile.Record (Entry PathUse Survey)

namespace State

/-- The definition of a picture shows nothing. -/
theorem withPicture_figures (setup : Setup) (picture : Bitmap.Picture) (fromContext : Bool)
    (s : State) :
    figures (s.withPicture setup picture fromContext).written = figures s.written := by
  rw [withPicture]
  dsimp only
  rw [Document.figures_push, patternPiece]
  simp [patternDefinition, Piece.isFigure]

end State

namespace Reaches

variable {setup : Setup} {stream : Bytes} {survey : Survey} {earlier later : List Entry}
  {e : Entry} {t u : State} {fault : Fault}

/-- A record that cannot be done shows nothing, writes nothing of what is held back, and leaves
the bracket as it is. -/
theorem fault_shows_nothing (h : Reaches setup stream survey earlier (e :: later) t)
    (hnext : t.next setup survey.paths e = (u, some fault)) :
    figures u.written = figures t.written ∧ u.held = t.held ∧ u.bracket = t.bracket := by
  have hof {v : State} (hleft : u.silenced = v.silenced) (hheld : v.held = t.held)
      (hbracket : v.bracket = t.bracket) (hfigures : figures v.written = figures t.written) :
      figures u.written = figures t.written ∧ u.held = t.held ∧ u.bracket = t.bracket :=
    ⟨(congrArg (fun s => figures s.written) hleft).trans hfigures,
      (congrArg State.held hleft).trans hheld, (congrArg State.bracket hleft).trans hbracket⟩
  rcases h.next_fault hnext with ⟨picture, fromContext, _, hleft⟩ | ⟨_, hleft⟩
  · exact hof hleft rfl rfl (State.withPicture_figures ..)
  · exact hof hleft rfl rfl rfl

/-- The result of a conversion that is cut short is what is written before the record that cannot
be done, and counts as incomplete. -/
theorem convert_of_fault (h : Reaches setup stream survey earlier (e :: later) t)
    (hnext : t.next setup survey.paths e = (u, some fault)) :
    ∃ log, convert setup stream = .ok (⟨u.text setup.options.qualifier, false⟩, log) := by
  have hstops : (State.start survey).steps setup survey.paths survey.entries =
      (u, some (e, fault)) := by
    rw [h.split, State.steps_append h.played, State.steps, ← State.next, hnext]
  obtain ⟨cause, _, hplay⟩ := play_of_halted hstops
  rw [convert_of_accepted setup h.accepted, Conversion.ofSurvey, hplay]
  exact ⟨_, rfl⟩

/-- When a record cannot be done, the conversion gives what is written up to then, as incomplete.
What is written and what is held back are together the figures that the records before it have
drawn, each once, and the path data of the open path goes on to its last command. All figures are
written exactly if nothing is held back. So it is where no path is open. In an open path the
figures that were drawn since it began are missing. -/
theorem cut_short (h : Reaches setup stream survey earlier (e :: later) t)
    (hnext : t.next setup survey.paths e = (u, some fault)) :
    (∃ log, convert setup stream = .ok (⟨u.text setup.options.qualifier, false⟩, log)) ∧
      (figures u.written ++ t.held.toList).Perm (sheet setup survey earlier).figures ∧
      (∀ bracket, u.bracket = some bracket → ∃ before, u.text setup.options.qualifier =
        before ++ "d=\"" ++ String.ofList (Outline.chars (sheet setup survey earlier).path)) ∧
      ((figures u.written).Perm (sheet setup survey earlier).figures ↔ t.held = #[]) ∧
      (t.inPath = false → t.held = #[]) ∧
      (t.inPath = true → ∃ opened b inside s, earlier = opened ++ b :: inside ∧
        Opening setup stream survey opened b inside (e :: later) s t ∧
        t.held = s.drawings setup survey.paths inside) := by
  obtain ⟨hfigures, hheld, hbracket⟩ := h.fault_shows_nothing hnext
  have hmirrors := h.mirrors
  have hperm :
      (figures u.written ++ t.held.toList).Perm (sheet setup survey earlier).figures := by
    rw [hfigures]
    exact hmirrors.figures
  refine ⟨h.convert_of_fault hnext, hperm, fun bracket hopen => ?_,
    ⟨fun hall => ?_, fun hnone => ?_⟩, h.held_empty, fun hopen => ?_⟩
  · -- the path that was left open is the one of the page
    have hpath : bracket.drawn.outline = (sheet setup survey earlier).path := by
      rw [← hmirrors.path, State.openPath, ← hbracket, hopen]
      rfl
    rw [← hpath]
    exact ⟨_, State.text_of_open hopen⟩
  · -- a page with figures that are not written has more of them
    have hlength := hperm.length_eq.trans hall.length_eq.symm
    rw [List.length_append] at hlength
    exact Array.toList_eq_nil_iff.1 (List.eq_nil_of_length_eq_zero (by omega))
  · rw [hnone, List.append_nil] at hperm
    exact hperm
  · -- what is held back was drawn since the bracket was begun
    obtain ⟨opened, b, inside, s, hsplit, hempty, hopening⟩ := h.opening hopen
    refine ⟨opened, b, inside, s, hsplit, hopening, ?_⟩
    rw [hopening.holds.held, hempty, Array.empty_append]

end Reaches

/-- A rectangle, a path with a line, and a handle that no slot has. -/
def shownRecords : List (Record.Kind × Bytes) :=
  [(.rectangle, List.replicate 16 0), (.beginPath, []), (.lineTo, List.replicate 8 0),
    (.selectObject, strayHandle)]

/-- A text inside of a path with a line, and a handle that no slot has. -/
def lostRecords : List (Record.Kind × Bytes) :=
  [(.beginPath, []), (.lineTo, List.replicate 8 0),
    (.smallTextOut, List.replicate 8 0 ++ [1, 0, 0, 0, 0, 3, 0, 0] ++ List.replicate 12 0 ++
      [65, 0, 0, 0]),
    (.selectObject, strayHandle)]

/-- A rectangle is kept, although a path is open after it. -/
theorem cut_short_rectangle :
    ∃ survey earlier later t u fault,
      Reaches .plain (enclosedStream shownRecords) survey earlier
        (straySelection 136 :: later) t ∧
        t.next .plain survey.paths (straySelection 136) = (u, some fault) ∧
        (Reaches.sheet .plain survey earlier).figures.length = 1 ∧
        (figures u.written).Perm (Reaches.sheet .plain survey earlier).figures := by
  obtain ⟨h, u, fault, hnext⟩ := enclosed_reaches_last shownRecords (straySelection 136)
    (by decide +kernel) (by decide +kernel) (by decide +kernel) (by decide +kernel)
  have hheld : (stateBeforeLast shownRecords).held = #[] :=
    Array.eq_empty_of_size_eq_zero (by decide +kernel)
  exact ⟨_, _, _, _, u, fault, h, hnext, by decide +kernel, (h.cut_short hnext).2.2.2.1.mpr hheld⟩

/-- The content of a text. -/
def contentOf? : Piece → Option String
  | .label _ content => some content
  | _ => none

/-- Only a text has a content. -/
theorem contentOf?_eq_some {p : Piece} {content : String} (h : contentOf? p = some content) :
    ∃ attributes, p = .label attributes content := by
  cases p with
  | label attributes content' => exact ⟨attributes, by rw [Option.some.inj h]⟩
  | _ => cases h

/-- A text that was drawn while a path was open is not in the document. -/
theorem text_in_path_is_lost :
    ∃ survey earlier later t u fault attributes,
      Reaches .plain (enclosedStream lostRecords) survey earlier (straySelection 152 :: later) t ∧
        t.next .plain survey.paths (straySelection 152) = (u, some fault) ∧
        Piece.label attributes "A" ∈ (Reaches.sheet .plain survey earlier).figures ∧
        Piece.label attributes "A" ∉ u.written := by
  obtain ⟨h, u, fault, hnext⟩ := enclosed_reaches_last lostRecords (straySelection 152)
    (by decide +kernel) (by decide +kernel) (by decide +kernel) (by decide +kernel)
  have hdrawn : some "A" ∈ (Reaches.sheet .plain (.ofStream (enclosedStream lostRecords))
      ((Survey.ofStream (enclosedStream lostRecords)).entries.take
        lostRecords.length)).figures.map contentOf? := by decide +kernel
  obtain ⟨p, hp, hcontent⟩ := List.mem_map.1 hdrawn
  obtain ⟨attributes, rfl⟩ := contentOf?_eq_some hcontent
  -- nothing but the shell was written, since the text was held back
  have hwritten : figures u.written = [] := by
    rw [(h.fault_shows_nothing hnext).1]
    exact List.eq_nil_of_length_eq_zero (by decide +kernel)
  refine ⟨_, _, _, _, u, fault, attributes, h, hnext, hp, fun hmem => ?_⟩
  have hfigure : Piece.label attributes "A" ∈ figures u.written :=
    List.mem_filter.2 ⟨Array.mem_toList_iff.2 hmem, rfl⟩
  rw [hwritten] at hfigure
  exact List.not_mem_nil hfigure

end Metafile.Playback
