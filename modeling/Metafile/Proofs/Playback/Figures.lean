import Metafile.Proofs.Playback.Families
import Metafile.Proofs.Playback.Trail

/-!
# `Metafile.Proofs.Playback.Figures`: everything that was drawn is written or held back

A figure is a piece that shows something: a shape, a text, a picture, a painted area or an EMF+
shape. Groups and definitions are no figures. `Sheet` is a page on which every record draws at
once: its figures go to the end of the page, and its path commands to the end of the open path,
which becomes a figure when it is closed.

The playing writes the same figures in another order, because what is drawn while a path is open
is held back. `State.Mirrors` says how the two stand to each other: what is written and what is
held back are together the figures of the sheet, each once, and the path of the open bracket is
that of the sheet. Every command preserves it (`Mirrors.perform`), so it holds at every boundary
(`Reaches.mirrors`).
-/

set_option autoImplicit false

namespace Metafile

namespace Markup

/-- The name of an element without attributes. -/
@[simp] theorem Element.name_named (name : String) : (Element.named name).name = name := rfl

/-- An attribute leaves the name of its element alone. -/
@[simp] theorem Element.name_set (key value : String) (e : Element) :
    (e.set key value).name = e.name := by
  cases e
  rfl

/-- A child leaves the name of its element alone. -/
@[simp] theorem Element.name_push (e child : Element) : (e.push child).name = e.name := by
  cases e
  rfl

/-- An attribute that may be absent leaves the name of its element alone. -/
@[simp] theorem Element.name_setSome (key : String) (value : Option String) (e : Element) :
    (e.setSome key value).name = e.name := by
  cases value with
  | none => rfl
  | some value => exact e.name_set key value

/-- Whether a piece shows something. Groups and definitions do not. -/
def Piece.isFigure : Piece → Bool
  | .shape .. | .label .. => true
  | .element e => e.name != "defs"
  | _ => false

/-- A figure is whole. -/
theorem Piece.isWhole_of_isFigure {p : Piece} (h : p.isFigure = true) : p.isWhole = true := by
  cases p <;> first | rfl | cases h

namespace Document

/-- The figures of a document. -/
def figures (d : Document) : List Piece := d.toList.filter Piece.isFigure

/-- The figures of a document come in the order of its pieces. -/
theorem figures_append (a b : Document) : figures (a ++ b) = figures a ++ figures b := by
  rw [figures, Array.toList_append, List.filter_append]
  rfl

/-- The last piece is the last figure, if it shows something. -/
theorem figures_push (d : Document) (p : Piece) :
    figures (d.push p) = figures d ++ if p.isFigure then [p] else [] := by
  rw [← Array.append_singleton, figures_append]
  cases h : p.isFigure <;> simp [figures, h]

/-- A document of figures. -/
theorem figures_of_all {d : Document} (h : ∀ p ∈ d, p.isFigure = true) : figures d = d.toList :=
  List.filter_eq_self.2 fun p hp => h p (Array.mem_toList_iff.1 hp)

/-- A document without figures. -/
theorem figures_of_none {d : Document} (h : ∀ p ∈ d, p.isFigure = false) : figures d = [] :=
  List.filter_eq_nil_iff.2 fun p hp => by
    rw [h p (Array.mem_toList_iff.1 hp)]
    exact Bool.false_ne_true

end Document

end Markup

namespace Plus

/-- What EMF+ commands draw are paths and texts. -/
theorem Player.drawing_path_or_label {p : Player} {scale : Float} {c : Command}
    {piece : Markup.Piece} (h : piece ∈ p.drawing scale c) :
    (∃ e : Markup.Element, e.name = "path" ∧ piece = .element e) ∨
      ∃ attributes content, piece = .label attributes content := by
  unfold drawing at h
  split at h
  · cases h
  · split at h
    · split at h
      · obtain ⟨o, _, rfl⟩ := List.mem_map.1 h
        exact .inl ⟨_, by simp [fillElement], rfl⟩
      · cases h
    · split at h
      · obtain ⟨o, _, rfl⟩ := List.mem_map.1 h
        exact .inl ⟨_, by simp [strokeElement], rfl⟩
      · cases h
    · split at h
      · split at h
        · cases h
        · exact .inr ⟨_, _, List.mem_singleton.1 h⟩
      · cases h
    · cases h

/-- They are figures. -/
theorem Player.drawing_isFigure {p : Player} {scale : Float} {c : Command} :
    ∀ piece ∈ p.drawing scale c, piece.isFigure = true := by
  intro piece hpiece
  rcases drawing_path_or_label hpiece with ⟨e, hname, rfl⟩ | ⟨_, _, rfl⟩
  · rw [Markup.Piece.isFigure, hname]
    rfl
  · rfl

end Plus

namespace Playback

open Metafile.Markup (Attribute Document Piece)
open Metafile.Markup.Document (figures)
open Metafile.Record (Command Entry PathUse Survey)

namespace State

variable {setup : Setup} {uses : List PathUse} {s t u : State} {c : Command}

/-! ### What a command draws -/

/-- What a command draws that is not part of a path. -/
def figuresOf (setup : Setup) (c : Command) (s : State) : Document :=
  match c with
  | .draw shape => s.shapePieces shape
  | c => s.drawing setup c

/-- The outline that a command stands for inside of a path. -/
def outlineOf (c : Command) (s : State) : Outline Float :=
  match c with
  | .draw shape => s.place (shapeOutline s.heading shape)
  | .moveTo p => s.place [.move (.ofInt p)]
  | .closeFigure => s.place [.close]
  | _ => []

/-- What a command adds to the open path. -/
def commandsOf (c : Command) (s : State) : Outline Float :=
  if s.inPath then s.outlineOf c else []

/-- The paint with which a command closes the open path, if it closes it. -/
def paintOf? (uses : List PathUse) (c : Command) (s : State) : Option (List Attribute) :=
  match c with
  | .beginPath | .abortPath | .endOfFile => some unpainted
  | .endPath => (s.pathUse? uses).map s.pathPaint
  | _ => none

end State

/-- A page on which every record draws at once. -/
structure Sheet where
  figures : List Piece
  /-- The path that is not closed yet. -/
  path : Outline Float

namespace Sheet

/-- The page on which nothing is drawn. -/
def blank : Sheet := ⟨[], []⟩

/-- The page after a command. A path that is closed becomes a figure. Everything else that the
command draws is there at once. -/
def after (setup : Setup) (uses : List PathUse) (c : Command) (s : State) (sheet : Sheet) :
    Sheet :=
  match s.bracket, s.paintOf? uses c with
  | some b, some paint =>
    ⟨sheet.figures ++ [.shape "path" (b.clip ++ [("d", sheet.path.data)] ++ paint)], []⟩
  | _, _ => ⟨sheet.figures ++ (s.figuresOf setup c).toList, sheet.path ++ s.commandsOf c⟩

/-- The page after a record. A record that cannot be read draws nothing. -/
def afterRecord (setup : Setup) (uses : List PathUse) (e : Entry) (s : State) (sheet : Sheet) :
    Sheet :=
  match e.command setup.options.plus with
  | .ok c => sheet.after setup uses c (s.announce setup e)
  | .error _ => sheet

/-- The page after records that are played one after the other from a state on. -/
def afterRecords (setup : Setup) (uses : List PathUse) : List Entry → State → Sheet → Sheet
  | [], _, sheet => sheet
  | e :: rest, s, sheet =>
    afterRecords setup uses rest (s.next setup uses e).1 (sheet.afterRecord setup uses e s)

end Sheet

namespace State

variable {setup : Setup} {uses : List PathUse} {s t u : State} {c : Command}

/-! ### The path -/

/-- The commands of the open path, as far as it is drawn. -/
def openPath (s : State) : Outline Float := s.bracket.elim [] fun b => b.drawn.outline

/-- An outline is added to the open path. -/
theorem extend_openPath {b : Bracket} (o : Outline Float) (h : s.bracket = some b) :
    (s.extend o b).openPath = s.openPath ++ s.place o := by
  rw [openPath, openPath, h]
  exact Trail.outline_append ..

/-- What leaves the bracket alone leaves the path as it is. -/
theorem openPath_of_bracket (h : t.bracket = s.bracket) : t.openPath = s.openPath := by
  rw [openPath, openPath, h]

/-- A command that neither opens nor closes a path adds its commands to the path that is open. -/
theorem perform_openPath (setup : Setup) (uses : List PathUse) (s : State)
    (hkeeps : ∀ before, inPathAfter c before = before) :
    (s.perform setup uses c).1.openPath = s.openPath ++ s.commandsOf c := by
  -- a command that stands for no outline leaves the bracket alone
  have hquiet {t : State} (hbracket : t.bracket = s.bracket) (hnone : s.outlineOf c = []) :
      t.openPath = s.openPath ++ s.commandsOf c := by
    rw [openPath_of_bracket hbracket, commandsOf, hnone, ite_self, List.append_nil]
  have hextends {o : Outline Float} {b : Bracket} (hbracket : s.bracket = some b)
      (houtline : s.outlineOf c = s.place o) :
      (s.extend o b).openPath = s.openPath ++ s.commandsOf c := by
    rw [extend_openPath o hbracket, commandsOf, if_pos (by rw [inPath, hbracket]; rfl), houtline]
  have hoff {t : State} (hbefore : s.bracket = none) (hbracket : t.bracket = s.bracket) :
      t.openPath = s.openPath ++ s.commandsOf c := by
    rw [openPath_of_bracket hbracket, commandsOf, if_neg (by rw [inPath, hbefore]; decide),
      List.append_nil]
  by_cases hplaces : keepsPlaces c = true
  · obtain ⟨_, _, _, _, _, _, _, _, _, _, heq⟩ := perform_eq_of_keepsPlaces setup uses s hplaces
    refine hquiet ((congrArg bracket heq).trans rfl) ?_
    cases c <;> first | rfl | cases hplaces
  cases c with
  | draw shape =>
      show (s.draw shape).openPath = _
      unfold draw
      split
      · exact hextends ‹_› rfl
      · split
        · exact hoff ‹_› rfl
        · obtain ⟨written, held, heq⟩ :=
            emit_eq #[s.shapePiece shape] { s with position := s.ownStop shape }
          exact hoff ‹_› ((congrArg bracket heq).trans rfl)
  | moveTo p =>
      show (s.moveTo (.ofInt p)).openPath = _
      unfold moveTo
      split
      · exact hextends ‹_› rfl
      · exact hoff ‹_› rfl
  | closeFigure =>
      show s.closeFigure.openPath = _
      unfold closeFigure
      split
      · exact hextends ‹_› rfl
      · exact hoff ‹_› rfl
  | header header =>
      obtain ⟨written, held, log, heq⟩ := beginDocument_eq setup.options header s
      exact hquiet ((congrArg bracket heq).trans rfl) rfl
  | mapMode code =>
      obtain ⟨mapping, log, heq⟩ := setMapMode_eq code s
      exact hquiet ((congrArg bracket heq).trans rfl) rfl
  | restore relative =>
      obtain ⟨context, saved, wrapped, failed, written, held, log, heq⟩ := restore_eq relative s
      exact hquiet ((congrArg (bracket ·.1) heq).trans rfl) rfl
  | transform change =>
      obtain ⟨world, wrapped, written, held, log, heq⟩ := transform_eq change s
      exact hquiet ((congrArg bracket heq).trans rfl) rfl
  | select handle =>
      obtain ⟨context, log, heq⟩ := select_eq handle s
      exact hquiet ((congrArg bracket heq).trans rfl) rfl
  | set _ | save => exact hquiet rfl rfl
  | beginPath => cases hkeeps false
  | endPath | abortPath | endOfFile => cases hkeeps true
  | _ => exact absurd rfl hplaces

/-! ### The figures -/

/-- What EMF+ records draw in a comment are figures. -/
def PlusFigures (setup : Setup) (c : Command) (s : State) : Prop :=
  ∀ records, c = .plus records → ∀ p ∈ s.drawing setup c, p.isFigure = true

/-- What a command draws are figures. -/
theorem figuresOf_isFigure (hplus : PlusFigures setup c s) :
    ∀ p ∈ s.figuresOf setup c, p.isFigure = true := by
  intro p hp
  cases c with
  | draw shape =>
      change p ∈ s.shapePieces shape at hp
      unfold shapePieces at hp
      split at hp
      · simp at hp
      · rw [Array.mem_singleton.1 hp]
        rfl
  | blit area =>
      change p ∈ s.blitPieces setup.encode area at hp
      unfold blitPieces at hp
      split at hp
      · split at hp
        · simp at hp
        · rw [Array.mem_singleton.1 hp]
          rfl
      · rw [Array.mem_singleton.1 hp]
        simp [Piece.isFigure, pictureElement, Markup.Element.setFloat]
  | label origin text =>
      rw [Array.mem_singleton.1 hp]
      rfl
  | plus records => exact hplus records rfl p hp
  | _ => simp [figuresOf, drawing] at hp

/-- What begins a document shows nothing. -/
theorem head_figures (o : Options) (h : Record.Header) :
    figures ((head o h).push (originPiece o h)) = [] := by
  rw [Document.figures_push, head]
  split <;> rfl

/-- A command that only adds pieces adds the figures that it draws, and no other figures. -/
theorem perform_figures (setup : Setup) (uses : List PathUse) (s : State)
    (honly : onlyAdds c = true) (hplus : PlusFigures setup c s) :
    ∃ pieces, Adds s (s.perform setup uses c).1 pieces ∧
      (s.inPath = true → c.soleKind? ≠ some .header → pieces = s.figuresOf setup c) ∧
      figures pieces = (s.figuresOf setup c).toList := by
  have hexact {t : State} (hadds : Adds s t (s.figuresOf setup c)) :
      ∃ pieces, Adds s t pieces ∧
        (s.inPath = true → c.soleKind? ≠ some .header → pieces = s.figuresOf setup c) ∧
        figures pieces = (s.figuresOf setup c).toList :=
    ⟨_, hadds, fun _ _ => rfl, Document.figures_of_all (figuresOf_isFigure hplus)⟩
  obtain ⟨pieces, hadds, hopen, hdraws⟩ := perform_adds setup uses s honly
  -- what other commands add are groups and definitions
  have hother (hnone : s.figuresOf setup c = #[]) (hdrawing : s.drawing setup c = #[])
      (hfigures : ∀ p, s.Draws setup c p → p.isFigure = false) :
      ∃ pieces, Adds s (s.perform setup uses c).1 pieces ∧
        (s.inPath = true → c.soleKind? ≠ some .header → pieces = s.figuresOf setup c) ∧
        figures pieces = (s.figuresOf setup c).toList := by
    refine ⟨pieces, hadds, fun hin hheader => ?_, ?_⟩
    · rw [hopen hin hheader, hdrawing, hnone]
    · rw [hnone]
      exact Document.figures_of_none fun p hp => hfigures p (hdraws p hp)
  cases c with
  | draw shape => exact hexact (draw_adds shape s)
  | blit area => exact hexact (blit_adds setup.encode area s)
  | label origin text => exact hexact (label_adds origin text s)
  | plus records => exact hexact (runPlus_adds _ s)
  | header header =>
      refine ⟨_, beginDocument_adds setup.options header s, fun _ hkind => absurd rfl hkind, ?_⟩
      exact head_figures setup.options header
  | createPattern index picture twoColors =>
      refine hother rfl rfl ?_
      rintro p ⟨id, colors, width, height, rfl⟩
      simp [patternDefinition, Piece.isFigure]
  | clip change =>
      refine hother rfl rfl ?_
      rintro p ⟨id, region, rfl⟩
      simp [clipDefinition, Piece.isFigure]
  | endOfFile | beginPath | endPath | abortPath | save | restore _ | transform _ => cases honly
  | _ => exact hother rfl rfl fun p hp => by simp [Draws, drawing] at hp

/-- Opening a group shows nothing. -/
theorem wrap_figures (s : State) : figures s.wrap.written = figures s.written := by
  cases h : s.inPath with
  | true => rw [wrap_of_open h]
  | false =>
      rw [wrap_of_closed h]
      dsimp only
      rw [Document.figures_append, regrouping, Document.figures_push]
      cases s.wrapped <;> simp [figures, Piece.isFigure, wrapperPiece]

/-- A change of the world transform shows nothing. -/
theorem transform_figures (change : Record.TransformChange) (s : State) :
    figures (s.transform change).written = figures s.written := by
  unfold transform
  split
  · rfl
  · split
    · exact wrap_figures _
    · rfl

/-- A return to a saved context shows nothing, also where it opens a group. -/
theorem restore_figures (relative : Int) (s : State) :
    figures (s.restore relative).1.written = figures s.written := by
  unfold restore
  split
  · split
    · exact wrap_figures _
    · rfl
  · rfl
  · rfl

/-- Changes of the world transform that are replayed show nothing. -/
theorem replay_figures (ts : List Record.TransformChange) (s : State) :
    figures (s.replay ts).written = figures s.written := by
  unfold replay
  split
  · rfl
  · exact wrap_figures _

/-- Changes of the world transform that are replayed leave alone what is held back. -/
theorem replay_held (ts : List Record.TransformChange) (s : State) :
    (s.replay ts).held = s.held := by
  unfold replay
  split
  · rfl
  · exact wrap_held _

/-- What ends a document shows nothing. -/
theorem ending_figures (o : Options) (s : State) : figures (s.ending o) = [] := by
  rw [ending, Document.figures_append, Document.figures_push, tail]
  cases s.wrapped <;> cases o.delimited <;> rfl

/-! ### One command -/

/-- What is written before other things that are held back counts as what is written last. -/
theorem perm_with_last {written held all : List Piece} (h : (written ++ held).Perm all)
    (last : List Piece) : (written ++ last ++ held).Perm (all ++ last) := by
  have hmoved : (written ++ (last ++ held)).Perm (written ++ (held ++ last)) :=
    List.perm_append_comm.append_left written
  rw [← List.append_assoc, ← List.append_assoc] at hmoved
  exact hmoved.trans (h.append_right last)

/-- What is written and held back are together the figures of a sheet, each once, and the open
path is that of the sheet. What is held back are figures. -/
structure Mirrors (s : State) (sheet : Sheet) : Prop where
  held : ∀ p ∈ s.held, p.isFigure = true
  figures : (figures s.written ++ s.held.toList).Perm sheet.figures
  path : s.openPath = sheet.path

namespace Mirrors

variable {sheet : Sheet}

/-- What shows nothing and leaves the bracket alone. -/
theorem of_same (h : Mirrors s sheet)
    (hwritten : Document.figures t.written = Document.figures s.written)
    (hheld : t.held = s.held) (hpath : t.openPath = s.openPath) : Mirrors t sheet :=
  ⟨hheld ▸ h.held, by rw [hwritten, hheld]; exact h.figures, hpath.trans h.path⟩

/-- Figures that are added go to the end of what is written, or to the end of what is held back.
-/
theorem adds {pieces drawn : Document} {path : Outline Float} (h : Mirrors s sheet)
    (hadds : Adds s t pieces) (hopen : s.inPath = true → pieces = drawn)
    (hfigures : Document.figures pieces = drawn.toList) (hdrawn : ∀ p ∈ drawn, p.isFigure = true)
    (hpath : t.openPath = s.openPath ++ path) :
    Mirrors t ⟨sheet.figures ++ drawn.toList, sheet.path ++ path⟩ := by
  have hpath' : t.openPath = sheet.path ++ path := by rw [hpath, h.path]
  have hwritten := hadds.written
  have hheld := hadds.held
  -- inside of a path the pieces are held back, and outside of it they are written
  cases hin : s.inPath with
  | true =>
      rw [hin, if_pos rfl] at hwritten hheld
      rw [hopen hin] at hheld
      refine ⟨fun p hp => ?_, ?_, hpath'⟩
      · rw [hheld] at hp
        exact (Array.mem_append.1 hp).elim (h.held p) (hdrawn p)
      · rw [hwritten, hheld, Array.toList_append, ← List.append_assoc]
        exact h.figures.append_right _
  | false =>
      rw [hin, if_neg Bool.false_ne_true] at hwritten hheld
      refine ⟨hheld ▸ h.held, ?_, hpath'⟩
      rw [hwritten, hheld, Document.figures_append, hfigures]
      exact perm_with_last h.figures _

/-- The path of a bracket that is closed becomes a figure. -/
theorem close {b : Bracket} (h : Mirrors s sheet) (hbracket : s.bracket = some b)
    (paint : List Attribute) :
    Mirrors (s.close paint b)
      ⟨sheet.figures ++ [.shape "path" (b.clip ++ [("d", sheet.path.data)] ++ paint)], []⟩ := by
  have hpath : b.drawn.outline = sheet.path := by
    rw [← h.path, openPath, hbracket]
    rfl
  refine ⟨fun p hp => by simp [State.close] at hp, ?_, rfl⟩
  show (Document.figures (s.written.push (b.piece paint) ++ s.held) ++ []).Perm _
  rw [List.append_nil, Document.figures_append, Document.figures_push,
    if_pos (show (b.piece paint).isFigure = true from rfl), Document.figures_of_all h.held,
    Bracket.piece, hpath]
  exact perm_with_last h.figures _

/-- Changes of the world transform that are replayed show nothing. -/
theorem replay (h : Mirrors s sheet) (ts : List Record.TransformChange) :
    Mirrors (s.replay ts) sheet :=
  h.of_same (replay_figures ts s) (replay_held ts s)
    (openPath_of_bracket (replay_keeps ts s).2.2.1)

end Mirrors

end State

namespace Sheet

variable {setup : Setup} {uses : List PathUse} {s : State} {c : Command}

/-- Where a bracket ends, the sheet gets the open path as a figure, and a new path begins. -/
theorem after_of_open {b : Bracket} {paint : List Attribute} (hbracket : s.bracket = some b)
    (hpaint : s.paintOf? uses c = some paint) (sheet : Sheet) :
    sheet.after setup uses c s =
      ⟨sheet.figures ++ [.shape "path" (b.clip ++ [("d", sheet.path.data)] ++ paint)], []⟩ := by
  rw [after, hbracket, hpaint]

/-- Where no bracket is open, the sheet gets the figures and the path commands of the command. -/
theorem after_of_closed (hbracket : s.bracket = none) (sheet : Sheet) :
    sheet.after setup uses c s =
      ⟨sheet.figures ++ (s.figuresOf setup c).toList, sheet.path ++ s.commandsOf c⟩ := by
  rw [after, hbracket]

/-- A command that ends no bracket does the same inside of one. -/
theorem after_of_keeps (hpaint : s.paintOf? uses c = none) (sheet : Sheet) :
    sheet.after setup uses c s =
      ⟨sheet.figures ++ (s.figuresOf setup c).toList, sheet.path ++ s.commandsOf c⟩ := by
  rw [after, hpaint]
  cases s.bracket <;> rfl

/-- A command that draws nothing leaves the page as it is where no path is closed. -/
theorem after_of_quiet (hpaint : s.bracket = none ∨ s.paintOf? uses c = none)
    (hfigures : s.figuresOf setup c = #[]) (houtline : s.outlineOf c = []) (sheet : Sheet) :
    sheet.after setup uses c s = sheet := by
  have hsame : sheet.after setup uses c s =
      ⟨sheet.figures ++ (s.figuresOf setup c).toList, sheet.path ++ s.commandsOf c⟩ :=
    hpaint.elim (fun hbracket => sheet.after_of_closed hbracket)
      fun hpaint => sheet.after_of_keeps hpaint
  rw [hsame, hfigures, State.commandsOf, houtline, ite_self]
  simp

end Sheet

namespace State

variable {setup : Setup} {uses : List PathUse} {s t u : State} {c : Command} {sheet : Sheet}

/-- The bracket that is open is given up before another is opened, and at an abort and at the end.
It becomes a figure, and else nothing is shown. -/
theorem Mirrors.abandon (h : Mirrors s sheet) (setup : Setup) (uses : List PathUse)
    (hpaint : s.paintOf? uses c = some unpainted)
    (hfigures : s.figuresOf setup c = #[]) (houtline : s.outlineOf c = []) :
    Mirrors s.abandon (sheet.after setup uses c s) := by
  cases hbracket : s.bracket with
  | none =>
      have hclosed : s.inPath = false := by rw [inPath, hbracket]; rfl
      rw [abandon_of_closed hclosed, sheet.after_of_quiet (Or.inl hbracket) hfigures houtline]
      exact h
  | some b =>
      rw [abandon_of_open hbracket, sheet.after_of_open hbracket hpaint]
      exact h.close hbracket _

/-- Every command keeps the state and the sheet alike. -/
theorem Mirrors.perform (h : Mirrors s sheet)
    (hheader : s.inPath = true → c.soleKind? ≠ some .header) (hplus : PlusFigures setup c s)
    (hperform : s.perform setup uses c = (t, none)) :
    Mirrors t (sheet.after setup uses c s) := by
  cases honly : onlyAdds c with
  | true =>
      have hpaint : s.paintOf? uses c = none := by
        cases c <;> first | rfl | cases honly
      have hkeeps : ∀ before, inPathAfter c before = before := by
        cases c <;> first | exact fun _ => rfl | cases honly
      obtain ⟨pieces, hadds, hopen, hfigures⟩ := perform_figures setup uses s honly hplus
      have hpath := perform_openPath setup uses s hkeeps
      rw [hperform] at hadds hpath
      rw [sheet.after_of_keeps hpaint]
      exact h.adds hadds (fun hin => hopen hin (hheader hin)) hfigures (figuresOf_isFigure hplus)
        hpath
  | false =>
      cases c with
      | save =>
          obtain ⟨rfl, _⟩ := Prod.mk.inj hperform
          rw [sheet.after_of_quiet (Or.inr rfl) rfl rfl]
          exact h.of_same rfl rfl rfl
      | transform change =>
          obtain ⟨rfl, _⟩ := Prod.mk.inj hperform
          obtain ⟨world, wrapped, written, held, log, heq⟩ := transform_eq change s
          rw [sheet.after_of_quiet (Or.inr rfl) rfl rfl]
          exact h.of_same (transform_figures change s) (transform_held change s)
            ((congrArg openPath heq).trans rfl)
      | restore relative =>
          obtain rfl : (s.restore relative).1 = t := congrArg Prod.fst hperform
          obtain ⟨context, saved, wrapped, failed, written, held, log, heq⟩ :=
            restore_eq relative s
          rw [sheet.after_of_quiet (Or.inr rfl) rfl rfl]
          exact h.of_same (restore_figures relative s) (restore_held relative s)
            ((congrArg (openPath ·.1) heq).trans rfl)
      | beginPath =>
          have hgiven := h.abandon setup uses (c := .beginPath) rfl rfl rfl
          change s.beginPath uses = (t, none) at hperform
          unfold beginPath at hperform
          simp only at hperform
          split at hperform
          · cases hperform
          · rename_i use _
            obtain ⟨rfl, _⟩ := Prod.mk.inj hperform
            have hcounted : Mirrors { s.abandon with brackets := s.abandon.brackets + 1 }
                (sheet.after setup uses .beginPath s) := hgiven.of_same rfl rfl rfl
            -- a path that has just begun is as empty as one that was given up
            have hpath : (({ s.abandon with brackets := s.abandon.brackets + 1 } : State).replay
                use.before).openPath = [] := by
              rw [openPath, (replay_keeps ..).2.2.1, (abandon_keeps s).1]
              rfl
            exact (hcounted.replay use.before).of_same rfl rfl hpath.symm
      | endPath =>
          change s.endPath uses = (t, none) at hperform
          unfold endPath at hperform
          split at hperform
          · rename_i hbracket
            obtain ⟨rfl, _⟩ := Prod.mk.inj hperform
            rw [sheet.after_of_quiet (Or.inl hbracket) rfl rfl]
            exact h
          · split at hperform
            · cases hperform
            · rename_i b hbracket _ use huse
              obtain ⟨rfl, _⟩ := Prod.mk.inj hperform
              have hpaint : s.paintOf? uses .endPath = some (s.pathPaint use) := by
                rw [paintOf?, huse]
                rfl
              rw [sheet.after_of_open hbracket hpaint]
              exact (h.close hbracket _).replay use.after
      | abortPath =>
          obtain ⟨rfl, _⟩ := Prod.mk.inj hperform
          have hgiven := h.abandon setup uses (c := .abortPath) rfl rfl rfl
          exact hgiven.of_same rfl rfl rfl
      | endOfFile =>
          obtain ⟨rfl, _⟩ := Prod.mk.inj hperform
          have hgiven := h.abandon setup uses (c := .endOfFile) rfl rfl rfl
          obtain ⟨player, log, heq⟩ := endDocument_eq setup.options s
          have hwritten : Document.figures (s.endDocument setup.options).written =
              Document.figures s.abandon.written := by
            rw [heq]
            dsimp only
            rw [Document.figures_append, ending_figures, List.append_nil]
          exact hgiven.of_same hwritten ((congrArg State.held heq).trans rfl)
            ((congrArg openPath heq).trans rfl)
      | _ => cases honly

/-- A record that is listed is mirrored as before. -/
theorem Mirrors.announce (h : Mirrors s sheet) (setup : Setup) (e : Entry) :
    Mirrors (s.announce setup e) sheet := by
  obtain ⟨log, hlog⟩ := announce_eq setup e s
  rw [hlog]
  exact h.of_same rfl rfl rfl

end State

/-! ### Boundaries -/

/-- The page after one more record. -/
theorem Sheet.afterRecords_concat {setup : Setup} {uses : List PathUse} {earlier : List Entry}
    {s t : State} (h : s.steps setup uses earlier = (t, none)) (e : Entry) (sheet : Sheet) :
    sheet.afterRecords setup uses (earlier ++ [e]) s =
      (sheet.afterRecords setup uses earlier s).afterRecord setup uses e t := by
  induction earlier generalizing s sheet with
  | nil =>
      obtain ⟨rfl, _⟩ := Prod.mk.inj h
      rfl
  | cons first rest ih =>
      change s.steps setup uses ([first] ++ rest) = (t, none) at h
      obtain ⟨u, hfirst, hrest⟩ := State.steps_split h
      have hnext := State.steps_singleton.1 hfirst
      rw [List.cons_append, afterRecords, afterRecords,
        show (s.next setup uses first).1 = u from congrArg Prod.fst hnext]
      exact ih hrest _

namespace Reaches

variable {setup : Setup} {stream : Bytes} {survey : Survey} {earlier later : List Entry}
  {e : Entry} {t : State}

/-- What the EMF+ records of a comment draw are figures. -/
theorem plusFigures {c : Command} (h : Reaches setup stream survey earlier (e :: later) t) :
    State.PlusFigures setup c (t.announce setup e) := by
  obtain ⟨log, hlog⟩ := State.announce_eq setup e t
  rw [hlog]
  rintro records rfl q hq
  obtain ⟨p, scale, c, hdrawing⟩ := h.plus_drawn hq
  exact Plus.Player.drawing_isFigure q hdrawing

/-- The page on which all records before a boundary have drawn at once. -/
def sheet (setup : Setup) (survey : Survey) (earlier : List Entry) : Sheet :=
  Sheet.blank.afterRecords setup survey.paths earlier (State.start survey)

/-- At every boundary what is written and what is held back are together the figures that the
records before it have drawn, each once. -/
theorem mirrors (h : Reaches setup stream survey earlier later t) :
    t.Mirrors (sheet setup survey earlier) := by
  refine h.induction (motive := fun earlier _ t => t.Mirrors (sheet setup survey earlier)) ?_ ?_
  · exact ⟨fun p hp => by simp [State.start, State.initial] at hp, List.Perm.refl _, rfl⟩
  · intro earlier e later s t c hs ih hc hperform
    rw [sheet, Sheet.afterRecords_concat hs.played, Sheet.afterRecord, hc]
    refine (ih.announce setup e).perform (fun hopen hheader => ?_) hs.plusFigures hperform
    -- no path is open before the header, because it is the first record
    obtain rfl := (hs.header_iff hc).1 hheader
    obtain ⟨rfl, _⟩ := Prod.mk.inj hs.played
    rw [(State.announce_adds setup e _).inPath] at hopen
    cases hopen

end Reaches

end Playback

end Metafile
