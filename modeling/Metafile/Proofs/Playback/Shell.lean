import Metafile.Proofs.Markup.Tags
import Metafile.Proofs.Playback.Outcome

/-!
# `Metafile.Proofs.Playback.Shell`: the document around its fragment

A document with a declaration and a root element is a fragment in a shell. What is written before
the first piece is never looked at again, so a record does the same behind any pieces, and adds
the same to them: `State.behind` commutes with every operation. Only the header and the end record
read the options that the shell depends on, which are the namespace and whether there is a shell
at all.

`play_shell` follows. The playing leaves behind what it would leave without a shell and without a
namespace, between the pieces of the shell. `convert_delimited` compares the texts of a document
and of its fragment.
-/

set_option autoImplicit false

namespace Metafile

namespace Options

/-- The options of a fragment without a namespace. -/
def bare (o : Options) : Options := { o with namespaceName := none, delimited := false }

end Options

namespace Playback

open Metafile.Markup (Document Piece)
open Metafile.Record (Command Entry Header PathUse Survey)

namespace Setup

/-- The same conversion with or without a declaration and a root element. -/
def delimit (delimited : Bool) (setup : Setup) : Setup :=
  { setup with options := { setup.options with delimited } }

/-- The same conversion into a fragment without a namespace. -/
def bare (setup : Setup) : Setup := { setup with options := setup.options.bare }

end Setup

namespace State

/-! ### Behind other pieces -/

/-- The state in which the document begins with other pieces. -/
def behind (before : Document) (s : State) : State := { s with written := before ++ s.written }

section Behind

variable (before : Document)

/-- Behind no pieces a state is as it is. -/
theorem behind_empty (s : State) : s.behind #[] = s := by
  rw [behind, Array.empty_append]

/-- Listing a record adds a message and writes nothing. -/
theorem announce_behind (setup : Setup) (e : Entry) (s : State) :
    (s.behind before).announce setup e = (s.announce setup e).behind before := by
  unfold announce
  split <;> rfl

/-- What is written goes to the end, so it does not matter what stands at the beginning. What is
held back is not written yet. -/
theorem emit_behind (pieces : Document) (s : State) :
    (s.behind before).emit pieces = (s.emit pieces).behind before := by
  unfold emit
  by_cases hopen : s.inPath = true
  · rw [if_pos hopen, if_pos (show (s.behind before).inPath = true from hopen)]
    rfl
  · rw [if_neg hopen, if_neg (show ¬(s.behind before).inPath = true from hopen)]
    unfold behind
    dsimp only
    rw [Array.append_assoc]

/-- The path of a bracket and what was held back are written at the end. -/
theorem close_behind (paint : List Markup.Attribute) (b : Bracket) (s : State) :
    (s.behind before).close paint b = (s.close paint b).behind before := by
  simp only [close, behind, ← Array.append_push, Array.append_assoc]

/-- A bracket is given up behind other pieces as it is without them. -/
theorem abandon_behind (s : State) :
    (s.behind before).abandon = s.abandon.behind before := by
  unfold abandon
  cases hbracket : s.bracket with
  | none => simp only [behind, hbracket]
  | some b =>
      simp only [show (s.behind before).bracket = some b from hbracket]
      exact close_behind before unpainted b s

/-- The group of the world transform ends the one before it, and that is known from the state and
not from the document. -/
theorem wrap_behind (s : State) : (s.behind before).wrap = s.wrap.behind before := by
  cases hopen : s.inPath with
  | true =>
      rw [wrap_of_open hopen, wrap_of_open (show (s.behind before).inPath = true from hopen)]
  | false =>
      rw [wrap_of_closed hopen, wrap_of_closed (show (s.behind before).inPath = false from hopen)]
      simp only [behind, Array.append_assoc]
      rfl

/-- A change of the context and the group after it. -/
theorem update_wrap_behind (f : Device.Context → Device.Context) (s : State) :
    ((s.behind before).update f).wrap = (s.update f).wrap.behind before :=
  wrap_behind before (s.update f)

/-- A change of the world transform. -/
theorem transform_behind (change : Record.TransformChange) (s : State) :
    (s.behind before).transform change = (s.transform change).behind before := by
  unfold transform
  by_cases hopen : s.inPath = true
  · rw [if_pos hopen, if_pos (show (s.behind before).inPath = true from hopen)]
  · rw [if_neg hopen, if_neg (show ¬(s.behind before).inPath = true from hopen)]
    simp only [show (s.behind before).context = s.context from rfl]
    cases change.onto? s.context.world with
    | none => rfl
    | some world => exact update_wrap_behind before _ s

/-- The changes that a bracket has deferred. -/
theorem replay_behind (ts : List Record.TransformChange) (s : State) :
    (s.behind before).replay ts = (s.replay ts).behind before := by
  unfold replay
  split
  · rfl
  · exact update_wrap_behind before _ s

/-! ### Commands behind other pieces -/

/-- A shape is written or added to the bracket, and neither looks at the document. -/
theorem draw_behind (shape : Record.Shape) (s : State) :
    (s.behind before).draw shape = (s.draw shape).behind before := by
  unfold draw
  simp only [show (s.behind before).bracket = s.bracket from rfl]
  split
  · rfl
  · split
    · rfl
    · exact emit_behind before _ { s with position := s.ownStop shape }

/-- A move changes the position and the bracket alone. -/
theorem moveTo_behind (p : Point Float) (s : State) :
    (s.behind before).moveTo p = (s.moveTo p).behind before := by
  unfold moveTo
  simp only [show (s.behind before).bracket = s.bracket from rfl]
  split <;> rfl

/-- Closing a figure changes the bracket alone. -/
theorem closeFigure_behind (s : State) :
    (s.behind before).closeFigure = s.closeFigure.behind before := by
  unfold closeFigure
  simp only [show (s.behind before).bracket = s.bracket from rfl]
  split <;> rfl

/-- The map mode is a part of the context. -/
theorem setMapMode_behind (code : Nat) (s : State) :
    (s.behind before).setMapMode code = (s.setMapMode code).behind before := by
  unfold setMapMode
  split <;> rfl

/-- A message about a picture. -/
theorem noteEmbedded_behind (e : Bitmap.Embedded) (s : State) :
    (s.behind before).noteEmbedded e = (s.noteEmbedded e).behind before := by
  unfold noteEmbedded
  split <;> rfl

/-- A picture is written at the end, after the message about it. -/
theorem blit_behind (encode : Bitmap.Encoder) (area : Record.Blit) (s : State) :
    (s.behind before).blit encode area = (s.blit encode area).behind before := by
  unfold blit
  split
  · simp only [show (s.behind before).context = s.context from rfl]
    split
    · rfl
    · exact emit_behind before _ s
  · rename_i picture _
    dsimp only
    rw [noteEmbedded_behind]
    exact emit_behind before _ _

/-- What EMF+ records draw is written at the end. -/
theorem runPlus_behind (act : Plus.Stage → Plus.Stage) (s : State) :
    (s.behind before).runPlus act = (s.runPlus act).behind before :=
  emit_behind before _ { s with
    player := (act ⟨s.player, #[], #[]⟩).player
    log := s.log ++ (act ⟨s.player, #[], #[]⟩).log }

/-- A definition is written at the end. Its number is counted by the state. -/
theorem setClip_behind (region : Outline Float) (s : State) :
    (s.behind before).setClip region = (s.setClip region).behind before := by
  cases hopen : s.inPath with
  | true =>
      rw [setClip_of_open hopen,
        setClip_of_open (show (s.behind before).inPath = true from hopen)]
      rfl
  | false =>
      rw [setClip_of_closed hopen,
        setClip_of_closed (show (s.behind before).inPath = false from hopen)]
      simp only [behind, Array.append_push]

/-- A region is combined with the one of the context and then defined. -/
theorem changeClip_behind (combine : Clip.Combiner) (change : Record.ClipChange) (s : State) :
    (s.behind before).changeClip combine change =
      (s.changeClip combine change).behind before := by
  cases change with
  | shift v =>
      unfold changeClip shiftClip
      simp only [show (s.behind before).context = s.context from rfl]
      split
      · rfl
      · exact setClip_behind before _ s
  | reset => rfl
  | _ => exact setClip_behind before _ s

/-- A result with a state in which the document begins with other pieces. -/
def resultBehind {α : Type} (result : State × α) : State × α :=
  (result.1.behind before, result.2)

/-- A return gives back a context, and the group of the world transform where that differs. -/
theorem restore_behind (relative : Int) (s : State) :
    (s.behind before).restore relative = resultBehind before (s.restore relative) := by
  unfold restore
  simp only [show (s.behind before).saved = s.saved from rfl]
  cases s.saved.restore relative with
  | error fault => cases fault <;> rfl
  | ok found =>
      obtain ⟨context, saved⟩ := found
      dsimp only
      by_cases hdiffer : placesDiffer context s.context = true
      · rw [if_pos hdiffer,
          if_pos (show placesDiffer context (s.behind before).context = true from hdiffer)]
        exact Prod.ext (wrap_behind before { s with context, saved }) rfl
      · rw [if_neg hdiffer,
          if_neg (show ¬placesDiffer context (s.behind before).context = true from hdiffer)]
        rfl

/-- A slot is filled without a look at the document. -/
theorem put_behind (index : Nat) (tool : Device.Tool) (s : State) :
    (s.behind before).put index tool = resultBehind before (s.put index tool) := by
  unfold put
  simp only [show (s.behind before).objects = s.objects from rfl]
  split <;> rfl

/-- A tool is selected without a look at the document. -/
theorem select_behind (handle : Nat) (s : State) :
    (s.behind before).select handle = resultBehind before (s.select handle) := by
  unfold select
  simp only [show (s.behind before).context = s.context from rfl,
    show (s.behind before).objects = s.objects from rfl]
  split <;> split <;> rfl

/-- A slot is emptied without a look at the document. -/
theorem delete_behind (handle : Nat) (s : State) :
    (s.behind before).delete handle = resultBehind before (s.delete handle) := by
  unfold delete
  simp only [show (s.behind before).objects = s.objects from rfl]
  split
  · rfl
  · split <;> rfl

/-- A picture is looked for among those that were counted, and not in the document. If it is new
its definition is written at the end. -/
theorem patternOf_behind (encode : Bitmap.Encoder) (picture : Bitmap.Picture) (twoColors : Bool)
    (s : State) :
    (s.behind before).patternOf encode picture twoColors =
      resultBehind before (s.patternOf encode picture twoColors) := by
  unfold patternOf
  simp only [show (s.behind before).inPath = s.inPath from rfl,
    show (s.behind before).images = s.images from rfl]
  split
  · rfl
  · split
    · rfl
    · unfold definePattern resultBehind
      dsimp only
      rw [← emit_behind, ← noteEmbedded_behind]
      rfl

/-- A brush with a picture is the look for the picture and the slot. -/
theorem createPattern_behind (encode : Bitmap.Encoder) (index : Nat) (picture : Bitmap.Picture)
    (twoColors : Bool) (s : State) :
    (s.behind before).createPattern encode index picture twoColors =
      resultBehind before (s.createPattern encode index picture twoColors) := by
  unfold createPattern
  rw [patternOf_behind]
  cases s.patternOf encode picture twoColors with
  | mk u id =>
      exact put_behind before index
        (.brush ⟨Device.Brush.patternStyle, u.context.brush.color, 0, id⟩)
        (u.note .debug s!"pattern brush {index} -> img-{id}")

/-- A bracket gives up the one before it, applies the changes before its drawing and begins its
path. -/
theorem beginPath_behind (uses : List PathUse) (s : State) :
    (s.behind before).beginPath uses = resultBehind before (s.beginPath uses) := by
  unfold beginPath
  dsimp only
  rw [abandon_behind]
  -- what stands in front has no part in the search for the bracket
  cases hfound : pathUse? uses { s.abandon with brackets := s.abandon.brackets + 1 } with
  | none =>
      simp only [show pathUse? uses { s.abandon.behind before with
        brackets := (s.abandon.behind before).brackets + 1 } = none from hfound]
      rfl
  | some use =>
      simp only [show pathUse? uses { s.abandon.behind before with
        brackets := (s.abandon.behind before).brackets + 1 } = some use from hfound]
      have hready := replay_behind before use.before
        { s.abandon with brackets := s.abandon.brackets + 1 }
      exact congrArg (fun ready : State => (({ ready with
        bracket := some ⟨ready.context.clipAttributes, .empty⟩
        trail := .empty } : State), (none : Option Fault))) hready

/-- The end of a bracket writes its path and applies the changes after its drawing. -/
theorem endPath_behind (uses : List PathUse) (s : State) :
    (s.behind before).endPath uses = resultBehind before (s.endPath uses) := by
  unfold endPath
  simp only [show (s.behind before).bracket = s.bracket from rfl,
    show (s.behind before).pathUse? uses = s.pathUse? uses from rfl]
  split
  · rfl
  · split
    · rfl
    · rw [close_behind, replay_behind]
      rfl

/-- A command that neither begins nor ends the document does the same with a shell and without
one, in a namespace and in none, and behind any pieces. -/
theorem perform_behind (setup : Setup) (uses : List PathUse) {c : Command} (s : State)
    (hheader : c.soleKind? ≠ some .header) (hend : c ≠ .endOfFile) :
    (s.behind before).perform setup uses c =
      resultBehind before (s.perform setup.bare uses c) := by
  -- most commands cannot fail, and they shift what they write
  have hquiet {t u : State} (h : t = u.behind before) :
      ((t, none) : State × Option Fault) = resultBehind before (u, none) := by rw [h]; rfl
  cases c with
  | header h => exact absurd rfl hheader
  | endOfFile => exact absurd rfl hend
  | draw shape => exact hquiet (draw_behind before shape s)
  | beginPath => exact beginPath_behind before uses s
  | endPath => exact endPath_behind before uses s
  | closeFigure => exact hquiet (closeFigure_behind before s)
  | abortPath =>
      exact hquiet (congrArg (fun t : State => { t with trail := .empty })
        (abandon_behind before s))
  | mapMode code => exact hquiet (setMapMode_behind before code s)
  | moveTo p => exact hquiet (moveTo_behind before _ s)
  | restore relative => exact restore_behind before relative s
  | transform change => exact hquiet (transform_behind before change s)
  | create index tool => exact put_behind before index tool s
  | createPattern index picture twoColors =>
      exact createPattern_behind before setup.encode index picture twoColors s
  | select handle => exact select_behind before handle s
  | delete handle => exact delete_behind before handle s
  | clip change => exact hquiet (changeClip_behind before setup.combine change s)
  | blit area => exact hquiet (blit_behind before setup.encode area s)
  | label origin text => exact hquiet (emit_behind before _ s)
  | plus records => exact hquiet (runPlus_behind before _ s)
  | flattenPath | set _ | layout _ | save | nothing => rfl

end Behind

/-! ### Between the pieces of a shell -/

/-- The state in which the document stands between other pieces. -/
def between (before after : Document) (s : State) : State :=
  { s with written := before ++ s.written ++ after }

/-- With nothing at the end, a state is between pieces as it is behind them. -/
theorem between_empty (before : Document) (s : State) :
    s.between before #[] = s.behind before := by
  rw [between, Array.append_empty]
  rfl

/-- The header begins the fragment behind the beginning of the shell. -/
theorem beginDocument_shell (o : Options) (h : Header) {s : State} (hclosed : s.inPath = false)
    (hempty : s.written = #[]) :
    s.beginDocument o h = (s.beginDocument o.bare h).behind (head o h) := by
  have hhead : head o.bare h = #[] := rfl
  unfold beginDocument emit
  simp only [show (State.note .debug (headerText o h)
      { s with objects := .ofHandles h.handles, page := pageOf o h }).inPath = false from hclosed,
    show (State.note .debug (headerText o.bare h)
      { s with objects := .ofHandles h.handles, page := pageOf o.bare h }).inPath = false
      from hclosed, Bool.false_eq_true, if_false, hhead]
  simp only [behind, note, hempty, Array.empty_append]
  rw [← Array.append_singleton]
  rfl

/-- The end record closes the fragment and then the shell. -/
theorem endDocument_shell (before : Document) (o : Options) (s : State) :
    (s.behind before).endDocument o = (s.endDocument o.bare).between before (tail o) := by
  have htail : tail o.bare = #[] := rfl
  unfold endDocument
  rw [abandon_behind]
  have hclosed : s.abandon.inPath = false := by
    rw [inPath, (abandon_keeps s).1]
    rfl
  generalize s.abandon = closed at hclosed
  -- EMF+ records are ended in the same way behind any pieces
  have hfinish : (if o.plus then (closed.behind before).runPlus (·.finish)
      else closed.behind before) =
      (if o.bare.plus then closed.runPlus (·.finish) else closed).behind before := by
    show _ = (if o.plus then closed.runPlus (·.finish) else closed).behind before
    split
    · exact runPlus_behind before _ closed
    · rfl
  have hstill : (if o.bare.plus then closed.runPlus (·.finish) else closed).inPath = false := by
    split
    · rw [(runPlus_adds _ closed).inPath, hclosed]
    · exact hclosed
  dsimp only
  rw [hfinish]
  generalize (if o.bare.plus then closed.runPlus (·.finish) else closed) = u at hstill
  rw [emit_behind, emit, emit, hstill, htail]
  simp only [Bool.false_eq_true, if_false, behind, between, Array.append_empty,
    Array.append_assoc]
  rfl

/-- A record that neither begins nor ends the document is played in the same way behind any
pieces. -/
theorem next_behind (before : Document) (setup : Setup) (uses : List PathUse) {e : Entry}
    (s : State) (hheader : e.kind? ≠ some .header) (hend : e.kind? ≠ some .endOfFile) :
    (s.behind before).next setup uses e =
      resultBehind before (s.next setup.bare uses e) := by
  have hcommand : e.command setup.bare.options.plus = e.command setup.options.plus := rfl
  have hannounce : s.announce setup.bare e = s.announce setup e := rfl
  rw [next, next, step_eq, step_eq, announce_behind, hcommand, hannounce]
  cases hc : e.command setup.options.plus with
  | error cause => rfl
  | ok c =>
      refine perform_behind before setup uses _ (fun hkind => ?_) (fun hkind => ?_)
      · exact hheader ((Entry.command_soleKind? hc rfl).1 hkind)
      · rw [hkind] at hc
        exact hend ((Entry.command_soleKind? hc rfl).1 rfl)

/-- A playing between the pieces of a shell. The end of the shell is only written if all records
were played. -/
def playedBetween (before after : Document) (played : State × Option (Entry × Fault)) :
    State × Option (Entry × Fault) :=
  (played.1.between before (if played.2.isNone then after else #[]), played.2)

/-- The records after the header are played in the same way behind any pieces, and the end record
closes the shell. -/
theorem steps_behind (before : Document) (setup : Setup) (uses : List PathUse) {last : Entry}
    (hlast : last.kind? = some .endOfFile) (middle : List Entry)
    (hmiddle : ∀ e ∈ middle, e.kind? ≠ some .header ∧ e.kind? ≠ some .endOfFile) (s : State) :
    (s.behind before).steps setup uses (middle ++ [last]) =
      playedBetween before (tail setup.options)
        (s.steps setup.bare uses (middle ++ [last])) := by
  induction middle generalizing s with
  | nil =>
      have hplain := (Entry.command_of_kind setup.bare.options.plus).2.2.2 hlast
      have hshell := (Entry.command_of_kind setup.options.plus).2.2.2 hlast
      -- the last record writes the tail of the shell
      rw [List.nil_append, steps, steps, ← next, ← next, next_of_command hplain,
        next_of_command hshell, announce_behind]
      show (((s.announce setup last).behind before).endDocument setup.options, none) = _
      rw [endDocument_shell]
      rfl
  | cons e rest ih =>
      -- any other record writes the same with a shell and without one
      obtain ⟨⟨hheader, hend⟩, hrest⟩ := List.forall_mem_cons.1 hmiddle
      rw [List.cons_append, steps, steps, ← next, ← next,
        next_behind before setup uses s hheader hend]
      cases s.next setup.bare uses e with
      | mk t fault =>
          cases fault with
          | none => exact ih hrest t
          | some cause => exact Prod.ext (between_empty before t).symm rfl

end State

/-! ### The shell of a document -/

/-- The header that a record holds, if it can be read. -/
def headerOf? (e : Entry) : Option Header := (Header.decode.first e.body).toOption

/-- A header record asks for the beginning of the document, if it can be read. -/
theorem command_of_header (plus : Bool) {e : Entry} (hkind : e.kind? = some .header) :
    e.command plus = (Header.decode.first e.body).map Command.header := by
  have hdecode : e.command plus =
      (do return .header (← Header.decode) : Decode Command).first e.body := by
    unfold Entry.command
    rw [hkind]
    rfl
  rw [hdecode, Decode.first_map]

/-- The pieces that begin the shell of a document. There are none if its header cannot be read. -/
def shellPieces (o : Options) (first : Entry) : Document :=
  (headerOf? first).elim #[] (head o)

/-- Playing a document leaves behind what playing its fragment leaves behind, between the pieces
of the shell. -/
theorem steps_shell (setup : Setup) {stream : Bytes} {survey : Survey}
    (h : Survey.ofBytes stream = .ok survey) {first last : Entry} {middle : List Entry}
    (hentries : survey.entries = first :: (middle ++ [last])) :
    (State.start survey).steps setup survey.paths survey.entries =
      State.playedBetween (shellPieces setup.options first) (tail setup.options)
        ((State.start survey).steps setup.bare survey.paths survey.entries) := by
  have hfirst : first.kind? = some .header := Survey.header_of_entries h hentries
  have hend : survey.entries = (first :: middle) ++ last :: [] := hentries
  have hlast : last.kind? = some .endOfFile := (Survey.end_last h hend).2.2 rfl
  -- only the first record is a header, and only the last one ends the stream
  have hmiddle : ∀ e ∈ middle, e.kind? ≠ some .header ∧ e.kind? ≠ some .endOfFile := by
    intro e he
    obtain ⟨left, right, rfl⟩ := List.append_of_mem he
    have hplace : survey.entries = (first :: left) ++ e :: (right ++ [last]) := by
      rw [hentries]
      simp
    refine ⟨fun hkind => ?_, fun hkind => ?_⟩
    · cases (Survey.header_first h hplace).1 hkind
    · exact absurd ((Survey.end_last h hplace).2.1 hkind) (by simp)
  unfold shellPieces headerOf?
  rw [hentries, State.steps, State.steps, State.step_eq, State.step_eq,
    command_of_header setup.options.plus hfirst, command_of_header setup.bare.options.plus hfirst]
  cases Header.decode.first first.body with
  | error cause =>
      exact Prod.ext ((State.between_empty #[] _).trans (State.behind_empty _)).symm rfl
  | ok header =>
      -- the head of the shell is written first, and all that follows goes behind it
      obtain ⟨log, hlog⟩ := State.announce_eq setup first (State.start survey)
      have hlog' : (State.start survey).announce setup.bare first =
          { State.start survey with log } := hlog
      have hbegun := State.beginDocument_shell setup.options header
        (s := { State.start survey with log }) rfl rfl
      rw [hlog, hlog']
      show State.steps setup survey.paths (middle ++ [last])
        (State.beginDocument setup.options header { State.start survey with log }) = _
      rw [hbegun]
      exact State.steps_behind _ setup survey.paths hlast middle hmiddle _

/-- An accepted stream begins with its header and ends with its end record. -/
theorem entries_framed {stream : Bytes} {survey : Survey}
    (h : Survey.ofBytes stream = .ok survey) :
    ∃ first middle last, survey.entries = first :: (middle ++ [last]) ∧
      first.kind? = some .header ∧ last.kind? = some .endOfFile := by
  obtain ⟨front, last, hentries, hlast, _⟩ := Entry.cut_end (Survey.ofBytes_eq_ok h).1
  cases front with
  | nil =>
      -- the first record would be the header and the end record
      have hfirst : last.kind? = some .header := Survey.header_of_entries h hentries
      rw [hlast] at hfirst
      cases hfirst
  | cons first middle =>
      exact ⟨first, middle, last, hentries, Survey.header_of_entries h hentries, hlast⟩

/-- Whether all records of a survey are played, the end record being the last of them. -/
def playsAll (setup : Setup) (survey : Survey) : Bool :=
  ((State.start survey).steps setup survey.paths survey.entries).2.isNone

/-- All records are played if and only if the playing comes to the place behind them. -/
theorem playsAll_iff {setup : Setup} {stream : Bytes} {survey : Survey}
    (h : Survey.ofBytes stream = .ok survey) :
    playsAll setup survey = true ↔ ∃ t, Reaches setup stream survey survey.entries [] t := by
  rw [playsAll, Option.isNone_iff_eq_none]
  constructor
  · intro hplayed
    exact ⟨_, h, (List.append_nil _).symm, Prod.ext rfl hplayed⟩
  · rintro ⟨t, hreaches⟩
    rw [hreaches.played]

/-- What the playing of a document leaves behind. -/
theorem play_shell (setup : Setup) {stream : Bytes} {survey : Survey}
    (h : Survey.ofBytes stream = .ok survey) {first : Entry} {rest : List Entry}
    (hentries : survey.entries = first :: rest) :
    playsAll setup survey = playsAll setup.bare survey ∧
      play setup survey = (play setup.bare survey).between (shellPieces setup.options first)
        (if playsAll setup.bare survey then tail setup.options else #[]) := by
  obtain ⟨first', middle, last, hframed, _⟩ := entries_framed h
  obtain ⟨rfl, rfl⟩ := List.cons.inj (hentries.symm.trans hframed)
  have hsteps := steps_shell setup h hframed
  refine ⟨congrArg (fun played => played.2.isNone) hsteps, ?_⟩
  rw [playsAll]
  cases hbare : (State.start survey).steps setup.bare survey.paths survey.entries with
  | mk t halted =>
      rw [hbare] at hsteps
      cases halted with
      | none => rw [play_of_done hsteps, play_of_done hbare]
      | some stopped =>
          obtain ⟨last, fault⟩ := stopped
          -- both halt with the same fault, and so say the same
          obtain ⟨cause, rfl, hplay⟩ := play_of_halted hsteps
          obtain ⟨_, hsame, hplayBare⟩ := play_of_halted hbare
          obtain rfl := Fault.outOfBounds.inj hsame
          rw [hplay, hplayBare]
          rfl

/-- No bracket is open behind the end record. -/
theorem Reaches.closed_at_end {setup : Setup} {stream : Bytes} {survey : Survey} {t : State}
    (h : Reaches setup stream survey survey.entries [] t) : t.inPath = false := by
  obtain ⟨first, middle, last, hentries, _, hlast⟩ := entries_framed h.accepted
  have hcut := h
  rw [show survey.entries = (first :: middle) ++ [last] from hentries] at hcut
  obtain ⟨s, _, hsteps⟩ := hcut.cut
  obtain ⟨c, hc, hperform⟩ := State.next_eq_ok (State.steps_singleton.1 hsteps)
  obtain rfl : Command.endOfFile = c :=
    Except.ok.inj (((Entry.command_of_kind _).2.2.2 hlast).symm.trans hc)
  exact (State.perform_bracket hperform).1

/-- Where all records are played, the document has no unfinished path. -/
theorem bracket_of_playsAll {setup : Setup} {stream : Bytes} {survey : Survey}
    (h : Survey.ofBytes stream = .ok survey) (hplays : playsAll setup survey = true) :
    (play setup survey).bracket = none := by
  obtain ⟨t, hreaches⟩ := (playsAll_iff h).1 hplays
  rw [play_of_done hreaches.played]
  exact State.bracket_of_closed hreaches.closed_at_end

/-! ### The text of a document and of its fragment -/

/-- The text that begins a document around its fragment. It depends on nothing but the namespace,
the size that is asked for and the bytes of the header record. A header that cannot be read begins
nothing. -/
def shellHead (namespaceName : Option String) (width height : Float) (record : Bytes) : String :=
  let o : Options := { Options.initial with namespaceName, width, height }
  match Header.decode.first record with
  | .ok h => Markup.declarationText ++ (Piece.opening "svg" (rootAttributes o h)).text o.qualifier
  | .error _ => ""

/-- The line that ends a document around its fragment. -/
def shellTail (namespaceName : Option String) : String :=
  "</" ++ namespaceName.elim "" (· ++ ":") ++ "svg>\n"

/-- The text of the pieces that begin a shell. -/
theorem text_shellPieces (o : Options) (first : Entry) :
    Document.text o.qualifier (shellPieces { o with delimited := true } first) =
      shellHead o.namespaceName o.width o.height first.body := by
  unfold shellPieces headerOf? shellHead
  cases Header.decode.first first.body with
  | error cause => rfl
  | ok h =>
      show Document.text o.qualifier
        ((#[.declaration] : Document).push (.opening "svg" (rootAttributes o h))) = _
      rw [Document.text_push, Document.text_singleton]
      rfl

/-- The text of the piece that ends a shell. -/
theorem text_tail (o : Options) :
    Document.text o.qualifier (tail { o with delimited := true }) =
      shellTail o.namespaceName := by
  show Document.text o.qualifier #[.ending "svg"] = "</" ++ o.qualifier ++ "svg>\n"
  rw [Document.text_singleton, Piece.text_ending]
  simp only [String.append_assoc]
  rfl

/-- A document is its fragment in a shell. The beginning of the shell depends on the header
record, the namespace and the size that is asked for, and is empty if the header cannot be read.
The end of the shell is the end tag of the root, and is only written if the end record is played.
Both conversions are complete or neither is. -/
theorem convert_delimited (setup : Setup) {stream : Bytes} {survey : Survey}
    (h : Survey.ofBytes stream = .ok survey) :
    ∃ first middle last document documentLog fragment fragmentLog,
      survey.entries = first :: (middle ++ [last]) ∧
      first.kind? = some .header ∧ last.kind? = some .endOfFile ∧
      convert (setup.delimit true) stream = .ok (document, documentLog) ∧
      convert (setup.delimit false) stream = .ok (fragment, fragmentLog) ∧
      document.complete = fragment.complete ∧
      ((∃ t, Reaches (setup.delimit true) stream survey survey.entries [] t) ↔
        ∃ t, Reaches (setup.delimit false) stream survey survey.entries [] t) ∧
      ((∃ t, Reaches (setup.delimit true) stream survey survey.entries [] t) →
        document.svg = shellHead setup.options.namespaceName setup.options.width
          setup.options.height first.body ++ fragment.svg ++
          shellTail setup.options.namespaceName) ∧
      ((¬∃ t, Reaches (setup.delimit true) stream survey survey.entries [] t) →
        document.svg = shellHead setup.options.namespaceName setup.options.width
          setup.options.height first.body ++ fragment.svg) := by
  obtain ⟨first, middle, last, hentries, hfirst, hlast⟩ := entries_framed h
  obtain ⟨hall, hdocument⟩ := play_shell (setup.delimit true) h hentries
  obtain ⟨hall', hfragment⟩ := play_shell (setup.delimit false) h hentries
  -- both are compared with the same fragment without a namespace
  have hbare (delimited : Bool) : (setup.delimit delimited).bare = setup.bare := rfl
  rw [hbare] at hall hall' hdocument hfragment
  generalize hinner : play setup.bare survey = inner at hdocument hfragment
  have hnothing : shellPieces (setup.delimit false).options first = #[] := by
    unfold shellPieces
    cases headerOf? first <;> rfl
  have hnoTail : (if playsAll setup.bare survey then tail (setup.delimit false).options
      else #[]) = #[] := by
    split <;> rfl
  rw [hnothing, hnoTail, State.between_empty, State.behind_empty] at hfragment
  have hhead := text_shellPieces setup.options first
  refine ⟨first, middle, last, _, _, _, _, hentries, hfirst, hlast, convert_of_accepted _ h,
    convert_of_accepted _ h, ?_, ?_, fun hplayed => ?_, fun hhalted => ?_⟩
  · show (!(play (setup.delimit true) survey).failed) =
      !(play (setup.delimit false) survey).failed
    rw [hdocument, hfragment]
    rfl
  · rw [← playsAll_iff h, ← playsAll_iff h, hall, hall']
  · rw [← playsAll_iff h, hall] at hplayed
    have hclosed := bracket_of_playsAll h hplayed
    rw [hinner] at hclosed
    show (play (setup.delimit true) survey).text setup.options.qualifier =
      _ ++ (play (setup.delimit false) survey).text setup.options.qualifier ++ _
    rw [hdocument, hfragment, if_pos hplayed]
    simp only [State.text, State.between, Document.text_append, hclosed, Option.elim_none,
      String.append_empty]
    rw [← hhead, ← text_tail]
    rfl
  · rw [← playsAll_iff h, hall] at hhalted
    show (play (setup.delimit true) survey).text setup.options.qualifier =
      _ ++ (play (setup.delimit false) survey).text setup.options.qualifier
    rw [hdocument, hfragment, if_neg hhalted]
    simp only [State.text, State.between, Document.text_append, Array.append_empty]
    rw [← hhead, String.append_assoc]
    rfl

/-- A stream that holds a line. -/
def lineStream : Bytes :=
  Record.streamOf [(.header, List.replicate 80 0), (.lineTo, List.replicate 8 1),
    (.endOfFile, List.replicate 12 0)]

/-- A stream with a line to no point, which cannot be read. -/
def pointlessStream : Bytes :=
  Record.streamOf [(.header, List.replicate 80 0), (.lineTo, []),
    (.endOfFile, List.replicate 12 0)]

/-- A stream with a line ends with the end tag of the root. One whose line has no point ends
before it. -/
theorem convert_delimited_line :
    (∃ header document documentLog fragment fragmentLog,
      convert (Setup.plain.delimit true) lineStream = .ok (document, documentLog) ∧
      convert (Setup.plain.delimit false) lineStream = .ok (fragment, fragmentLog) ∧
      document.svg = shellHead none 0.0 0.0 header ++ fragment.svg ++ "</svg>\n") ∧
    ∃ header document documentLog fragment fragmentLog,
      convert (Setup.plain.delimit true) pointlessStream = .ok (document, documentLog) ∧
      convert (Setup.plain.delimit false) pointlessStream = .ok (fragment, fragmentLog) ∧
      document.svg = shellHead none 0.0 0.0 header ++ fragment.svg := by
  have hline := Survey.ofBytes_ofStream
    (by decide +kernel : (Survey.ofBytes lineStream).isOk = true)
  have hpointless := Survey.ofBytes_ofStream
    (by decide +kernel : (Survey.ofBytes pointlessStream).isOk = true)
  have hall : playsAll (Setup.plain.delimit true) (.ofStream lineStream) = true := by
    decide +kernel
  have hhalted : playsAll (Setup.plain.delimit true) (.ofStream pointlessStream) = false := by
    decide +kernel
  constructor
  · obtain ⟨first, _, _, document, documentLog, fragment, fragmentLog, _, _, _, hdocument,
      hfragment, _, _, hplayed, _⟩ := convert_delimited .plain hline
    exact ⟨first.body, document, documentLog, fragment, fragmentLog, hdocument, hfragment,
      hplayed ((playsAll_iff hline).1 hall)⟩
  · obtain ⟨first, _, _, document, documentLog, fragment, fragmentLog, _, _, _, hdocument,
      hfragment, _, _, _, hnotPlayed⟩ := convert_delimited .plain hpointless
    refine ⟨first.body, document, documentLog, fragment, fragmentLog, hdocument, hfragment,
      hnotPlayed fun hplayed => ?_⟩
    rw [← playsAll_iff hpointless, hhalted] at hplayed
    cases hplayed

end Playback

end Metafile
