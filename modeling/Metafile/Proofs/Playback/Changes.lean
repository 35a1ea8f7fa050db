import Metafile.Proofs.Playback.Effects

/-!
# `Metafile.Proofs.Playback.Changes`: the fields that an operation may change

Most operations change a few fields of the state and leave all others as they are. The equation of
such an operation names those fields and says no more: its right side is the old state with new
values in them. Whatever does not depend on these fields is then the same before and after, and a
proof of that is a rewriting by the equation.

The operations that do something to the path or to the brackets have equations of their own,
except for `abandon_eq`, which says what is left of a state when its bracket is given up.

`State.core` is what later records go back to or refer to by a number. Few commands change it
(`perform_core`), and fewer change what is declared or counted (`perform_tally`).
-/

set_option autoImplicit false

namespace Metafile.Playback.State

open Metafile.Markup (Document)
open Metafile.Record (ClipChange Command PathUse TransformChange)

/-! ### The document -/

/-- Writing pieces changes what is written or what is held back, and nothing else. -/
theorem emit_eq (pieces : Document) (s : State) :
    ∃ written held, s.emit pieces = { s with written, held } := by
  unfold emit
  split
  · exact ⟨s.written, _, rfl⟩
  · exact ⟨_, s.held, rfl⟩

/-- Giving up a path closes the bracket and writes its path with what was held back. -/
theorem abandon_eq (s : State) :
    ∃ written held, s.abandon = { s with bracket := none, written, held } := by
  cases hbracket : s.bracket with
  | none =>
      have hclosed : s.inPath = false := by rw [inPath, hbracket]; rfl
      rw [abandon_of_closed hclosed, ← hbracket]
      exact ⟨s.written, s.held, rfl⟩
  | some b =>
      rw [abandon_of_open hbracket]
      exact ⟨_, _, rfl⟩

/-- A picture that could not be encoded leaves a message. -/
theorem noteEmbedded_eq (e : Bitmap.Embedded) (s : State) :
    ∃ log, s.noteEmbedded e = { s with log } := by
  unfold noteEmbedded
  split
  · exact ⟨s.log, rfl⟩
  · exact ⟨_, rfl⟩

/-- A picture or a painted area is a piece, and perhaps a message. -/
theorem blit_eq (encode : Bitmap.Encoder) (b : Record.Blit) (s : State) :
    ∃ written held log, s.blit encode b = { s with written, held, log } := by
  unfold blit
  split
  · split
    · exact ⟨s.written, s.held, s.log, rfl⟩
    · obtain ⟨written, held, heq⟩ := emit_eq _ s
      rw [heq]
      exact ⟨written, held, s.log, rfl⟩
  · rename_i picture _
    obtain ⟨log, hnoted⟩ := noteEmbedded_eq (picture.embed encode none) s
    obtain ⟨written, held, heq⟩ := emit_eq _ { s with log }
    dsimp only
    rw [hnoted, heq]
    exact ⟨written, held, log, rfl⟩

/-- EMF+ records change their player. They see nothing of the state but the page, and what they
draw is pieces. -/
theorem runPlus_eq (act : Plus.Stage → Plus.Stage) (s : State) :
    ∃ written held log, s.runPlus act =
      { s with player := (act ⟨s.player, #[], #[]⟩).player, written, held, log } := by
  obtain ⟨written, held, heq⟩ := emit_eq (act ⟨s.player, #[], #[]⟩).drawn { s with
    player := (act ⟨s.player, #[], #[]⟩).player
    log := s.log ++ (act ⟨s.player, #[], #[]⟩).log }
  exact ⟨written, held, _, heq⟩

/-- The header gives the state its page and the slots of its tools, and writes the beginning of
the shell. -/
theorem beginDocument_eq (o : Options) (h : Record.Header) (s : State) :
    ∃ written held log, s.beginDocument o h =
      { s with objects := .ofHandles h.handles, page := pageOf o h, written, held, log } := by
  obtain ⟨written, held, heq⟩ := emit_eq ((head o h).push (originPiece o h))
    ({ s with objects := .ofHandles h.handles, page := pageOf o h }.note .debug (headerText o h))
  exact ⟨written, held, _, heq⟩

/-! ### The world transform -/

/-- The group of the world transform is written anew, and counts as open from then on. -/
theorem wrap_eq (s : State) :
    ∃ wrapped written held, s.wrap = { s with wrapped, written, held } := by
  unfold wrap
  split
  · exact ⟨s.wrapped, s.written, s.held, rfl⟩
  · obtain ⟨written, held, heq⟩ :=
      emit_eq ((if s.wrapped then #[.ending "g"] else #[] : Document).push s.wrapperPiece) s
    dsimp only
    rw [heq]
    exact ⟨true, written, held, rfl⟩

/-- Of the context, a change of the world transform changes the world transform alone. -/
theorem transform_eq (change : TransformChange) (s : State) :
    ∃ world wrapped written held log, s.transform change =
      { s with context := { s.context with world }, wrapped, written, held, log } := by
  unfold transform
  split
  · exact ⟨s.context.world, s.wrapped, s.written, s.held, s.log, rfl⟩
  · split
    · rename_i world _
      obtain ⟨wrapped, written, held, heq⟩ := wrap_eq (s.update fun c => { c with world })
      rw [heq]
      exact ⟨world, wrapped, written, held, s.log, rfl⟩
    · exact ⟨s.context.world, s.wrapped, s.written, s.held, _, rfl⟩

/-- Of the context, the changes that a bracket has deferred change the world transform alone. -/
theorem replay_eq (ts : List TransformChange) (s : State) :
    ∃ world wrapped written held, s.replay ts =
      { s with context := { s.context with world }, wrapped, written, held } := by
  unfold replay
  split
  · exact ⟨s.context.world, s.wrapped, s.written, s.held, rfl⟩
  · obtain ⟨wrapped, written, held, heq⟩ := wrap_eq (s.update fun c =>
      { c with world := ts.foldl (fun w t => t.onto w) c.world })
    rw [heq]
    exact ⟨_, wrapped, written, held, rfl⟩

/-- A return replaces the context and shortens the stack, and where it is refused the conversion
has failed. It is never a fault. -/
theorem restore_eq (relative : Int) (s : State) :
    ∃ context saved wrapped failed written held log, s.restore relative =
      ({ s with context, saved, wrapped, failed, written, held, log }, none) := by
  unfold restore
  split
  · rename_i context saved _
    dsimp only
    split
    · obtain ⟨wrapped, written, held, heq⟩ := wrap_eq { s with context, saved }
      rw [heq]
      exact ⟨context, saved, wrapped, s.failed, written, held, s.log, rfl⟩
    · exact ⟨context, saved, s.wrapped, s.failed, s.written, s.held, s.log, rfl⟩
  · exact ⟨s.context, s.saved, s.wrapped, true, s.written, s.held, _, rfl⟩
  · -- a context that was not saved is the only fault that there is
    rename_i fault hother hrefused
    exact (hother _ (Device.Saved.restore_eq_error hrefused)).elim

/-- Returning is never a fault, even if the context it returns to was not saved. -/
theorem restore_snd (relative : Int) (s : State) : (s.restore relative).2 = none := by
  obtain ⟨_, _, _, _, _, _, _, heq⟩ := restore_eq relative s
  rw [heq]

/-! ### Shapes and path brackets -/

/-- A shape is written or goes into the bracket and the trail, and it may move the position. -/
theorem draw_eq (shape : Record.Shape) (s : State) : ∃ bracket trail position written held,
    s.draw shape = { s with bracket, trail, position, written, held } := by
  unfold draw
  split
  · exact ⟨_, _, _, s.written, s.held, rfl⟩
  · split
    · exact ⟨s.bracket, s.trail, s.position, s.written, s.held, rfl⟩
    · obtain ⟨written, held, heq⟩ :=
        emit_eq #[s.shapePiece shape] { s with position := s.ownStop shape }
      exact ⟨s.bracket, s.trail, s.ownStop shape, written, held, heq⟩

/-- A move sets the position, and goes into the bracket and the trail if a path is open. -/
theorem moveTo_eq (p : Point Float) (s : State) : ∃ bracket trail position,
    s.moveTo p = { s with bracket, trail, position } := by
  unfold moveTo
  split
  · exact ⟨_, _, _, rfl⟩
  · exact ⟨s.bracket, s.trail, p, rfl⟩

/-- Closing a figure goes into the bracket and the trail, and moves the position to the beginning
of the figure. -/
theorem closeFigure_eq (s : State) : ∃ bracket trail position,
    s.closeFigure = { s with bracket, trail, position } := by
  unfold closeFigure
  split
  · exact ⟨_, _, _, rfl⟩
  · exact ⟨s.bracket, s.trail, s.position, rfl⟩

/-- A bracket is counted even if the survey does not know it. Of the context it changes the world
transform alone. -/
theorem beginPath_eq (uses : List PathUse) (s : State) :
    ∃ world bracket brackets trail wrapped written held, (s.beginPath uses).1 =
      { s with
        context := { s.context with world }
        bracket, brackets, trail, wrapped, written, held } := by
  obtain ⟨written, held, hgiven⟩ := abandon_eq s
  unfold beginPath
  dsimp only
  rw [hgiven]
  split
  · exact ⟨s.context.world, none, _, s.trail, s.wrapped, written, held, rfl⟩
  · rename_i use _
    obtain ⟨world, wrapped, written', held', heq⟩ := replay_eq use.before
      { s with bracket := none, brackets := s.brackets + 1, written, held }
    rw [heq]
    exact ⟨world, _, _, _, wrapped, written', held', rfl⟩

/-- The end of a bracket writes its path and applies the changes that come after its drawing. -/
theorem endPath_eq (uses : List PathUse) (s : State) :
    ∃ world bracket wrapped written held, (s.endPath uses).1 =
      { s with context := { s.context with world }, bracket, wrapped, written, held } := by
  unfold endPath
  split
  · exact ⟨s.context.world, s.bracket, s.wrapped, s.written, s.held, rfl⟩
  · split
    · exact ⟨s.context.world, s.bracket, s.wrapped, s.written, s.held, rfl⟩
    · rename_i bracket _ _ use _
      obtain ⟨world, wrapped, written, held, heq⟩ :=
        replay_eq use.after (s.close (s.pathPaint use) bracket)
      rw [heq]
      exact ⟨world, none, wrapped, written, held, rfl⟩

/-! ### Clip regions, modes and tools -/

/-- A clip region goes into the context with its number, and its definition is written and counted
if no path is open. -/
theorem setClip_eq (region : Outline Float) (s : State) :
    ∃ id clips written held, s.setClip region =
      { s with
        context := { s.context with clip := some ⟨region, id⟩ }, clips, written, held } := by
  unfold setClip
  split
  · exact ⟨0, s.clips, s.written, s.held, rfl⟩
  · obtain ⟨written, held, heq⟩ :=
      emit_eq #[clipDefinition (s.clips + 1) region] { s with clips := s.clips + 1 }
    dsimp only
    rw [heq]
    exact ⟨s.clips + 1, s.clips + 1, written, held, rfl⟩

/-- Every change of the clip region changes the clip region of the context and the count of
definitions at most. -/
theorem changeClip_eq (combine : Clip.Combiner) (change : ClipChange) (s : State) :
    ∃ clip clips written held log, s.changeClip combine change =
      { s with context := { s.context with clip }, clips, written, held, log } := by
  have hset (region : Outline Float) : ∃ clip clips written held log, s.setClip region =
      { s with context := { s.context with clip }, clips, written, held, log } := by
    obtain ⟨id, clips, written, held, heq⟩ := setClip_eq region s
    exact ⟨_, clips, written, held, s.log, heq⟩
  unfold changeClip
  split
  · exact hset _
  · exact hset _
  · unfold shiftClip
    split
    · exact ⟨s.context.clip, s.clips, s.written, s.held, s.log, rfl⟩
    · exact hset _
  · exact hset _
  · exact ⟨none, s.clips, s.written, s.held, _, rfl⟩

/-- A map mode is a part of the mapping, or it is unknown and leaves a message. -/
theorem setMapMode_eq (code : Nat) (s : State) :
    ∃ mapping log, s.setMapMode code = { s with context := { s.context with mapping }, log } := by
  unfold setMapMode
  split
  · exact ⟨_, s.log, rfl⟩
  · exact ⟨s.context.mapping, _, rfl⟩

/-- A tool goes into a slot, if there is such a slot. -/
theorem put_eq (index : Nat) (tool : Device.Tool) (s : State) :
    ∃ objects, (s.put index tool).1 = { s with objects } := by
  unfold put
  split
  · exact ⟨_, rfl⟩
  · exact ⟨s.objects, rfl⟩

/-- A slot is emptied, if there is such a slot. -/
theorem delete_eq (handle : Nat) (s : State) :
    ∃ objects, (s.delete handle).1 = { s with objects } := by
  unfold delete
  split
  · exact ⟨s.objects, rfl⟩
  · split
    · exact ⟨_, rfl⟩
    · exact ⟨s.objects, rfl⟩

/-- Selecting a tool changes the context, or leaves a message about a stock tool that does not
exist. -/
theorem select_eq (handle : Nat) (s : State) :
    ∃ context log, (s.select handle).1 = { s with context, log } := by
  unfold select
  split
  · split
    · exact ⟨_, s.log, rfl⟩
    · exact ⟨s.context, _, rfl⟩
  · split
    · exact ⟨_, s.log, rfl⟩
    · exact ⟨s.context, s.log, rfl⟩

/-- The look for a picture adds it to those that are known, with its definition and perhaps with
messages about it. -/
theorem patternOf_eq (encode : Bitmap.Encoder) (picture : Bitmap.Picture) (twoColors : Bool)
    (s : State) : ∃ images written held log, (s.patternOf encode picture twoColors).1 =
      { s with images, written, held, log } := by
  unfold patternOf
  split
  · exact ⟨s.images, s.written, s.held, s.log, rfl⟩
  · split
    · exact ⟨s.images, s.written, s.held, s.log, rfl⟩
    · unfold definePattern
      dsimp only
      obtain ⟨log, hnoted⟩ := noteEmbedded_eq
        (picture.embed encode (if twoColors then some (State.twoColors s.context) else none))
        { s with images := (s.images.add picture).1 }
      rw [hnoted]
      obtain ⟨written, held, heq⟩ := emit_eq _
        ({ s with images := (s.images.add picture).1, log } : State)
      exact ⟨_, written, held, log, heq⟩

/-- The brush is put into its slot after its picture is defined. -/
theorem createPattern_put (encode : Bitmap.Encoder) (index : Nat) (picture : Bitmap.Picture)
    (twoColors : Bool) (s : State) :
    ∃ objects log, (s.createPattern encode index picture twoColors).1 =
      { (s.patternOf encode picture twoColors).1 with objects, log } := by
  unfold createPattern
  cases s.patternOf encode picture twoColors with
  | mk u id =>
      obtain ⟨objects, hput⟩ := put_eq index
        (.brush ⟨Device.Brush.patternStyle, u.context.brush.color, 0, id⟩)
        (u.note .debug s!"pattern brush {index} -> img-{id}")
      exact ⟨objects, _, hput⟩

/-- A brush with a picture is the look for the picture, and then a tool in its slot. -/
theorem createPattern_eq (encode : Bitmap.Encoder) (index : Nat) (picture : Bitmap.Picture)
    (twoColors : Bool) (s : State) :
    ∃ objects images written held log, (s.createPattern encode index picture twoColors).1 =
      { s with objects, images, written, held, log } := by
  obtain ⟨objects, log', hput⟩ := createPattern_put encode index picture twoColors s
  obtain ⟨images, written, held, log, hpattern⟩ := patternOf_eq encode picture twoColors s
  rw [hput, hpattern]
  exact ⟨objects, images, written, held, log', rfl⟩

/-- Whether a command leaves the path, the position and the way to the page alone. Such commands
are about tools, clip regions, pictures, texts and comments. -/
def keepsPlaces : Command → Bool
  | .create .. | .createPattern .. | .delete _ | .clip _ | .blit _ | .label .. | .plus _
  | .flattenPath | .layout _ | .nothing => true
  | _ => false

/-- A command that leaves the places alone changes nothing of the context but the clip region, and
nothing of the bracket. -/
theorem perform_eq_of_keepsPlaces (setup : Setup) (uses : List PathUse) (s : State) {c : Command}
    (hkeeps : keepsPlaces c = true) :
    ∃ clip objects images player trail clips rightToLeft written held log,
      (s.perform setup uses c).1 =
        { s with
          context := { s.context with clip }
          objects, images, player, trail, clips, rightToLeft, written, held, log } := by
  cases c with
  | create index tool =>
      obtain ⟨objects, heq⟩ := put_eq index tool s
      exact ⟨_, objects, _, _, _, _, _, _, _, _, heq⟩
  | createPattern index picture fromContext =>
      obtain ⟨objects, images, written, held, log, heq⟩ :=
        createPattern_eq setup.encode index picture fromContext s
      exact ⟨_, objects, images, _, _, _, _, written, held, log, heq⟩
  | delete handle =>
      obtain ⟨objects, heq⟩ := delete_eq handle s
      exact ⟨_, objects, _, _, _, _, _, _, _, _, heq⟩
  | clip change =>
      obtain ⟨clip, clips, written, held, log, heq⟩ := changeClip_eq setup.combine change s
      exact ⟨clip, _, _, _, _, clips, _, written, held, log, heq⟩
  | blit area =>
      obtain ⟨written, held, log, heq⟩ := blit_eq setup.encode area s
      exact ⟨_, _, _, _, _, _, _, written, held, log, heq⟩
  | label origin text =>
      obtain ⟨written, held, heq⟩ := emit_eq #[s.labelPiece origin text] s
      exact ⟨_, _, _, _, _, _, _, written, held, _, heq⟩
  | plus records =>
      obtain ⟨written, held, log, heq⟩ :=
        runPlus_eq (·.play setup.options.verbose s.page.scale records) s
      exact ⟨_, _, _, _, _, _, _, written, held, log, heq⟩
  | flattenPath | layout _ | nothing => exact ⟨_, _, _, _, _, _, _, _, _, _, rfl⟩
  | _ => cases hkeeps

/-! ### Definitions -/

/-- Inside of a path no definition is written, and the clip region has no number. -/
theorem setClip_of_open {s : State} (h : s.inPath = true) (region : Outline Float) :
    s.setClip region = s.update fun c => { c with clip := some ⟨region, 0⟩ } := by
  unfold setClip
  rw [if_pos h]

/-- Outside of a path a clip region is defined under the next number. -/
theorem setClip_of_closed {s : State} (h : s.inPath = false) (region : Outline Float) :
    s.setClip region =
      { s with
        context := { s.context with clip := some ⟨region, s.clips + 1⟩ }
        clips := s.clips + 1
        written := s.written.push (clipDefinition (s.clips + 1) region) } := by
  unfold setClip emit update
  have hclosed : ({ s with clips := s.clips + 1 } : State).inPath = false := h
  simp only [h, hclosed, Bool.false_eq_true, if_false, Array.append_singleton]

/-- A picture as a record shows it: in the two colours of the context, or in its own. -/
def embedded (encode : Bitmap.Encoder) (picture : Bitmap.Picture) (fromContext : Bool)
    (s : State) : Bitmap.Embedded :=
  picture.embed encode (if fromContext then some (twoColors s.context) else none)

/-- The definition of a picture under a number, with the colours and the scale of the moment. -/
def patternPiece (encode : Bitmap.Encoder) (picture : Bitmap.Picture) (fromContext : Bool)
    (id : Nat) (s : State) : Markup.Piece :=
  let e := s.embedded encode picture fromContext
  patternDefinition id e.uri (Float.ofNat e.columns * s.page.scale)
    (Float.ofNat e.rows * s.page.scale)

/-- A brush is made outside of a path from a picture that is defined already, or from one that is
defined under the next number. Inside of a path it repeats no picture. -/
theorem patternOf_cases (encode : Bitmap.Encoder) (picture : Bitmap.Picture) (fromContext : Bool)
    (s : State) :
    s.inPath = true ∧ s.patternOf encode picture fromContext = (s, 0) ∨
      s.inPath = false ∧ (∃ id, s.images.find? picture = some id ∧
        s.patternOf encode picture fromContext = (s, id)) ∨
      s.inPath = false ∧ s.images.find? picture = none ∧
        ∃ log, s.patternOf encode picture fromContext =
          ({ s with
            images := s.images.push picture
            written := s.written.push
              (s.patternPiece encode picture fromContext (s.images.size + 1))
            log }, s.images.size + 1) := by
  unfold patternOf
  -- inside of a path no pattern is defined, and outside of it only one that is not known
  cases hopen : s.inPath with
  | true => exact Or.inl ⟨rfl, if_pos rfl⟩
  | false =>
      rw [if_neg Bool.false_ne_true]
      cases hfind : s.images.find? picture with
      | some id => exact Or.inr (Or.inl ⟨rfl, id, rfl, rfl⟩)
      | none =>
          obtain ⟨log, hnoted⟩ := noteEmbedded_eq
            (picture.embed encode (if fromContext then some (twoColors s.context) else none))
            { s with images := s.images.push picture }
          refine Or.inr (Or.inr ⟨rfl, rfl, log, ?_⟩)
          have hclosed :
              ({ s with images := s.images.push picture, log } : State).inPath = false :=
            hopen
          unfold definePattern Device.ImageLibrary.add
          dsimp only
          rw [hnoted, emit, if_neg (by rw [hclosed]; exact Bool.false_ne_true),
            Array.append_singleton]
          rfl

/-! ### What most commands leave alone -/

/-- What later records go back to or refer to: the page, parts of the context, the saved contexts,
the slots, the definitions that were counted, and the EMF+ player. -/
structure Core where
  page : Page Float
  brush : Device.Brush
  font : Device.Font
  clip : Option Device.ClipRegion
  saved : Device.Saved
  objects : Device.ObjectTable
  images : Device.ImageLibrary
  clips : Nat
  player : Plus.Player

/-- What later records go back to or refer to. -/
def core (s : State) : Core where
  page := s.page
  brush := s.context.brush
  font := s.context.font
  clip := s.context.clip
  saved := s.saved
  objects := s.objects
  images := s.images
  clips := s.clips
  player := s.player

/-- A setting changes no tool and no clip region. -/
theorem onto_core (setting : Record.Setting) (s : State) :
    (s.update setting.onto).core = s.core := by
  unfold update core Record.Setting.onto
  dsimp only
  split <;> try rfl
  -- a direction of arcs that does not exist changes nothing
  unfold Device.Context.setArcDirection
  split <;> rfl

/-- Whether a command may change the core of a state. -/
def changesCore : Command → Bool
  | .header _ | .endOfFile | .save | .restore _ | .create .. | .createPattern .. | .select _
  | .delete _ | .clip _ | .plus _ => true
  | _ => false

/-- All other commands leave the core alone. -/
theorem perform_core (setup : Setup) (uses : List PathUse) {c : Command} (s : State)
    (hkeeps : changesCore c = false) : (s.perform setup uses c).1.core = s.core := by
  -- each command is read off the equation that lists what it changes
  cases c with
  | draw shape =>
      obtain ⟨bracket, trail, position, written, held, heq⟩ := draw_eq shape s
      exact (congrArg core heq).trans rfl
  | beginPath =>
      obtain ⟨world, bracket, brackets, trail, wrapped, written, held, heq⟩ := beginPath_eq uses s
      exact (congrArg core heq).trans rfl
  | endPath =>
      obtain ⟨world, bracket, wrapped, written, held, heq⟩ := endPath_eq uses s
      exact (congrArg core heq).trans rfl
  | closeFigure =>
      obtain ⟨bracket, trail, position, heq⟩ := closeFigure_eq s
      exact (congrArg core heq).trans rfl
  | abortPath =>
      obtain ⟨written, held, heq⟩ := abandon_eq s
      exact (congrArg core heq).trans rfl
  | set setting => exact onto_core setting s
  | mapMode code =>
      obtain ⟨mapping, log, heq⟩ := setMapMode_eq code s
      exact (congrArg core heq).trans rfl
  | moveTo p =>
      obtain ⟨bracket, trail, position, heq⟩ := moveTo_eq (.ofInt p) s
      exact (congrArg core heq).trans rfl
  | transform change =>
      obtain ⟨world, wrapped, written, held, log, heq⟩ := transform_eq change s
      exact (congrArg core heq).trans rfl
  | blit area =>
      obtain ⟨written, held, log, heq⟩ := blit_eq setup.encode area s
      exact (congrArg core heq).trans rfl
  | label origin text =>
      obtain ⟨written, held, heq⟩ := emit_eq #[s.labelPiece origin text] s
      exact (congrArg core heq).trans rfl
  | flattenPath | layout _ | nothing => rfl
  | header _ | endOfFile | save | restore _ | create _ _ | createPattern _ _ _ | select _
  | delete _ | clip _ | plus _ => cases hkeeps

/-- The number of clip regions that were defined, and the pictures. -/
def counts (s : State) : Nat × Device.ImageLibrary := (s.clips, s.images)

/-- What the header of a metafile declares: the page, and how many slots there are. -/
def declared (s : State) : Page Float × Nat := (s.page, s.objects.slots.size)

/-- What is declared and counted so far. -/
def tally (s : State) : (Page Float × Nat) × Nat × Device.ImageLibrary := (s.declared, s.counts)

/-- A slot is no figure of the tally. -/
theorem put_tally (index : Nat) (tool : Device.Tool) (s : State) :
    (s.put index tool).1.tally = s.tally := by
  unfold put
  split
  · rename_i objects hobjects
    exact congrArg (fun slots => ((s.page, slots), s.counts))
      (Device.ObjectTable.size_set hobjects)
  · rfl

/-- A slot is no figure of the tally, also when it is emptied. -/
theorem delete_tally (handle : Nat) (s : State) : (s.delete handle).1.tally = s.tally := by
  unfold delete
  split
  · rfl
  · split
    · rename_i objects hobjects
      exact congrArg (fun slots => ((s.page, slots), s.counts))
        (Device.ObjectTable.size_set hobjects)
    · rfl

/-- A brush with a picture leaves what the header has declared. -/
theorem createPattern_declared (encode : Bitmap.Encoder) (index : Nat) (picture : Bitmap.Picture)
    (fromContext : Bool) (s : State) :
    (s.createPattern encode index picture fromContext).1.declared = s.declared := by
  obtain ⟨images, written, held, log, heq⟩ := patternOf_eq encode picture fromContext s
  unfold createPattern
  exact (congrArg Prod.fst
    (put_tally index _ ((s.patternOf encode picture fromContext).1.note _ _))).trans
    ((congrArg declared heq).trans rfl)

/-- Declarations are made by the header, and definitions by changes of the clip region and by
brushes that repeat a picture. -/
theorem perform_tally (setup : Setup) (uses : List PathUse) {c : Command} (s : State)
    (hheader : ∀ header, c ≠ .header header) (hclip : ∀ change, c ≠ .clip change)
    (hpattern : ∀ index picture fromContext, c ≠ .createPattern index picture fromContext) :
    (s.perform setup uses c).1.tally = s.tally := by
  -- what keeps the core keeps the tally, which is a part of it
  cases hkeeps : changesCore c with
  | false =>
      exact congrArg (fun k : Core => ((k.page, k.objects.slots.size), k.clips, k.images))
        (perform_core setup uses s hkeeps)
  | true =>
      cases c with
      | header header => exact absurd rfl (hheader header)
      | endOfFile =>
          obtain ⟨player, log, heq⟩ := endDocument_eq setup.options s
          obtain ⟨written, held, hgiven⟩ := abandon_eq s
          rw [hgiven] at heq
          exact (congrArg tally heq).trans rfl
      | save => rfl
      | restore relative =>
          obtain ⟨context, saved, wrapped, failed, written, held, log, heq⟩ :=
            restore_eq relative s
          exact (congrArg (tally ·.1) heq).trans rfl
      | create index tool => exact put_tally index tool s
      | createPattern index picture fromContext =>
          exact absurd rfl (hpattern index picture fromContext)
      | select handle =>
          obtain ⟨context, log, heq⟩ := select_eq handle s
          exact (congrArg tally heq).trans rfl
      | delete handle => exact delete_tally handle s
      | clip change => exact absurd rfl (hclip change)
      | plus records =>
          obtain ⟨written, held, log, heq⟩ :=
            runPlus_eq (·.play setup.options.verbose s.page.scale records) s
          exact (congrArg tally heq).trans rfl
      | _ => cases hkeeps

/-- A command that makes no definition leaves their numbers as they are. -/
theorem perform_counts (setup : Setup) (uses : List PathUse) {c : Command} (s : State)
    (hclip : ∀ change, c ≠ .clip change)
    (hpattern : ∀ index picture fromContext, c ≠ .createPattern index picture fromContext) :
    (s.perform setup uses c).1.counts = s.counts := by
  by_cases hheader : ∃ header, c = .header header
  · obtain ⟨header, rfl⟩ := hheader
    obtain ⟨written, held, log, heq⟩ := beginDocument_eq setup.options header s
    exact (congrArg counts heq).trans rfl
  · exact congrArg Prod.snd
      (perform_tally setup uses s (fun header hc => hheader ⟨header, hc⟩) hclip hpattern)

/-- The page and the number of slots are those of the header. -/
theorem perform_declared (setup : Setup) (uses : List PathUse) {c : Command} (s : State)
    (hheader : ∀ header, c ≠ .header header) :
    (s.perform setup uses c).1.declared = s.declared := by
  by_cases hclip : ∃ change, c = .clip change
  · obtain ⟨change, rfl⟩ := hclip
    obtain ⟨clip, clips, written, held, log, heq⟩ := changeClip_eq setup.combine change s
    exact (congrArg declared heq).trans rfl
  by_cases hpattern : ∃ index picture fromContext, c = .createPattern index picture fromContext
  · obtain ⟨index, picture, fromContext, rfl⟩ := hpattern
    exact createPattern_declared setup.encode index picture fromContext s
  · exact congrArg Prod.fst (perform_tally setup uses s hheader
      (fun change hc => hclip ⟨change, hc⟩)
      fun index picture fromContext hc => hpattern ⟨index, picture, fromContext, hc⟩)

/-- A command keeps the pictures that are known. Only a brush that is made outside of a path from
an unknown picture makes it known, and writes its definition. -/
theorem perform_images (setup : Setup) (uses : List PathUse) (c : Command) (s : State) :
    (s.perform setup uses c).1.images = s.images ∨
      ∃ index picture fromContext, c = .createPattern index picture fromContext ∧
        s.inPath = false ∧ s.images.find? picture = none ∧
        (s.perform setup uses c).1.images = s.images.push picture ∧
        s.patternPiece setup.encode picture fromContext (s.images.size + 1) ∈
          (s.perform setup uses c).1.written := by
  -- only a pattern adds a picture, and only one that is not known
  by_cases hpattern : ∃ index picture fromContext, c = .createPattern index picture fromContext
  · obtain ⟨index, picture, fromContext, rfl⟩ := hpattern
    -- putting the brush into its slot has no part in the pictures
    obtain ⟨objects, log', hput⟩ := createPattern_put setup.encode index picture fromContext s
    have himages : (s.perform setup uses (.createPattern index picture fromContext)).1.images =
        (s.patternOf setup.encode picture fromContext).1.images :=
      (congrArg images hput).trans rfl
    have hwritten : (s.perform setup uses (.createPattern index picture fromContext)).1.written =
        (s.patternOf setup.encode picture fromContext).1.written :=
      (congrArg written hput).trans rfl
    rw [himages, hwritten]
    rcases patternOf_cases setup.encode picture fromContext s with
      ⟨_, heq⟩ | ⟨_, id, _, heq⟩ | ⟨hclosed, hunknown, log, heq⟩
    · exact Or.inl (by rw [heq])
    · exact Or.inl (by rw [heq])
    · rw [heq]
      exact Or.inr ⟨index, picture, fromContext, rfl, hclosed, hunknown, rfl, Array.mem_push_self⟩
  by_cases hclip : ∃ change, c = .clip change
  · obtain ⟨change, rfl⟩ := hclip
    obtain ⟨clip, clips, written, held, log, heq⟩ := changeClip_eq setup.combine change s
    exact Or.inl ((congrArg images heq).trans rfl)
  · exact Or.inl (congrArg Prod.snd (perform_counts setup uses s
      (fun change hc => hclip ⟨change, hc⟩)
      fun index picture fromContext hc => hpattern ⟨index, picture, fromContext, hc⟩))

end Metafile.Playback.State
