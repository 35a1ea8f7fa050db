import Metafile.Proofs.Playback.Families
import Metafile.Proofs.Playback.Outcome
import Metafile.Proofs.Record.Counterparts

/-!
# `Metafile.Proofs.Playback.Alike`: two runs side by side

What is drawn never decides what is drawn next: no operation reads the pieces that are written or
held back, nor the messages. So two runs that begin alike stay alike. `State.Alike view s t` says
that `t` is `s` but for the pieces and the messages, and that the pieces look the same through a
view, any function of pieces. With the view `id` they are the same pieces.

The two runs may differ in what makes the pictures, as long as the view does not show it
(`SameView`), in the records, as long as they ask for the same (`State.SameRequest`), and in
whether EMF+ records are drawn, as long as there are none. There is one lemma for each operation,
`State.perform_alike` for a command, `State.steps_alike` for a list of records, and `play_alike`
for a whole conversion. `convert_of_counterparts` states that streams that say the same are
converted to the same picture.
-/

set_option autoImplicit false

namespace Metafile.Playback

open Metafile.Markup (Document Piece)
open Metafile.Record (ClipChange Command Entry Matches PathUse Shape Survey TransformChange)

/-! ### Setups -/

/-- A setup with another encoder, and in which EMF+ records are drawn or not. -/
def Setup.vary (plus : Bool) (encode : Bitmap.Encoder) (setup : Setup) : Setup :=
  { setup with options := { setup.options with plus }, encode }

/-- Two encoders whose pictures look the same through a view. -/
structure SameView (view : Piece → Piece) (encode encode' : Bitmap.Encoder) : Prop where
  picture : ∀ (picture : Bitmap.Picture) (r : Rect Float) (opacity : Option Float)
    (clip : Option String),
    view (.element (pictureElement r opacity clip (picture.embed encode' none).uri)) =
      view (.element (pictureElement r opacity clip (picture.embed encode none).uri))
  pattern : ∀ (picture : Bitmap.Picture) (colors : Option Bitmap.Palette) (id : Nat)
    (width height : Float),
    view (patternDefinition id (picture.embed encode' colors).uri width height) =
      view (patternDefinition id (picture.embed encode colors).uri width height)

/-- An encoder gives the same pictures as itself. -/
theorem SameView.refl (view : Piece → Piece) (encode : Bitmap.Encoder) :
    SameView view encode encode :=
  ⟨fun _ _ _ _ => rfl, fun _ _ _ _ _ => rfl⟩

/-- The size of a picture is read off its header, so the definition of its pattern looks the
same. -/
theorem SameView.patternPiece {view : Piece → Piece} {encode encode' : Bitmap.Encoder}
    (h : SameView view encode encode') (picture : Bitmap.Picture) (fromContext : Bool) (id : Nat)
    (s : State) :
    view (s.patternPiece encode' picture fromContext id) =
      view (s.patternPiece encode picture fromContext id) := by
  unfold State.patternPiece State.embedded
  have hextent := fun given => (picture.embed_extent encode' given).trans
    (picture.embed_extent encode given).symm
  obtain ⟨hcolumns, hrows⟩ := Prod.mk.inj (hextent
    (if fromContext then some (State.twoColors s.context) else none))
  dsimp only
  rw [hcolumns, hrows]
  exact h.pattern ..

namespace State

/-! ### States -/

/-- A state and another one that differs from it at most in the pieces and the messages, where the
pieces look the same through a view. -/
inductive Alike (view : Piece → Piece) (s : State) : State → Prop
  | intro (written held : Document) (log : Log) (hwritten : written.map view = s.written.map view)
      (hheld : held.map view = s.held.map view) : Alike view s { s with written, held, log }

/-- Two results of an operation: the states are alike and the fault is the same. -/
structure AlikeResults (view : Piece → Piece) (r r' : State × Option Fault) : Prop where
  state : Alike view r.1 r'.1
  fault : r'.2 = r.2

variable {view : Piece → Piece} {s t : State} {encode encode' : Bitmap.Encoder}

/-- Single pieces that look the same. -/
private theorem singleton_map {p q : Piece} (h : view q = view p) :
    (#[q] : Document).map view = (#[p] : Document).map view := by
  rw [Array.map_singleton, Array.map_singleton, h]

namespace Alike

/-- A state is like itself. -/
theorem refl (view : Piece → Piece) (s : State) : Alike view s s :=
  ⟨s.written, s.held, s.log, rfl, rfl⟩

/-- States that are alike have the same context, so what is drawn later is placed and styled
alike. -/
theorem context (h : Alike view s t) : t.context = s.context := by
  cases h
  rfl

/-- States that are alike are complete or incomplete together. -/
theorem failed (h : Alike view s t) : t.failed = s.failed := by
  cases h
  rfl

/-- Messages do not count, neither their number nor their texts. -/
theorem note (h : Alike view s t) (level level' : Level) (text text' : String) :
    Alike view (s.note level text) (t.note level' text') := by
  cases h with
  | intro written held log hwritten hheld => exact ⟨_, _, _, hwritten, hheld⟩

/-- A failure leaves both states incomplete, whatever is said about it. -/
theorem fail (h : Alike view s t) (text text' : String) :
    Alike view (s.fail text) (t.fail text') := by
  cases h with
  | intro written held log hwritten hheld => exact ⟨_, _, _, hwritten, hheld⟩

/-- A change of the context is the same change for both. -/
theorem update (h : Alike view s t) (f : Device.Context → Device.Context) :
    Alike view (s.update f) (t.update f) := by
  cases h with
  | intro written held log hwritten hheld => exact ⟨_, _, _, hwritten, hheld⟩

/-- Pieces that look the same are written or held back in the same way, since a path is open in
both states or in neither. -/
theorem emit (h : Alike view s t) {pieces pieces' : Document}
    (hpieces : pieces'.map view = pieces.map view) :
    Alike view (s.emit pieces) (t.emit pieces') := by
  cases h with
  | intro written held log hwritten hheld =>
      unfold State.emit
      change Alike view _ (if s.inPath then _ else _)
      split
      · exact ⟨_, _, _, hwritten, by rw [Array.map_append, Array.map_append, hheld, hpieces]⟩
      · exact ⟨_, _, _, by rw [Array.map_append, Array.map_append, hwritten, hpieces], hheld⟩

/-- Whether a record is listed is a matter of messages. -/
theorem announce (h : Alike view s t) (setup : Setup) (plus : Bool) (encode : Bitmap.Encoder)
    (e e' : Entry) :
    Alike view (s.announce setup e) (t.announce (setup.vary plus encode) e') := by
  unfold State.announce
  change Alike view _ (if setup.options.verbose then _ else _)
  split
  · exact h.note ..
  · exact h

/-! ### Shapes and texts -/

/-- A shape reads the context, the open bracket and the position, which are the same, and so its
piece is. -/
theorem draw (h : Alike view s t) (shape : Shape) : Alike view (s.draw shape) (t.draw shape) := by
  cases h with
  | intro written held log hwritten hheld =>
      unfold State.draw
      dsimp only
      split
      · exact ⟨_, _, _, hwritten, hheld⟩
      · split
        · exact ⟨_, _, _, hwritten, hheld⟩
        · refine Alike.emit ?_ rfl
          exact ⟨_, _, _, hwritten, hheld⟩

/-- The position is set in both, and in an open bracket a move is drawn in both. -/
theorem moveTo (h : Alike view s t) (p : Point Float) :
    Alike view (s.moveTo p) (t.moveTo p) := by
  cases h with
  | intro written held log hwritten hheld =>
      unfold State.moveTo
      dsimp only
      split <;> exact ⟨_, _, _, hwritten, hheld⟩

/-- Closing a figure is a change of the bracket and the trail, in which the states agree. -/
theorem closeFigure (h : Alike view s t) : Alike view s.closeFigure t.closeFigure := by
  cases h with
  | intro written held log hwritten hheld =>
      unfold State.closeFigure
      dsimp only
      split <;> exact ⟨_, _, _, hwritten, hheld⟩

/-- A text becomes the same piece, since it depends on the context and the page only. -/
theorem label (h : Alike view s t) (origin : Point Int) (text : String) :
    Alike view (s.label origin text) (t.label origin text) := by
  cases h with
  | intro written held log hwritten hheld =>
      refine Alike.emit ?_ rfl
      exact ⟨_, _, _, hwritten, hheld⟩

/-! ### Pictures and clip regions -/

/-- A picture that could not be encoded is reported. The report may differ, and the rest does not.
-/
theorem noteEmbedded (h : Alike view s t) (e e' : Bitmap.Embedded) :
    Alike view (s.noteEmbedded e) (t.noteEmbedded e') := by
  obtain ⟨log, hs⟩ := noteEmbedded_eq e s
  obtain ⟨log', ht⟩ := noteEmbedded_eq e' t
  rw [hs, ht]
  cases h with
  | intro written held _ hwritten hheld => exact ⟨_, _, _, hwritten, hheld⟩

/-- A picture is drawn by two encoders. The pieces are not equal, but they look the same through
the view. -/
theorem blit (h : Alike view s t) (hencode : SameView view encode encode') (b : Record.Blit) :
    Alike view (s.blit encode b) (t.blit encode' b) := by
  cases h with
  | intro written held log hwritten hheld =>
      unfold State.blit
      dsimp only
      split
      · split
        · exact ⟨_, _, _, hwritten, hheld⟩
        · refine Alike.emit ?_ rfl
          exact ⟨_, _, _, hwritten, hheld⟩
      · refine Alike.emit (Alike.noteEmbedded ?_ _ _) (singleton_map (hencode.picture ..))
        exact ⟨_, _, _, hwritten, hheld⟩

/-- A clip region gets the same number and the same definition in both states, or inside of a path
it gets none in both. -/
theorem setClip (h : Alike view s t) (region : Outline Float) :
    Alike view (s.setClip region) (t.setClip region) := by
  cases h with
  | intro written held log hwritten hheld =>
      unfold State.setClip
      change Alike view _ (if s.inPath then _ else _)
      split
      · exact ⟨_, _, _, hwritten, hheld⟩
      · refine Alike.update (Alike.emit ?_ rfl) _
        exact ⟨_, _, _, hwritten, hheld⟩

/-- The regions are combined by one function on equal regions. -/
theorem changeClip (h : Alike view s t) (combine : Clip.Combiner) (change : ClipChange) :
    Alike view (s.changeClip combine change) (t.changeClip combine change) := by
  have hset := h.setClip
  have hreset : Alike view (s.changeClip combine .reset) (t.changeClip combine .reset) :=
    Alike.update (h.note ..) fun c => { c with clip := none }
  cases h with
  | intro written held log hwritten hheld =>
      cases change with
      | box b op => exact hset _
      | path op => exact hset _
      | shift v =>
          unfold State.changeClip State.shiftClip
          dsimp only
          split
          · exact ⟨_, _, _, hwritten, hheld⟩
          · exact hset _
      | boxes bs op => exact hset _
      | reset => exact hreset

/-! ### Tools and modes -/

/-- The map mode is a part of the context. An unknown number is a message. -/
theorem setMapMode (h : Alike view s t) (code : Nat) :
    Alike view (s.setMapMode code) (t.setMapMode code) := by
  unfold State.setMapMode
  split
  · exact h.update _
  · exact h.note ..

/-- A tool goes into the same slot, or fails for the same reason. -/
theorem put (h : Alike view s t) (index : Nat) (tool : Device.Tool) :
    AlikeResults view (s.put index tool) (t.put index tool) := by
  cases h with
  | intro written held log hwritten hheld =>
      unfold State.put
      dsimp only
      split <;> exact ⟨⟨_, _, _, hwritten, hheld⟩, rfl⟩

/-- A tool is selected from the same slots, or fails for the same reason. A stock tool that is
unknown is a message. -/
theorem select (h : Alike view s t) (handle : Nat) :
    AlikeResults view (s.select handle) (t.select handle) := by
  cases h with
  | intro written held log hwritten hheld =>
      unfold State.select
      dsimp only
      split
      · split <;> exact ⟨⟨_, _, _, hwritten, hheld⟩, rfl⟩
      · split <;> exact ⟨⟨_, _, _, hwritten, hheld⟩, rfl⟩

/-- A slot is emptied in both, or fails for the same reason. -/
theorem delete (h : Alike view s t) (handle : Nat) :
    AlikeResults view (s.delete handle) (t.delete handle) := by
  cases h with
  | intro written held log hwritten hheld =>
      unfold State.delete
      dsimp only
      split
      · exact ⟨⟨_, _, _, hwritten, hheld⟩, rfl⟩
      · split <;> exact ⟨⟨_, _, _, hwritten, hheld⟩, rfl⟩

/-- The number of a picture is the same, and where it is defined, its definition looks the same:
the size of a picture is read off its header and does not depend on the encoder. -/
theorem patternOf (h : Alike view s t) (hencode : SameView view encode encode')
    (picture : Bitmap.Picture) (fromContext : Bool) :
    Alike view (s.patternOf encode picture fromContext).1
        (t.patternOf encode' picture fromContext).1 ∧
      (t.patternOf encode' picture fromContext).2 =
        (s.patternOf encode picture fromContext).2 := by
  cases h with
  | intro written held log hwritten hheld =>
      unfold State.patternOf
      change Alike view _ (if s.inPath then _ else _ : State × Nat).1 ∧
        (if s.inPath then _ else _ : State × Nat).2 = _
      -- inside of a path, with a picture that is known, and with a new one
      split
      · exact ⟨⟨_, _, _, hwritten, hheld⟩, rfl⟩
      · dsimp only
        split
        · exact ⟨⟨_, _, _, hwritten, hheld⟩, rfl⟩
        · refine ⟨Alike.emit (Alike.noteEmbedded ?_ _ _) (singleton_map ?_), rfl⟩
          · exact ⟨_, _, _, hwritten, hheld⟩
          · exact hencode.patternPiece picture fromContext _ s

/-- A brush with a picture asks for the number of the picture first, which is the same in both,
and then for its slot. -/
theorem createPattern (h : Alike view s t) (hencode : SameView view encode encode') (index : Nat)
    (picture : Bitmap.Picture) (fromContext : Bool) :
    AlikeResults view (s.createPattern encode index picture fromContext)
      (t.createPattern encode' index picture fromContext) := by
  obtain ⟨hstate, hid⟩ := h.patternOf hencode picture fromContext
  have hnoted := fun text => hstate.note .debug .debug text text
  unfold State.createPattern
  dsimp only
  rw [hid, (hnoted _).context]
  exact (hnoted _).put ..

/-! ### Groups and brackets -/

/-- Both groups of the world transform count as open, or neither does. -/
theorem wrapped (h : Alike view s t) (wrapped : Bool) :
    Alike view { s with wrapped } { t with wrapped } := by
  cases h with
  | intro written held log hwritten hheld => exact ⟨_, _, _, hwritten, hheld⟩

/-- The group of the world transform is begun anew in both, or in an open path in neither. -/
theorem wrap (h : Alike view s t) : Alike view s.wrap t.wrap := by
  cases h with
  | intro written held log hwritten hheld =>
      unfold State.wrap
      change Alike view _ (if s.inPath then _ else _)
      split
      · exact ⟨_, _, _, hwritten, hheld⟩
      · refine Alike.wrapped (Alike.emit ?_ rfl) true
        exact ⟨_, _, _, hwritten, hheld⟩

/-- A change of the world transform is applied in both, or deferred in both. -/
theorem transform (h : Alike view s t) (change : TransformChange) :
    Alike view (s.transform change) (t.transform change) := by
  have hnoted := h.note .warn .warn
  cases h with
  | intro written held log hwritten hheld =>
      unfold State.transform
      change Alike view _ (if s.inPath then _ else _)
      split
      · exact ⟨_, _, _, hwritten, hheld⟩
      · dsimp only
        split
        · refine Alike.wrap (Alike.update ?_ _)
          exact ⟨_, _, _, hwritten, hheld⟩
        · exact hnoted _ _

/-- The changes that were deferred come from the survey, which is the same for both. -/
theorem replay (h : Alike view s t) (changes : List TransformChange) :
    Alike view (s.replay changes) (t.replay changes) := by
  unfold State.replay
  split
  · exact h
  · exact (h.update _).wrap

/-- Both return to the same context, or to none with a message. -/
theorem restore (h : Alike view s t) (relative : Int) :
    AlikeResults view (s.restore relative) (t.restore relative) := by
  cases h with
  | intro written held log hwritten hheld =>
      unfold State.restore
      dsimp only
      split
      · refine ⟨?_, rfl⟩
        split
        · refine Alike.wrap ?_
          exact ⟨_, _, _, hwritten, hheld⟩
        · exact ⟨_, _, _, hwritten, hheld⟩
      · refine ⟨Alike.fail ?_ _ _, rfl⟩
        exact ⟨_, _, _, hwritten, hheld⟩
      · exact ⟨⟨_, _, _, hwritten, hheld⟩, rfl⟩

/-- A bracket that is closed becomes the same piece, and what it held back follows in both. -/
theorem close (h : Alike view s t) (paint : List Markup.Attribute) (b : Bracket) :
    Alike view (s.close paint b) (t.close paint b) := by
  cases h with
  | intro written held log hwritten hheld =>
      refine ⟨_, _, _, ?_, rfl⟩
      unfold State.close
      simp only [Array.map_append, Array.map_push, hwritten, hheld]

/-- A bracket that is left open is given up in both. -/
theorem abandon (h : Alike view s t) : Alike view s.abandon t.abandon := by
  have hclose := h.close unpainted
  cases h with
  | intro written held log hwritten hheld =>
      unfold State.abandon
      dsimp only
      split
      · exact hclose _
      · exact ⟨_, _, _, hwritten, hheld⟩

/-- The bracket that is open is found by its number. Of its entry only the effect counts, and not
the offsets. -/
theorem pathUse? (h : Alike view s t) {uses uses' : List PathUse}
    (huses : uses'.map PathUse.effect = uses.map PathUse.effect) :
    (t.pathUse? uses').map PathUse.effect = (s.pathUse? uses).map PathUse.effect := by
  cases h with
  | intro written held log _ _ =>
      unfold State.pathUse?
      dsimp only
      split
      · rfl
      · rw [← List.getElem?_map, ← List.getElem?_map, huses]

/-- The brackets that were begun are counted alike. -/
theorem counted (h : Alike view s t) :
    Alike view { s with brackets := s.brackets + 1 } { t with brackets := t.brackets + 1 } := by
  cases h with
  | intro written held log hwritten hheld => exact ⟨_, _, _, hwritten, hheld⟩

/-- A bracket begins with the clip region of the context and without a figure. -/
theorem opened (h : Alike view s t) :
    Alike view { s with bracket := some ⟨s.context.clipAttributes, .empty⟩, trail := .empty }
      { t with bracket := some ⟨t.context.clipAttributes, .empty⟩, trail := .empty } := by
  cases h with
  | intro written held log hwritten hheld => exact ⟨_, _, _, hwritten, hheld⟩

/-- A bracket is begun by its number. The entry of the survey says which changes come before it,
and these are the same. -/
theorem beginPath (h : Alike view s t) {uses uses' : List PathUse}
    (huses : uses'.map PathUse.effect = uses.map PathUse.effect) :
    AlikeResults view (s.beginPath uses) (t.beginPath uses') := by
  have hcounted := h.abandon.counted
  -- what the surveys know about the bracket has the same effect
  have huse := hcounted.pathUse? huses
  unfold State.beginPath
  dsimp only
  generalize State.pathUse? uses _ = found at huse ⊢
  generalize State.pathUse? uses' _ = found' at huse ⊢
  cases found with
  | none =>
      obtain rfl : found' = none := Option.map_eq_none_iff.1 huse
      exact ⟨hcounted, rfl⟩
  | some use =>
      obtain ⟨use', rfl, heffect⟩ := Option.map_eq_some_iff.1 huse
      have hbefore : use'.before = use.before := congrArg (·.2.2.1) heffect
      dsimp only
      rw [hbefore]
      exact ⟨(hcounted.replay _).opened, rfl⟩

/-- How a path is painted depends on whether it is filled and stroked. -/
theorem pathPaint (h : Alike view s t) {use use' : PathUse} (heffect : use'.effect = use.effect) :
    t.pathPaint use' = s.pathPaint use := by
  have hfilled : use'.isFilled = use.isFilled := congrArg (·.1) heffect
  have hstroked : use'.isStroked = use.isStroked := congrArg (·.2.1) heffect
  cases h with
  | intro written held log _ _ =>
      unfold State.pathPaint
      rw [hfilled, hstroked]
      rfl

/-- A bracket is ended with the paint and the changes of its entry, which are the same. -/
theorem endPath (h : Alike view s t) {uses uses' : List PathUse}
    (huses : uses'.map PathUse.effect = uses.map PathUse.effect) :
    AlikeResults view (s.endPath uses) (t.endPath uses') := by
  have hbracket : t.bracket = s.bracket := by cases h; rfl
  -- what the surveys know about the bracket has the same effect
  have huse := h.pathUse? huses
  unfold State.endPath
  rw [hbracket]
  split
  · exact ⟨h, rfl⟩
  · generalize s.pathUse? uses = found at huse ⊢
    generalize t.pathUse? uses' = found' at huse ⊢
    cases found with
    | none =>
        obtain rfl : found' = none := Option.map_eq_none_iff.1 huse
        exact ⟨h, rfl⟩
    | some use =>
        obtain ⟨use', rfl, heffect⟩ := Option.map_eq_some_iff.1 huse
        have hafter : use'.after = use.after := congrArg (·.2.2.2) heffect
        dsimp only
        rw [hafter, h.pathPaint heffect]
        exact ⟨(h.close ..).replay _, rfl⟩

/-- A path that is aborted is given up, and the trail is forgotten. -/
theorem abortPath (h : Alike view s t) : Alike view s.abortPath t.abortPath := by
  unfold State.abortPath
  have habandoned := h.abandon
  generalize s.abandon = u at habandoned ⊢
  generalize t.abandon = v at habandoned ⊢
  cases habandoned with
  | intro written held log hwritten hheld => exact ⟨_, _, _, hwritten, hheld⟩

/-! ### Documents -/

/-- The shell of the document depends on the header and on options that are the same. -/
theorem beginDocument (h : Alike view s t) (o : Options) (plus : Bool) (header : Record.Header) :
    Alike view (s.beginDocument o header) (t.beginDocument { o with plus } header) := by
  cases h with
  | intro written held log hwritten hheld =>
      unfold State.beginDocument
      refine Alike.emit (Alike.note ?_ _ _ _ _) rfl
      exact ⟨_, _, _, hwritten, hheld⟩

/-- What EMF+ records draw depends on the player and the page, and both are the same. -/
theorem runPlus (h : Alike view s t) (act : Plus.Stage → Plus.Stage) :
    Alike view (s.runPlus act) (t.runPlus act) := by
  cases h with
  | intro written held log hwritten hheld =>
      unfold State.runPlus
      refine Alike.emit ?_ rfl
      exact ⟨_, _, _, hwritten, hheld⟩

end Alike

/-- Where no object is pending, the end of the playing changes nothing. -/
theorem runPlus_finish (h : s.player.pending = none) : s.runPlus (·.finish) = s := by
  have hstage : Plus.Stage.finish ⟨s.player, #[], #[]⟩ = ⟨s.player, #[], #[]⟩ := by
    unfold Plus.Stage.finish
    dsimp only
    rw [h]
    rfl
  unfold runPlus
  dsimp only
  rw [hstage, Array.append_empty]
  exact emit_empty s

namespace Alike

/-- At the end it matters whether EMF+ records are drawn only if an object is pending. -/
theorem finish (h : Alike view s t) {plus plus' : Bool}
    (hplus : plus' = plus ∨ s.player.pending = none) :
    Alike view (if plus then s.runPlus (·.finish) else s)
      (if plus' then t.runPlus (·.finish) else t) := by
  rcases hplus with rfl | hpending
  · split
    · exact h.runPlus _
    · exact h
  · have hpending' : t.player.pending = none := by
      cases h
      exact hpending
    rw [runPlus_finish hpending, runPlus_finish hpending', ite_self, ite_self]
    exact h

/-- The end record closes what is open and gives up an object that is still arriving. It does so
with EMF+ records on or off, unless something is pending. -/
theorem endDocument (h : Alike view s t) (o : Options) (plus : Bool)
    (hplus : plus = o.plus ∨ s.player.pending = none) :
    Alike view (s.endDocument o) (t.endDocument { o with plus }) := by
  have hpending : plus = o.plus ∨ s.abandon.player.pending = none := by
    obtain ⟨written, held, heq⟩ := abandon_eq s
    rw [heq]
    exact hplus
  have hfinished := h.abandon.finish hpending
  unfold State.endDocument
  dsimp only
  generalize (if o.plus then s.abandon.runPlus (·.finish) else s.abandon) = u at hfinished ⊢
  generalize (if plus then t.abandon.runPlus (·.finish) else t.abandon) = v at hfinished ⊢
  have hwrapped : v.wrapped = u.wrapped := by cases hfinished; rfl
  rw [hwrapped]
  exact (hfinished.emit rfl).wrapped false

end Alike

/-! ### Commands and records -/

/-- A command does the same to states that are alike. The end record depends on whether EMF+
records are drawn if an object is pending. -/
theorem perform_alike (setup : Setup) {plus : Bool} {encode : Bitmap.Encoder}
    {uses uses' : List PathUse} (c : Command) (h : Alike view s t)
    (hencode : SameView view setup.encode encode)
    (huses : uses'.map PathUse.effect = uses.map PathUse.effect)
    (hplus : plus = setup.options.plus ∨ s.player.pending = none) :
    AlikeResults view (s.perform setup uses c) (t.perform (setup.vary plus encode) uses' c) := by
  cases c with
  | header header => exact ⟨h.beginDocument setup.options plus header, rfl⟩
  | endOfFile => exact ⟨h.endDocument setup.options plus hplus, rfl⟩
  | draw shape => exact ⟨h.draw shape, rfl⟩
  | beginPath => exact h.beginPath huses
  | endPath => exact h.endPath huses
  | closeFigure => exact ⟨h.closeFigure, rfl⟩
  | abortPath => exact ⟨h.abortPath, rfl⟩
  | flattenPath => exact ⟨by cases h; exact ⟨_, _, _, ‹_›, ‹_›⟩, rfl⟩
  | set setting => exact ⟨h.update setting.onto, rfl⟩
  | mapMode code => exact ⟨h.setMapMode code, rfl⟩
  | layout bits => exact ⟨by cases h; exact ⟨_, _, _, ‹_›, ‹_›⟩, rfl⟩
  | moveTo p => exact ⟨h.moveTo (.ofInt p), rfl⟩
  | save => exact ⟨by cases h; exact ⟨_, _, _, ‹_›, ‹_›⟩, rfl⟩
  | restore relative => exact h.restore relative
  | transform change => exact ⟨h.transform change, rfl⟩
  | create index tool => exact h.put index tool
  | createPattern index picture fromContext =>
      exact h.createPattern hencode index picture fromContext
  | select handle => exact h.select handle
  | delete handle => exact h.delete handle
  | clip change => exact ⟨h.changeClip setup.combine change, rfl⟩
  | blit area => exact ⟨h.blit hencode area, rfl⟩
  | label origin text => exact ⟨h.label origin text, rfl⟩
  | plus records =>
      -- the records are drawn for the page, which both states have
      have hpage : t.page = s.page := by cases h; rfl
      show AlikeResults view _
        (t.runPlus (·.play setup.options.verbose t.page.scale records), none)
      rw [hpage]
      exact ⟨h.runPlus _, rfl⟩
  | nothing => exact ⟨h, rfl⟩

/-- Where no object is pending, an EMF+ player that sees no EMF+ records has none pending. -/
theorem perform_pending (setup : Setup) (uses : List PathUse) {c : Command}
    (h : s.player.pending = none) (hplus : ∀ records, c ≠ .plus records) :
    (s.perform setup uses c).1.player.pending = none := by
  by_cases hend : c = .endOfFile
  · subst hend
    obtain ⟨written, held, habandoned⟩ := abandon_eq s
    have hpending : s.abandon.player.pending = none := by
      rw [habandoned]
      exact h
    change (s.endDocument setup.options).player.pending = none
    unfold endDocument
    dsimp only
    -- with nothing pending the end has nothing to finish
    rw [runPlus_finish hpending, ite_self]
    obtain ⟨written, held, hemitted⟩ := emit_eq
      ((if s.abandon.wrapped then #[.ending "g"] else #[]).push (.ending "g") ++
        tail setup.options)
      s.abandon
    rw [hemitted]
    exact hpending
  · rw [perform_player setup uses s hplus hend]
    exact h

/-- A record without EMF+ records leaves no object pending. -/
theorem next_pending (setup : Setup) (uses : List PathUse) {e : Entry}
    (h : s.player.pending = none)
    (hplus : ∀ records, e.command setup.options.plus ≠ .ok (.plus records)) :
    (s.next setup uses e).1.player.pending = none := by
  have hannounced : (s.announce setup e).player.pending = none := by
    obtain ⟨log, heq⟩ := announce_eq setup e s
    rw [heq]
    exact h
  rw [next, step_eq]
  cases hc : e.command setup.options.plus with
  | error cause => exact hannounced
  | ok c =>
      refine perform_pending setup uses hannounced fun records heq => ?_
      exact hplus records (heq ▸ hc)

/-- Two records ask for the same: they have the same command, or neither can be read. -/
def SameRequest (plus plus' : Bool) (e e' : Entry) : Prop :=
  (e'.command plus').toOption = (e.command plus).toOption

/-- Records that ask for the same do the same to states that are alike. -/
theorem next_alike (setup : Setup) {plus : Bool} {encode : Bitmap.Encoder}
    {uses uses' : List PathUse} {e e' : Entry} (h : Alike view s t)
    (hencode : SameView view setup.encode encode)
    (huses : uses'.map PathUse.effect = uses.map PathUse.effect)
    (hplus : plus = setup.options.plus ∨ s.player.pending = none)
    (hsame : SameRequest setup.options.plus plus e e') :
    Alike view (s.next setup uses e).1 (t.next (setup.vary plus encode) uses' e').1 ∧
      (t.next (setup.vary plus encode) uses' e').2.isSome = (s.next setup uses e).2.isSome := by
  have hannounced := h.announce setup plus encode e e'
  unfold SameRequest at hsame
  rw [next, next, step_eq, step_eq]
  change (e'.command (setup.vary plus encode).options.plus).toOption = _ at hsame
  -- both records are read, with the same command, or neither is
  cases hc : e.command setup.options.plus with
  | error cause =>
      cases hc' : e'.command (setup.vary plus encode).options.plus with
      | error cause' => exact ⟨hannounced, rfl⟩
      | ok c' =>
          rw [hc, hc'] at hsame
          cases hsame
  | ok c =>
      cases hc' : e'.command (setup.vary plus encode).options.plus with
      | error cause' =>
          rw [hc, hc'] at hsame
          cases hsame
      | ok c' =>
          rw [hc, hc'] at hsame
          obtain rfl : c' = c := Option.some.inj hsame
          have hpending : plus = setup.options.plus ∨
              (s.announce setup e).player.pending = none := by
            obtain ⟨log, heq⟩ := announce_eq setup e s
            rw [heq]
            exact hplus
          obtain ⟨hstate, hfault⟩ :=
            perform_alike setup c' hannounced hencode huses hpending
          exact ⟨hstate, congrArg Option.isSome hfault⟩

/-- Records that ask for the same, one by one and up to records that ask for nothing, do the same
to states that are alike, and stop together. If EMF+ records are drawn in only one of two runs,
then there must be none. -/
theorem steps_alike (setup : Setup) {plus : Bool} {encode : Bitmap.Encoder}
    {uses uses' : List PathUse} {entries entries' : List Entry}
    (hsame : Matches (SameRequest setup.options.plus plus)
      (fun e => e.command setup.options.plus = .ok .nothing) entries entries')
    (h : Alike view s t) (hencode : SameView view setup.encode encode)
    (huses : uses'.map PathUse.effect = uses.map PathUse.effect)
    (hplus : plus = setup.options.plus ∨ s.player.pending = none ∧
      ∀ e ∈ entries, ∀ records, e.command setup.options.plus ≠ .ok (.plus records)) :
    Alike view (s.steps setup uses entries).1
        (t.steps (setup.vary plus encode) uses' entries').1 ∧
      (t.steps (setup.vary plus encode) uses' entries').2.isSome =
        (s.steps setup uses entries).2.isSome := by
  -- records that ask for the same are played side by side, the others on the left alone
  induction hsame generalizing s t with
  | nil => exact ⟨h, rfl⟩
  | @both e e' rest rest' hrequest _ ih =>
      have hpending : plus = setup.options.plus ∨ s.player.pending = none :=
        hplus.imp_right And.left
      obtain ⟨hstate, hfault⟩ := next_alike setup h hencode huses hpending hrequest
      rw [steps, ← next, steps, ← next]
      cases hs : s.next setup uses e with
      | mk u fault =>
          cases ht : t.next (setup.vary plus encode) uses' e' with
          | mk u' fault' =>
              rw [hs, ht] at hstate hfault
              cases fault with
              | some cause =>
                  cases fault' with
                  | some cause' => exact ⟨hstate, rfl⟩
                  | none => cases hfault
              | none =>
                  cases fault' with
                  | some cause' => cases hfault
                  | none =>
                      -- without comments nothing is pending after the record either
                      refine ih hstate (hplus.imp_right fun hboth => ?_)
                      obtain ⟨hnone, hcomments⟩ := hboth
                      obtain ⟨hfirst, hrest⟩ := List.forall_mem_cons.1 hcomments
                      have hnext := next_pending setup uses hnone hfirst
                      rw [hs] at hnext
                      exact ⟨hnext, hrest⟩
  | @idle e rest rest' hidle _ ih =>
      -- a record that asks for nothing leaves a message at most
      have hnext : s.next setup uses e = (s.announce setup e, none) := by
        rw [next, step_eq, hidle]
        rfl
      rw [steps, ← next, hnext]
      obtain ⟨log, heq⟩ := announce_eq setup e s
      have hstate : Alike view (s.announce setup e) t := by
        rw [heq]
        cases h with
        | intro written held log hwritten hheld => exact ⟨_, _, _, hwritten, hheld⟩
      refine ih hstate (hplus.imp_right fun hboth => ⟨?_, ?_⟩)
      · rw [heq]
        exact hboth.1
      · exact (List.forall_mem_cons.1 hboth.2).2

end State

/-- Two surveys whose records ask for the same, and whose paths have the same effect, are played
to states that are alike, and one picture is complete if the other is. -/
theorem play_alike (setup : Setup) {plus : Bool} {encode : Bitmap.Encoder} {view : Piece → Piece}
    {survey survey' : Survey}
    (hsame : Matches (State.SameRequest setup.options.plus plus)
      (fun e => e.command setup.options.plus = .ok .nothing) survey.entries survey'.entries)
    (hencode : SameView view setup.encode encode)
    (hpaths : survey'.paths.map PathUse.effect = survey.paths.map PathUse.effect)
    (hplus : plus = setup.options.plus ∨
      ∀ e ∈ survey.entries, ∀ records, e.command setup.options.plus ≠ .ok (.plus records)) :
    State.Alike view (play setup survey) (play (setup.vary plus encode) survey') := by
  -- both begin with nothing, and halt at the same place or not at all
  have hstart : State.Alike view (State.start survey) (State.start survey') := ⟨_, _, _, rfl, rfl⟩
  obtain ⟨hstate, hfault⟩ := State.steps_alike setup hsame hstart hencode hpaths
    (hplus.imp_right fun hcomments => ⟨rfl, hcomments⟩)
  cases hs : (State.start survey).steps setup survey.paths survey.entries with
  | mk u fault =>
      cases ht : (State.start survey').steps (setup.vary plus encode) survey'.paths
          survey'.entries with
      | mk u' fault' =>
          rw [hs, ht] at hstate hfault
          cases fault with
          | none =>
              cases fault' with
              | none =>
                  rw [play_of_done hs, play_of_done ht]
                  exact hstate
              | some stopped => cases hfault
          | some stopped =>
              cases fault' with
              | none => cases hfault
              | some stopped' =>
                  obtain ⟨_, _, hplay⟩ := play_of_halted hs
                  obtain ⟨_, _, hplay'⟩ := play_of_halted ht
                  rw [hplay, hplay']
                  exact hstate.fail _ _

/-- States that differ in their messages at most give the same result. -/
theorem State.Alike.ofState_eq {s t : State} (h : State.Alike id s t) (o : Options)
    (plus : Bool) :
    Conversion.ofState { o with plus } t = Conversion.ofState o s := by
  cases h with
  | intro written held log hwritten hheld =>
      obtain rfl : written = s.written := by simpa using hwritten
      rfl

/-- A stream of counterparts is accepted and converted to the same picture, and it is complete if
the other one is. -/
theorem convert_of_counterparts (setup : Setup) {stream : Bytes} {survey : Survey}
    {records : List Bytes} (h : Survey.ofBytes stream = .ok survey)
    (hmeasured : ∀ record ∈ records, Record.Measured record)
    (hsame : Record.Counterparts setup.options.plus survey.entries (Record.placed 0 records))
    (tail : Bytes) :
    ∃ c log log', convert setup stream = .ok (c, log) ∧
      convert setup (records.flatten ++ tail) = .ok (c, log') := by
  obtain ⟨survey', hentries, hpaths, haccepted⟩ :=
    Survey.ofBytes_of_counterparts h hmeasured hsame
  rw [← hentries] at hsame
  have hrequests : Matches (State.SameRequest setup.options.plus setup.options.plus)
      (fun e => e.command setup.options.plus = .ok .nothing) survey.entries survey'.entries :=
    hsame.mono (fun e e' hstands => hstands.asks) fun e hinert => hinert.asks
  have hplayed := (play_alike setup hrequests
    (SameView.refl id setup.encode) hpaths (.inl rfl)).ofState_eq setup.options setup.options.plus
  refine ⟨_, _, (Conversion.ofSurvey setup survey').2, convert_of_accepted setup h, ?_⟩
  rw [convert_of_accepted setup (haccepted tail)]
  exact congrArg Except.ok (Prod.ext hplayed rfl)

end Metafile.Playback
