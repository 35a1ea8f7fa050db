import Metafile.Playback.Step
import Metafile.Proofs.Record.Reading

/-!
# `Metafile.Proofs.Playback.Effects`: what each operation adds and leaves alone

Most operations of a state do nothing to the brackets, to the world transforms or to the group of
the world transform. They add pieces to the document, and often none. `State.Adds` is that
relation between the states before and after. It is reflexive and transitive, so a run of such
operations adds their pieces one after the other.

The operations that do more are `wrap` and those that use it, `save`, and the ones that open and
close brackets. They have equations: `wrap_of_closed`, `beginPath_of_use`, `endPath_of_use`.
-/

set_option autoImplicit false

namespace Metafile.Playback

open Metafile.Markup (Document Piece)
open Metafile.Record (ClipChange Command PathUse Shape TransformChange)

namespace State

variable {s t u : State} {a b : Document}

/-! ### Additions -/

/-- What an operation that only adds pieces leaves alone, and where the pieces go: to the end of
the document, or to the end of what is held back while a bracket is open. -/
structure Adds (s t : State) (pieces : Document) : Prop where
  clip : t.bracket.map Bracket.clip = s.bracket.map Bracket.clip
  brackets : t.brackets = s.brackets
  wrapped : t.wrapped = s.wrapped
  world : t.context.world = s.context.world
  saved : t.saved.map Device.Context.world = s.saved.map Device.Context.world
  written : t.written = if s.inPath then s.written else s.written ++ pieces
  held : t.held = if s.inPath then s.held ++ pieces else s.held

/-- An addition neither opens nor closes a bracket. -/
theorem Adds.inPath (h : Adds s t a) : t.inPath = s.inPath := by
  have hclip := congrArg Option.isSome h.clip
  rwa [Option.isSome_map, Option.isSome_map] at hclip

/-- A state adds nothing to itself. -/
theorem Adds.refl (s : State) : Adds s s #[] :=
  ⟨rfl, rfl, rfl, rfl, rfl, by simp, by simp⟩

/-- What is added later comes behind what was added first. -/
theorem Adds.trans (h : Adds s t a) (k : Adds t u b) : Adds s u (a ++ b) where
  clip := k.clip.trans h.clip
  brackets := k.brackets.trans h.brackets
  wrapped := k.wrapped.trans h.wrapped
  world := k.world.trans h.world
  saved := k.saved.trans h.saved
  written := by
    rw [k.written, h.written, h.inPath]
    cases s.inPath <;> simp
  held := by
    rw [k.held, h.held, h.inPath]
    cases s.inPath <;> simp

/-- What comes before an addition may change anything that an addition leaves alone. -/
theorem Adds.after_quiet (h : Adds s t #[]) (k : Adds t u a) : Adds s u a := by
  have htrans := h.trans k
  rwa [Array.empty_append] at htrans

/-- What comes after an addition and adds nothing. -/
theorem Adds.then_quiet (h : Adds s t a) (k : Adds t u #[]) : Adds s u a := by
  have htrans := h.trans k
  rwa [Array.append_empty] at htrans

/-- A state in which everything that `Adds` speaks about is the same. -/
theorem Adds.of_same (clip : t.bracket.map Bracket.clip = s.bracket.map Bracket.clip)
    (brackets : t.brackets = s.brackets) (wrapped : t.wrapped = s.wrapped)
    (world : t.context.world = s.context.world) (saved : t.saved = s.saved)
    (written : t.written = s.written) (held : t.held = s.held) : Adds s t #[] :=
  ⟨clip, brackets, wrapped, world, by rw [saved], by rw [written]; simp, by rw [held]; simp⟩

/-! ### The basic operations -/

/-- A message is no piece. -/
theorem note_adds (level : Level) (text : String) (s : State) : Adds s (s.note level text) #[] :=
  .of_same rfl rfl rfl rfl rfl rfl rfl

/-- A change of the context that leaves the world transform as it is adds nothing. -/
theorem update_adds {f : Device.Context → Device.Context} (s : State)
    (h : (f s.context).world = s.context.world) : Adds s (s.update f) #[] :=
  .of_same rfl rfl rfl h rfl rfl rfl

/-- Pieces that are emitted are added, to the document or to what is held back. -/
theorem emit_adds (pieces : Document) (s : State) : Adds s (s.emit pieces) pieces := by
  unfold emit
  by_cases h : s.inPath = true
  · rw [if_pos h]
    exact ⟨rfl, rfl, rfl, rfl, rfl, (if_pos h).symm, (if_pos h).symm⟩
  · rw [if_neg h]
    exact ⟨rfl, rfl, rfl, rfl, rfl, (if_neg h).symm, (if_neg h).symm⟩

/-- To emit no pieces is to do nothing. -/
theorem emit_empty (s : State) : s.emit #[] = s := by
  unfold emit
  split
  · rw [Array.append_empty]
  · rw [Array.append_empty]

/-- An outline that is added to the open path adds no piece. -/
theorem extend_adds {bracket : Bracket} (o : Outline Float) (s : State)
    (h : s.bracket = some bracket) : Adds s (s.extend o bracket) #[] :=
  .of_same (by rw [h]; rfl) rfl rfl rfl rfl rfl rfl

/-- Listing a record changes the log at most. -/
theorem announce_eq (setup : Setup) (e : Record.Entry) (s : State) :
    ∃ log, s.announce setup e = { s with log } := by
  unfold announce
  split
  · exact ⟨_, rfl⟩
  · exact ⟨s.log, rfl⟩

/-- Listing a record adds nothing. -/
theorem announce_adds (setup : Setup) (e : Record.Entry) (s : State) :
    Adds s (s.announce setup e) #[] := by
  obtain ⟨log, heq⟩ := announce_eq setup e s
  rw [heq]
  exact .of_same rfl rfl rfl rfl rfl rfl rfl

/-! ### Shapes and texts -/

/-- The pieces of a shape: none inside of a path, and none if the shape is blank. -/
def shapePieces (shape : Shape) (s : State) : Document :=
  if s.inPath || isBlank shape then #[] else #[s.shapePiece shape]

/-- A shape outside of a path adds its element. -/
theorem draw_adds (shape : Shape) (s : State) :
    Adds s (s.draw shape) (s.shapePieces shape) := by
  unfold draw
  split
  · rename_i bracket hbracket
    have hopen : s.inPath = true := by rw [inPath, hbracket]; rfl
    rw [shapePieces, hopen, Bool.true_or, if_pos rfl]
    exact extend_adds _ s hbracket
  · rename_i hbracket
    have hclosed : s.inPath = false := by rw [inPath, hbracket]; rfl
    rw [shapePieces, hclosed, Bool.false_or]
    by_cases hblank : isBlank shape = true
    · rw [if_pos hblank, if_pos hblank]
      exact .refl s
    · rw [if_neg hblank, if_neg hblank]
      -- a shape outside of a path moves the position before it is written
      have hmoved : Adds s { s with position := s.ownStop shape } #[] :=
        .of_same rfl rfl rfl rfl rfl rfl rfl
      exact hmoved.after_quiet (emit_adds _ _)

/-- A move adds no piece. Inside of a path it is a command of the path. -/
theorem moveTo_adds (p : Point Float) (s : State) : Adds s (s.moveTo p) #[] := by
  unfold moveTo
  split
  · rename_i bracket hbracket
    exact extend_adds _ s hbracket
  · exact .of_same rfl rfl rfl rfl rfl rfl rfl

/-- Closing a figure adds no piece. -/
theorem closeFigure_adds (s : State) : Adds s s.closeFigure #[] := by
  unfold closeFigure
  split
  · rename_i bracket hbracket
    exact extend_adds _ s hbracket
  · exact .refl s

/-- A text adds its label, inside of a path also. -/
theorem label_adds (origin : Point Int) (text : String) (s : State) :
    Adds s (s.label origin text) #[s.labelPiece origin text] :=
  emit_adds _ s

/-! ### Pictures and clip regions -/

/-- The pieces of an area: a picture, or what the brush paints where there is none. -/
def blitPieces (encode : Bitmap.Encoder) (b : Record.Blit) (s : State) : Document :=
  match b.source with
  | none =>
    match areaPaint? b.operation s.context.brush with
    | none => #[]
    | some paint => #[s.areaPiece paint b]
  | some picture =>
    #[.element (pictureElement (pictureRect s.context.mapping s.page b.corner b.size)
      (b.alpha.map fun a => Float.ofNat a / 255) s.context.clipReference?
      (picture.embed encode none).uri)]

/-- A message about a picture that could not be encoded is no piece. -/
theorem noteEmbedded_adds (e : Bitmap.Embedded) (s : State) : Adds s (s.noteEmbedded e) #[] := by
  unfold noteEmbedded
  split
  · exact .refl s
  · exact note_adds ..

/-- A picture or a painted area adds its pieces, inside of a path also. -/
theorem blit_adds (encode : Bitmap.Encoder) (b : Record.Blit) (s : State) :
    Adds s (s.blit encode b) (s.blitPieces encode b) := by
  unfold blit blitPieces
  cases b.source with
  | none =>
      cases areaPaint? b.operation s.context.brush with
      | none => exact .refl s
      | some paint => exact emit_adds _ s
  | some picture => exact (noteEmbedded_adds _ s).after_quiet (emit_adds _ _)

/-- A tool in a slot adds nothing. -/
theorem put_adds (index : Nat) (tool : Device.Tool) (s : State) :
    Adds s (s.put index tool).1 #[] := by
  unfold put
  split
  · exact .of_same rfl rfl rfl rfl rfl rfl rfl
  · exact .refl s

/-- The definition of a pattern is added. -/
theorem definePattern_adds (encode : Bitmap.Encoder) (picture : Bitmap.Picture)
    (twoColors : Bool) (s : State) :
    ∃ id colors width height, Adds s (s.definePattern encode picture twoColors).1
      #[patternDefinition id (picture.embed encode colors).uri width height] := by
  have hadded : Adds s { s with images := (s.images.add picture).1 } #[] :=
    .of_same rfl rfl rfl rfl rfl rfl rfl
  exact ⟨_, _, _, _,
    hadded.after_quiet ((noteEmbedded_adds _ _).after_quiet (emit_adds _ _))⟩

/-- A pattern is defined outside of a path, the first time that its picture is met. -/
theorem createPattern_adds (encode : Bitmap.Encoder) (index : Nat) (picture : Bitmap.Picture)
    (twoColors : Bool) (s : State) :
    ∃ pieces, Adds s (s.createPattern encode index picture twoColors).1 pieces ∧
      (s.inPath = true → pieces = #[]) ∧
      ∀ p ∈ pieces, ∃ id colors width height,
        p = patternDefinition id (picture.embed encode colors).uri width height := by
  -- the brush is put into its slot and a message is left, whatever was defined before
  suffices hpattern : ∃ pieces, Adds s (s.patternOf encode picture twoColors).1 pieces ∧
      (s.inPath = true → pieces = #[]) ∧
      ∀ p ∈ pieces, ∃ id colors width height,
        p = patternDefinition id (picture.embed encode colors).uri width height by
    obtain ⟨pieces, hadds, hopen, hpieces⟩ := hpattern
    refine ⟨pieces, ?_, hopen, hpieces⟩
    unfold createPattern
    exact (hadds.then_quiet (note_adds ..)).then_quiet (put_adds ..)
  unfold patternOf
  by_cases h : s.inPath = true
  · rw [if_pos h]
    exact ⟨#[], .refl s, fun _ => rfl, fun p hp => by simp at hp⟩
  · rw [if_neg h]
    split
    · exact ⟨#[], .refl s, fun _ => rfl, fun p hp => by simp at hp⟩
    · obtain ⟨id, colors, width, height, hadds⟩ := definePattern_adds encode picture twoColors s
      exact ⟨_, hadds, fun hopen => absurd hopen h,
        fun p hp => ⟨id, colors, width, height, Array.mem_singleton.1 hp⟩⟩

/-- A new clip region is defined outside of a path. -/
theorem setClip_adds (region : Outline Float) (s : State) :
    Adds s (s.setClip region)
      (if s.inPath then #[] else #[clipDefinition (s.clips + 1) region]) := by
  unfold setClip
  by_cases h : s.inPath = true
  · rw [if_pos h, if_pos h]
    exact update_adds s rfl
  · rw [if_neg h, if_neg h]
    have hcounted : Adds s { s with clips := s.clips + 1 } #[] :=
      .of_same rfl rfl rfl rfl rfl rfl rfl
    exact hcounted.after_quiet ((emit_adds _ _).then_quiet (update_adds _ rfl))

/-- A change of the clip region adds at most the definition of a region, and nothing inside of a
path. -/
theorem changeClip_adds (combine : Clip.Combiner) (change : ClipChange) (s : State) :
    ∃ pieces, Adds s (s.changeClip combine change) pieces ∧ (s.inPath = true → pieces = #[]) ∧
      ∀ p ∈ pieces, ∃ id region, p = clipDefinition id region := by
  -- every change sets a region, leaves it as it is, or takes it away
  have hset (region : Outline Float) : ∃ pieces, Adds s (s.setClip region) pieces ∧
      (s.inPath = true → pieces = #[]) ∧
      ∀ p ∈ pieces, ∃ id region, p = clipDefinition id region := by
    refine ⟨_, setClip_adds region s, fun h => if_pos h, fun p hp => ?_⟩
    split at hp
    · simp at hp
    · exact ⟨_, _, Array.mem_singleton.1 hp⟩
  have hkeep {t : State} (h : Adds s t #[]) : ∃ pieces, Adds s t pieces ∧
      (s.inPath = true → pieces = #[]) ∧
        ∀ p ∈ pieces, ∃ id region, p = clipDefinition id region :=
    ⟨#[], h, fun _ => rfl, fun p hp => by simp at hp⟩
  cases change with
  | box b op => exact hset _
  | path op => exact hset _
  | shift v =>
      unfold changeClip shiftClip
      dsimp only
      split
      · exact hkeep (.refl s)
      · exact hset _
  | boxes bs op => exact hset _
  | reset =>
      unfold changeClip
      exact hkeep ((note_adds ..).then_quiet (update_adds _ rfl))

/-! ### Tools and modes -/

/-- A map mode adds nothing, not even where it is unknown. -/
theorem setMapMode_adds (code : Nat) (s : State) : Adds s (s.setMapMode code) #[] := by
  unfold setMapMode
  split
  · exact update_adds s rfl
  · exact note_adds ..

/-- A tool that every device has changes the pen and the brush at most. -/
theorem selectStock?_eq {handle : Nat} {c d : Device.Context}
    (h : Device.Context.selectStock? handle c = some d) :
    ∃ pen brush, d = { c with pen, brush } := by
  unfold Device.Context.selectStock? at h
  split at h
  · cases h
  · split at h <;> first | exact ⟨_, _, (Option.some.inj h).symm⟩ | cases h

/-- What a handle stands for is in a slot. -/
theorem mem_slots_of_get {objects : Device.ObjectTable} {index : Nat} {tool : Device.Tool}
    (h : objects.get index = .ok (some tool)) : some tool ∈ objects.slots := by
  unfold Device.ObjectTable.get Device.ObjectTable.checkIndex at h
  split at h
  · exact Array.mem_of_getElem? (Option.join_eq_some_iff.1 (Except.ok.inj h))
  · cases h

/-- What is selected out of a table is the tool of a slot, or nothing. -/
theorem select_eq_ok {objects : Device.ObjectTable} {handle : Nat} {c d : Device.Context}
    (h : objects.select handle c = .ok d) :
    d = c ∨ ∃ tool, some tool ∈ objects.slots ∧ d = c.select tool := by
  obtain ⟨tool, hget, hselected⟩ := of_bind_eq_ok h
  obtain rfl : tool.elim c c.select = d := Except.ok.inj hselected
  cases tool with
  | none => exact Or.inl rfl
  | some tool => exact Or.inr ⟨tool, mem_slots_of_get hget, rfl⟩

/-- The world transform is no tool, so no selection changes it. -/
theorem select_world (tool : Device.Tool) (c : Device.Context) :
    (c.select tool).world = c.world := by
  cases tool <;> rfl

/-- Selecting a tool adds nothing, whether the tool is there or not. -/
theorem select_adds (handle : Nat) (s : State) : Adds s (s.select handle).1 #[] := by
  unfold select
  split
  · split
    · rename_i context hcontext
      obtain ⟨pen, brush, rfl⟩ := selectStock?_eq hcontext
      exact .of_same rfl rfl rfl rfl rfl rfl rfl
    · exact note_adds ..
  · split
    · rename_i context hcontext
      rcases select_eq_ok hcontext with rfl | ⟨tool, _, rfl⟩
      · exact .refl s
      · exact .of_same rfl rfl rfl (select_world tool s.context) rfl rfl rfl
    · exact .refl s

/-- Emptying a slot adds nothing. -/
theorem delete_adds (handle : Nat) (s : State) : Adds s (s.delete handle).1 #[] := by
  unfold delete
  split
  · exact .refl s
  · split
    · exact .of_same rfl rfl rfl rfl rfl rfl rfl
    · exact .refl s

/-- A setting leaves the world transform and the font as they are. -/
theorem onto_keeps (setting : Record.Setting) (c : Device.Context) :
    (setting.onto c).world = c.world ∧ (setting.onto c).font = c.font := by
  unfold Record.Setting.onto
  split <;> try exact ⟨rfl, rfl⟩
  -- a direction of arcs that does not exist changes nothing
  unfold Device.Context.setArcDirection
  split <;> exact ⟨rfl, rfl⟩

/-! ### Comments and headers -/

/-- EMF+ records add what their player draws. Of the rest of the state they change the player and
the log at most. -/
theorem runPlus_adds (act : Plus.Stage → Plus.Stage) (s : State) :
    Adds s (s.runPlus act) (act ⟨s.player, #[], #[]⟩).drawn := by
  unfold runPlus
  -- the player and the log are no part of the document
  have htaken : Adds s { s with
      player := (act ⟨s.player, #[], #[]⟩).player
      log := s.log ++ (act ⟨s.player, #[], #[]⟩).log } #[] :=
    .of_same rfl rfl rfl rfl rfl rfl rfl
  exact htaken.after_quiet (emit_adds _ _)

/-- A header adds what begins a document. -/
theorem beginDocument_adds (o : Options) (h : Record.Header) (s : State) :
    Adds s (s.beginDocument o h) ((head o h).push (originPiece o h)) := by
  unfold beginDocument
  have hpage : Adds s { s with objects := .ofHandles h.handles, page := pageOf o h } #[] :=
    .of_same rfl rfl rfl rfl rfl rfl rfl
  exact hpage.after_quiet ((note_adds ..).after_quiet (emit_adds _ _))

/-! ### Groups of the world transform -/

/-- The pieces that open the group of the world transform, after closing the one that is open. -/
def regrouping (s : State) : Document :=
  (if s.wrapped then #[.ending "g"] else #[]).push s.wrapperPiece

/-- Inside of a path no group begins or ends. -/
theorem wrap_of_open (h : s.inPath = true) : s.wrap = s := by
  unfold wrap
  rw [if_pos h]

/-- Outside of a path the group of the world transform is opened anew. -/
theorem wrap_of_closed (h : s.inPath = false) :
    s.wrap = { s with written := s.written ++ s.regrouping, wrapped := true } := by
  unfold wrap emit
  rw [h]
  rfl

/-- Opening a group changes the document and nothing that is drawn with. -/
theorem wrap_keeps (s : State) :
    s.wrap.context = s.context ∧ s.wrap.saved = s.saved ∧ s.wrap.bracket = s.bracket ∧
      s.wrap.brackets = s.brackets := by
  cases h : s.inPath with
  | true => rw [wrap_of_open h]; exact ⟨rfl, rfl, rfl, rfl⟩
  | false => rw [wrap_of_closed h]; exact ⟨rfl, rfl, rfl, rfl⟩

/-- Replaying changes of the world transform applies them in their order, and changes no brackets
and no saved contexts. -/
theorem replay_keeps (ts : List TransformChange) (s : State) :
    (s.replay ts).context.world = ts.foldl (fun w t => t.onto w) s.context.world ∧
      (s.replay ts).saved = s.saved ∧ (s.replay ts).bracket = s.bracket ∧
      (s.replay ts).brackets = s.brackets := by
  unfold replay
  cases ts with
  | nil => exact ⟨rfl, rfl, rfl, rfl⟩
  | cons t ts =>
      obtain ⟨hcontext, hsaved, hbracket, hbrackets⟩ :=
        wrap_keeps (s.update fun c =>
          { c with world := (t :: ts).foldl (fun w t => t.onto w) c.world })
      exact ⟨congrArg Device.Context.world hcontext, hsaved, hbracket, hbrackets⟩

/-- Inside of a path the world transform does not change. -/
theorem transform_of_open (h : s.inPath = true) (t : TransformChange) : s.transform t = s := by
  unfold transform
  rw [if_pos h]

/-- Outside of a path a change of the world transform takes effect at once. An unknown mode
changes nothing. -/
theorem transform_of_closed (h : s.inPath = false) (t : TransformChange) :
    (s.transform t).context.world = t.onto s.context.world ∧
      (s.transform t).saved = s.saved ∧ (s.transform t).bracket = s.bracket ∧
      (s.transform t).brackets = s.brackets := by
  unfold transform TransformChange.onto
  rw [if_neg (by rw [h]; exact Bool.false_ne_true)]
  cases t.onto? s.context.world with
  | none => exact ⟨rfl, rfl, rfl, rfl⟩
  | some world =>
      obtain ⟨hcontext, hsaved, hbracket, hbrackets⟩ :=
        wrap_keeps (s.update fun c => { c with world })
      exact ⟨congrArg Device.Context.world hcontext, hsaved, hbracket, hbrackets⟩

/-- Outside of a path a replay adds at most a group of the world transform. -/
theorem replay_written (h : s.inPath = false) (ts : List TransformChange) :
    ∃ more, (s.replay ts).written = s.written ++ more ∧ (s.replay ts).held = s.held := by
  unfold replay
  split
  · exact ⟨#[], (Array.append_empty ..).symm, rfl⟩
  · have hclosed : (s.update fun c =>
        { c with world := ts.foldl (fun w t => t.onto w) c.world }).inPath = false := h
    rw [wrap_of_closed hclosed]
    exact ⟨_, rfl, rfl⟩

/-! ### Brackets -/

/-- Where no path is open there is no bracket. -/
theorem bracket_of_closed (h : s.inPath = false) : s.bracket = none :=
  Option.isNone_iff_eq_none.1 (Option.isSome_eq_false_iff.1 h)

/-- Giving up a bracket writes it unpainted, and then what was held back. -/
theorem abandon_of_open {bracket : Bracket} (h : s.bracket = some bracket) :
    s.abandon = s.close unpainted bracket := by
  unfold abandon
  rw [h]

/-- Giving up a bracket closes it and keeps the rest. -/
theorem abandon_keeps (s : State) :
    s.abandon.bracket = none ∧ s.abandon.brackets = s.brackets ∧
      s.abandon.context = s.context ∧ s.abandon.saved = s.saved := by
  unfold abandon
  cases hbracket : s.bracket with
  | none => exact ⟨hbracket, rfl, rfl, rfl⟩
  | some b => exact ⟨rfl, rfl, rfl, rfl⟩

/-- Where no bracket is open there is nothing to give up. -/
theorem abandon_of_closed (h : s.inPath = false) : s.abandon = s := by
  unfold abandon
  rw [bracket_of_closed h]

/-- A bracket is opened with what the survey knows about it. -/
theorem beginPath_of_use {uses : List PathUse} {use : PathUse}
    (h : uses[s.brackets]? = some use) :
    s.beginPath uses =
      (let ready := { s.abandon with brackets := s.brackets + 1 }.replay use.before
       ({ ready with bracket := some ⟨ready.context.clipAttributes, .empty⟩, trail := .empty },
        none)) := by
  unfold beginPath pathUse?
  simp only [(abandon_keeps s).2.1, Nat.add_one_ne_zero, if_false, Nat.add_sub_cancel, h]

/-- A bracket is closed with what the survey knows about it. -/
theorem endPath_of_use {uses : List PathUse} {use : PathUse} {bracket : Bracket}
    (hbracket : s.bracket = some bracket) (hopened : s.brackets ≠ 0)
    (h : uses[s.brackets - 1]? = some use) :
    s.endPath uses = ((s.close (s.pathPaint use) bracket).replay use.after, none) := by
  unfold endPath pathUse?
  rw [hbracket]
  simp only [if_neg hopened, h]

/-- What is still arriving is stored without being drawn. -/
theorem finish_drawn (stage : Plus.Stage) : stage.finish.drawn = stage.drawn := by
  unfold Plus.Stage.finish
  split
  · unfold Plus.Stage.flush
    split
    · rfl
    · unfold Plus.Stage.store
      split <;> rfl
  · rfl

/-- The pieces that end a document: what closes its groups and its root. -/
def ending (o : Options) (s : State) : Document :=
  (if s.wrapped then #[.ending "g"] else #[]).push (.ending "g") ++ tail o

/-- The end record closes the bracket that is open and then the groups and the root. Besides that
it changes the EMF+ player and the log at most. -/
theorem endDocument_eq (o : Options) (s : State) :
    ∃ player log, s.endDocument o =
      { s.abandon with
        player, log
        written := s.abandon.written ++ s.abandon.ending o
        wrapped := false } := by
  have hclosed : s.abandon.inPath = false := by
    rw [inPath, (abandon_keeps s).1]
    rfl
  -- what is left after the bracket is given up has none open
  generalize hs : s.abandon = closed at hclosed ⊢
  obtain ⟨player, log, hfinish⟩ : ∃ player log,
      (if o.plus then closed.runPlus (·.finish) else closed) = { closed with player, log } := by
    cases o.plus with
    | false => exact ⟨closed.player, closed.log, rfl⟩
    | true =>
        rw [if_pos rfl, runPlus]
        simp only [finish_drawn, emit_empty]
        exact ⟨_, _, rfl⟩
  refine ⟨player, log, ?_⟩
  unfold endDocument emit
  simp only [hs, hfinish]
  rw [if_neg (by change ¬closed.inPath = true; rw [hclosed]; exact Bool.false_ne_true)]
  rfl

/-! ### Commands -/

/-- Whether all that a command does to the document is to add pieces. The other commands open and
close brackets or groups, or move the world transform. -/
def onlyAdds : Command → Bool
  | .endOfFile | .beginPath | .endPath | .abortPath | .save | .restore _ | .transform _ => false
  | _ => true

/-- What a command draws while a path is open: texts, pictures, painted areas and EMF+ shapes. All
other shapes go into the path. -/
def drawing (setup : Setup) (c : Command) (s : State) : Document :=
  match c with
  | .blit area => s.blitPieces setup.encode area
  | .label origin text => #[s.labelPiece origin text]
  | .plus records =>
    (Plus.Stage.play setup.options.verbose s.page.scale records ⟨s.player, #[], #[]⟩).drawn
  | _ => #[]

/-- Whether a piece is one that a command may add in a state, wherever the piece goes. -/
def Draws (setup : Setup) (c : Command) (s : State) (p : Piece) : Prop :=
  match c with
  | .header h => p ∈ (head setup.options h).push (originPiece setup.options h)
  | .draw shape => p = s.shapePiece shape
  | .createPattern _ picture _ => ∃ id colors width height,
    p = patternDefinition id (picture.embed setup.encode colors).uri width height
  | .clip _ => ∃ id region, p = clipDefinition id region
  | c => p ∈ s.drawing setup c

/-- A command that only adds pieces adds what it draws, if a path is open and the command is not
the one that begins the document. In every case it adds pieces that it may add. -/
theorem perform_adds (setup : Setup) (uses : List PathUse) {c : Command} (s : State)
    (honly : onlyAdds c = true) :
    ∃ pieces, Adds s (s.perform setup uses c).1 pieces ∧
      (s.inPath = true → c.soleKind? ≠ some .header → pieces = s.drawing setup c) ∧
      ∀ p ∈ pieces, s.Draws setup c p := by
  -- a command that adds nothing draws nothing
  have hquiet {t : State} (hadds : Adds s t #[]) (hnone : s.drawing setup c = #[]) :
      ∃ pieces, Adds s t pieces ∧
        (s.inPath = true → c.soleKind? ≠ some .header → pieces = s.drawing setup c) ∧
        ∀ p ∈ pieces, s.Draws setup c p :=
    ⟨#[], hadds, fun _ _ => hnone.symm, fun p hp => by simp at hp⟩
  cases c with
  | header header =>
      exact ⟨_, beginDocument_adds _ header s, fun _ hkind => absurd rfl hkind, fun p hp => hp⟩
  | draw shape =>
      refine ⟨_, draw_adds shape s, fun hopen _ => ?_, fun p hp => ?_⟩
      · rw [shapePieces, hopen]
        rfl
      · unfold shapePieces at hp
        split at hp
        · simp at hp
        · exact Array.mem_singleton.1 hp
  | closeFigure => exact hquiet (closeFigure_adds s) rfl
  | flattenPath => exact hquiet (.of_same rfl rfl rfl rfl rfl rfl rfl) rfl
  | set setting =>
      exact hquiet (update_adds (f := setting.onto) s (onto_keeps setting s.context).1) rfl
  | mapMode code => exact hquiet (setMapMode_adds code s) rfl
  | layout bits => exact hquiet (.of_same rfl rfl rfl rfl rfl rfl rfl) rfl
  | moveTo p => exact hquiet (moveTo_adds _ s) rfl
  | create index tool => exact hquiet (put_adds index tool s) rfl
  | createPattern index picture twoColors =>
      obtain ⟨pieces, hadds, hopen, hpieces⟩ :=
        createPattern_adds setup.encode index picture twoColors s
      exact ⟨pieces, hadds, fun hin _ => hopen hin, hpieces⟩
  | select handle => exact hquiet (select_adds handle s) rfl
  | delete handle => exact hquiet (delete_adds handle s) rfl
  | clip change =>
      obtain ⟨pieces, hadds, hopen, hpieces⟩ := changeClip_adds setup.combine change s
      exact ⟨pieces, hadds, fun hin _ => hopen hin, hpieces⟩
  | blit area => exact ⟨_, blit_adds setup.encode area s, fun _ _ => rfl, fun p hp => hp⟩
  | label origin text => exact ⟨_, label_adds origin text s, fun _ _ => rfl, fun p hp => hp⟩
  | plus records => exact ⟨_, runPlus_adds _ s, fun _ _ => rfl, fun p hp => hp⟩
  | nothing => exact hquiet (.refl s) rfl
  | endOfFile | beginPath | endPath | abortPath | save | restore _ | transform _ => cases honly

end State

end Metafile.Playback
