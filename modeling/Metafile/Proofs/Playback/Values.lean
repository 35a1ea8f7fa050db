import Metafile.Proofs.Playback.Families
import Metafile.Proofs.Playback.Growth
import Metafile.Proofs.Playback.Outcome
import Metafile.Proofs.Playback.Pieces

/-!
# `Metafile.Proofs.Playback.Values`: what the values of attributes hold

Values are written between double quotes as they are. Nearly all of them are made here, out of
numbers, colours, references and encoded bytes, and need no escape. `attributes_confined` states
that one kind of value is left: the name of a font family, which is the text that a record or an
EMF+ object stores, whatever its characters are. `quote_in_attribute` is a stream whose font has a
quote in its name, and the name ends the attribute in which it is written.

`State.Filled` says of all pieces, those that are written and those that are held back, that they
are of some sort. That the pieces are confined to the names of the stream is kept by every record.
It needs no more of the options than that they are there, and it holds at both ends of the
playing.
-/

set_option autoImplicit false

namespace Metafile.Playback

open Metafile.Device.Context (clipAttributes_within)
open Metafile.Markup (Attribute Document Piece Plain plain_data plain_fixed)
open Metafile.Record (Command Entry Header Kind PathUse Survey TransformChange)

/-! ### Pieces -/

/-- The values of the root element are plain, whatever its namespace is called. -/
theorem plain_rootAttributes (o : Options) (h : Header) :
    ∀ a ∈ rootAttributes o h, Plain a.2 := by
  intro a ha
  unfold rootAttributes at ha
  rcases List.mem_append.1 ha with ha | ha
  · rcases List.mem_append.1 ha with ha | ha
    · exact (by decide : ∀ a ∈ [("version", "1.1"), ("xmlns", documentNamespace),
        ("xmlns:xlink", linkNamespace)], Plain a.2) a ha
    · cases hname : o.namespaceName with
      | none =>
          rw [hname] at ha
          cases ha
      | some name =>
          rw [hname] at ha
          rw [List.mem_singleton.1 ha]
          exact (by decide : Plain documentNamespace)
  · simp only [List.mem_cons, List.not_mem_nil, or_false] at ha
    rcases ha with rfl | rfl
    · exact plain_fixed _
    · exact plain_fixed _

variable {names : List String}

/-- The pieces that begin a document are confined. -/
theorem head_confined (o : Options) (h : Header) :
    ∀ p ∈ (head o h).push (originPiece o h), p.Confined names := by
  refine forall_head (Piece.Sound.declaration.confined names) (fun qualifier t ht a ha => ?_)
    ((originPiece_sound o h).confined names)
  rw [List.mem_singleton.1 ht] at ha
  exact Or.inl (plain_rootAttributes o h a ha)

namespace State

variable {setup : Setup} {uses : List PathUse} {s t : State}

/-- A text has the attributes that it would have without a family, and the name of the family. -/
theorem labelPiece_confined (origin : Point Int) (text : String)
    (h : ∀ family, s.context.font.family = some family → family ∈ names) :
    (s.labelPiece origin text).Confined names := by
  let nameless : State :=
    { s with context := { s.context with font := { s.context.font with family := none } } }
  have hnameless : (nameless.labelPiece origin text).Sound :=
    labelPiece_sound origin text fun _ hnone => by cases hnone
  refine hnameless.confined_label fun a ha => ?_
  -- the family comes first, and the other parts do not depend on it
  simp only [fontAttributes, List.append_assoc] at ha ⊢
  rcases List.mem_append.1 ha with ha | ha
  · refine Or.inr ?_
    cases hfamily : s.context.font.family with
    | none =>
        rw [hfamily] at ha
        cases ha
    | some family =>
        rw [hfamily] at ha
        rw [List.mem_singleton.1 ha]
        exact ⟨rfl, h family hfamily⟩
  · exact Or.inl (List.mem_append_right _ ha)

/-! ### States -/

/-- All pieces that are written or held back are of some sort, and an open bracket has been begun
with a clip region only. -/
structure Filled (P : Piece → Prop) (s : State) : Prop where
  written : ∀ p ∈ s.written, P p
  held : ∀ p ∈ s.held, P p
  clip : ∀ b, s.bracket = some b → Attribute.Within b.clip ["clip-path"]

namespace Filled

variable {P : Piece → Prop}

/-- At the beginning there are no pieces. -/
theorem start (P : Piece → Prop) (survey : Survey) : Filled P (State.start survey) where
  written p hp := by simp [State.start, State.initial] at hp
  held p hp := by simp [State.start, State.initial] at hp
  clip b hb := by cases hb

/-- A state with the same pieces and the same bracket is filled with the same. -/
theorem of_same (h : Filled P s) (hwritten : t.written = s.written) (hheld : t.held = s.held)
    (hbracket : t.bracket = s.bracket) : Filled P t :=
  ⟨hwritten ▸ h.written, hheld ▸ h.held, hbracket ▸ h.clip⟩

/-- After a command all pieces are of the sort that they were of, if those that it makes are. -/
theorem perform (h : Filled P s) (setup : Setup) (uses : List PathUse) {c : Command}
    (hmade : ∀ p, s.Makes setup c p → P p) : Filled P (s.perform setup uses c).1 := by
  have hgains := perform_gains setup uses c s
  refine ⟨hgains.forall_written h.written h.held hmade,
    fun p hp => (hgains.held p hp).elim (h.held p) (hmade p), fun b hb => ?_⟩
  rcases perform_clip setup uses c s hb with ⟨b', hb', heq⟩ | heq
  · exact heq ▸ h.clip b' hb'
  · exact heq ▸ clipAttributes_within _

end Filled

/-- The pieces that a command makes are confined to some names, if the family of the font and
those of the EMF+ objects are among them. -/
theorem Makes.confined {c : Command} {p : Piece} (h : s.Makes setup c p)
    (hclip : ∀ b, s.bracket = some b → Attribute.Within b.clip ["clip-path"])
    (hfont : ∀ family, s.context.font.family = some family → family ∈ names)
    (hplus : ∀ records, c = .plus records → ∀ q ∈ (Plus.Stage.play setup.options.verbose
      s.page.scale records ⟨s.player, #[], #[]⟩).drawn, q.Confined names) : p.Confined names := by
  cases h with
  | drawn hdraws =>
      rcases hdraws.cases with
        ⟨hsound, _⟩ | ⟨origin, text, rfl, rfl⟩ | ⟨records, rfl, hq⟩ | ⟨header, rfl, hq⟩
      · exact hsound.confined names
      · exact labelPiece_confined origin text hfont
      · exact hplus records rfl p hq
      · exact head_confined setup.options header p hq
  | path hb hpaint =>
      rcases hpaint with rfl | ⟨use, rfl⟩
      · exact (piece_unpainted_sound (hclip _ hb)).confined names
      · exact (piece_pathPaint_sound (hclip _ hb) use s).confined names
  | group u => exact u.wrapperPiece_sound.confined names
  | ending hname => exact (Piece.Sound.ending hname).confined names

end State

/-! ### Streams -/

namespace Reaches

variable {setup : Setup} {stream : Bytes} {survey : Survey} {earlier later : List Entry}
  {e : Entry} {t : State}

/-- After a record all pieces are of the sort that they were of, if those that it makes are, also
where it cannot be done. -/
theorem next_filled {P : Piece → Prop} (hfilled : State.Filled P t)
    (hmade : ∀ log c p, e.command setup.options.plus = .ok c →
      State.Makes setup c { t with log } p → P p) :
    State.Filled P (t.next setup survey.paths e).1 := by
  obtain ⟨log, hlog⟩ := State.announce_eq setup e t
  have hlisted : State.Filled P { t with log } := hfilled.of_same rfl rfl rfl
  rw [State.next, State.step_eq, hlog]
  cases hc : e.command setup.options.plus with
  | error fault => exact hlisted
  | ok c => exact hlisted.perform setup survey.paths fun p => hmade log c p hc

/-- A record keeps the pieces confined to the names that the stream stores, also where it cannot
be done. -/
theorem next_confined (h : Reaches setup stream survey earlier (e :: later) t)
    (hconfined : t.Filled (Piece.Confined (families setup.options.plus survey.entries))) :
    (t.next setup survey.paths e).1.Filled
      (Piece.Confined (families setup.options.plus survey.entries)) := by
  refine next_filled hconfined fun log c p hc hmakes =>
    hmakes.confined hconfined.clip h.stocked.font ?_
  rintro records rfl q hq
  have hplayed := (h.follows (List.cons_ne_nil e later)).playFrom setup.options.verbose
    t.page.scale 0 records
  exact (hplayed.confined q hq).mono fun name hname => h.comment_families hc hname

/-- At every boundary the pieces are confined to the names that the stream stores. -/
theorem confined (h : Reaches setup stream survey earlier later t) :
    t.Filled (Piece.Confined (families setup.options.plus survey.entries)) :=
  h.of_next (.start _ survey) next_confined

end Reaches

/-- The playing of an accepted stream leaves pieces that are confined to the names that the stream
stores, at whichever record it ends. -/
theorem play_confined (setup : Setup) {stream : Bytes} {survey : Survey}
    (h : Survey.ofBytes stream = .ok survey) :
    (play setup survey).Filled (Piece.Confined (families setup.options.plus survey.entries)) :=
  play_of_next h (.start _ survey) Reaches.next_confined fun _ hstopped =>
    hstopped.of_same rfl rfl rfl

/-- In the document of an accepted stream every value of an attribute is plain, or it is the value
of a font family and one of the names that the stream stores. That holds of every tag that is
written and of the path that is still open where the playing stopped inside of one. -/
theorem attributes_confined (setup : Setup) {stream : Bytes} {survey : Survey}
    (h : Survey.ofBytes stream = .ok survey) :
    (∀ tag ∈ Document.tags setup.options.qualifier (play setup survey).written,
      ∀ a ∈ tag.attributes, Plain a.2 ∨
        a.1 = "font-family" ∧ a.2 ∈ families setup.options.plus survey.entries) ∧
    ∀ bracket, (play setup survey).bracket = some bracket →
      (∀ a ∈ bracket.clip, Plain a.2) ∧ Plain bracket.drawn.outline.data := by
  have hconfined := play_confined setup h
  refine ⟨fun tag htag a ha => ?_, fun bracket hbracket => ?_⟩
  · obtain ⟨p, hp, htag⟩ := List.mem_flatMap.1 htag
    exact hconfined.written p (Array.mem_toList_iff.1 hp) _ tag htag a ha
  · exact ⟨fun a ha => ((hconfined.clip bracket hbracket).known a ha).2, plain_data _⟩

/-- The records of a text in a font of some family. -/
def letterRecords (family : Bytes) : List (Kind × Bytes) :=
  [(.header, List.replicate 48 0 ++ [2, 0] ++ List.replicate 30 0),
    (.createFont, [1, 0, 0, 0] ++ List.replicate 28 0 ++ family ++
      List.replicate (64 - family.length) 0),
    (.selectObject, [1, 0, 0, 0]),
    (.smallTextOut, List.replicate 8 0 ++ [1, 0, 0, 0, 0, 3, 0, 0] ++ List.replicate 12 0 ++
      [65, 0, 0, 0]),
    (.endOfFile, List.replicate 12 0)]

/-- A text in a font whose family has one letter for a name. -/
def letterStream : Bytes := Record.streamOf (letterRecords [65, 0])

/-- The stream is accepted, and the only value that is not made here is the name of the family. -/
theorem attributes_confined_letter :
    Survey.ofBytes letterStream = .ok (.ofStream letterStream) ∧
      ∀ tag ∈ Document.tags "" (play .plain (.ofStream letterStream)).written,
        ∀ a ∈ tag.attributes, Plain a.2 ∨ a.1 = "font-family" ∧ a.2 = "A" := by
  have haccepted := Survey.ofBytes_ofStream
    (by decide +kernel : (Survey.ofBytes letterStream).isOk = true)
  have hnames : families true (Survey.ofStream letterStream).entries = ["A"] := by decide +kernel
  have hconfined := (attributes_confined .plain haccepted).1
  rw [show Setup.plain.options.plus = true from rfl, hnames] at hconfined
  refine ⟨haccepted, fun tag htag a ha => ?_⟩
  exact (hconfined tag htag a ha).imp_right fun h => ⟨h.1, List.mem_singleton.1 h.2⟩

/-- A text in a font whose family has a name with two quotes in it. -/
def quotedStream : Bytes :=
  Record.streamOf (letterRecords ("A\" id=\"B".toList.flatMap fun c => [c.toUInt8, 0]))

/-- The name is written as it is, and its first quote ends the attribute. -/
theorem quote_in_attribute :
    ∃ survey, Survey.ofBytes quotedStream = .ok survey ∧
      ∃ tag ∈ Document.tags "" (play .plain survey).written,
        ("font-family", "A\" id=\"B") ∈ tag.attributes ∧ ¬Plain "A\" id=\"B" := by
  have haccepted := Survey.ofBytes_ofStream
    (by decide +kernel : (Survey.ofBytes quotedStream).isOk = true)
  refine ⟨_, haccepted, ?_⟩
  decide +kernel

end Metafile.Playback
