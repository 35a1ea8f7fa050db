import Metafile.Proofs.Markup.Citations
import Metafile.Proofs.Playback.Legible

/-!
# `Metafile.Proofs.Playback.References`: every reference is defined before it

A context refers to its clip region and to the picture of its brush by number. The numbers travel
through saved contexts and slots, and what was drawn with them may be held back and written much
later. `State.Catalogued` is the invariant that ties them to the document: no number is larger
than that of the last definition (`Device.Context.Numbered`), so whatever is drawn is bounded
(`State.Makes.bounded`), and what is written defines exactly the numbers so far.

`references_defined` states of the text of every conversion that all its references are to
elements that are defined once and before them, and that clip regions and pictures are numbered in
the order of their definitions. The tags of a text are those among its tokens, and where the text
can be read back they are what is read.
-/

set_option autoImplicit false

namespace Metafile

open Metafile.Markup (Attribute Document PaintBounded Piece Plain Token citingKeys
  paintBounded_hex paintBounded_of_head paintBounded_pattern)

variable {clips images : Nat}

/-! ### Attributes of a context -/

namespace Device.Context

variable {c : Context}

/-- The numbers of a context are those of definitions, or zero. -/
structure Numbered (clips images : Nat) (c : Context) : Prop where
  clip : c.clipId ≤ clips
  pattern : c.brush.pattern ≤ images

/-- The stroke of a context refers to nothing. -/
theorem strokeAttributes_bounded (c : Context) (page : Page Float) :
    ∀ a ∈ c.strokeAttributes page, a.Bounded clips images :=
  .of_within (c.strokeAttributes_within page) (by decide)

/-- The fill that is absent. -/
theorem noFill_bounded : Attribute.Bounded clips images ("fill", "none") :=
  .fill (paintBounded_of_head images (by decide))

namespace Numbered

/-- The numbers of a context stay those of definitions when there are more of them. -/
theorem mono {clips' images' : Nat} (h : c.Numbered clips images) (hclips : clips ≤ clips')
    (himages : images ≤ images') : c.Numbered clips' images' :=
  ⟨Nat.le_trans h.clip hclips, Nat.le_trans h.pattern himages⟩

/-- The reference of a context to its clip region is to one of so many. -/
theorem clipReference_bounded (h : c.Numbered clips images) {reference : String}
    (hreference : c.clipReference? = some reference) :
    Attribute.Bounded clips images ("clip-path", reference) := by
  unfold clipReference? at hreference
  split at hreference
  · cases hreference
  · rename_i hid
    rw [← Option.some.inj hreference]
    exact .clip (Nat.pos_of_ne_zero hid) h.clip

/-- The same of the attributes that it is written in. -/
theorem clipAttributes_bounded (h : c.Numbered clips images) :
    ∀ a ∈ c.clipAttributes, a.Bounded clips images :=
  .ofValue? fun _ hreference => h.clipReference_bounded hreference

/-- The paint of a brush is a colour, or the pattern of one of so many pictures. -/
private theorem brushPaint_bounded (h : c.Numbered clips images) :
    PaintBounded images c.brushPaint := by
  unfold brushPaint
  split
  · rename_i hpattern
    rw [Brush.hasPattern, Bool.and_eq_true, bne_iff_ne] at hpattern
    exact paintBounded_pattern (Nat.pos_of_ne_zero hpattern.2) h.pattern
  · exact paintBounded_hex images _

/-- The fill of a context refers to nothing but the pattern of its brush. -/
theorem fillAttributes_bounded (h : c.Numbered clips images) :
    ∀ a ∈ c.fillAttributes, a.Bounded clips images := by
  unfold fillAttributes
  split
  · exact List.forall_mem_singleton.2 noFill_bounded
  · exact List.forall_mem_cons.2 ⟨.of_key (by simp [fillRule, citingKeys]),
      List.forall_mem_singleton.2 (.fill h.brushPaint_bounded)⟩

end Numbered

end Device.Context

/-! ### What EMF+ records draw -/

namespace Plus.Player

open Metafile.Markup.Element (Bounded)

/-- What EMF+ records draw refers to nothing. -/
theorem drawing_bounded {p : Player} {scale : Float} {c : Command} :
    ∀ piece ∈ p.drawing scale c, piece.Bounded clips images := by
  -- a brush fills with its colour, so no figure refers to anything
  have hfill (brush : Brush) (o : Outline Float) :
      Bounded clips images (p.fillElement scale brush o) :=
    .set_key (.setSome (.set (.set_key (.named _) (by decide) _) (.fill (paintBounded_hex _ _)))
      fun _ _ => .of_key (by simp [citingKeys])) (by decide) _
  have hstroke (pen : Pen) (o : Outline Float) :
      Bounded clips images (p.strokeElement scale pen o) :=
    .setSome (.set_key (.set_key (.set (.set_key (.named _) (by decide) _)
      Device.Context.noFill_bounded) (by decide) _) (by decide) _)
      fun _ _ => .of_key (by simp [citingKeys])
  intro piece hpiece
  unfold drawing at hpiece
  split at hpiece
  · cases hpiece
  · split at hpiece
    · split at hpiece
      · obtain ⟨o, _, rfl⟩ := List.mem_map.1 hpiece
        exact Piece.bounded_element (hfill _ o)
      · cases hpiece
    · split at hpiece
      · obtain ⟨o, _, rfl⟩ := List.mem_map.1 hpiece
        exact Piece.bounded_element (hstroke _ o)
      · cases hpiece
    · split at hpiece
      · split at hpiece
        · cases hpiece
        · -- a text has its font and its paint, and no attribute of its own that refers
          rename_i font brush _ _ _
          rw [List.mem_singleton.1 hpiece]
          refine Piece.bounded_label ?_
          simp only [List.forall_mem_append, List.forall_mem_cons, List.not_mem_nil,
            false_implies, implies_true, and_true, and_assoc]
          refine ⟨.of_key ?_, .of_key ?_, .onlyIf _ ?_ _, .of_key ?_,
            .fill (paintBounded_hex _ _), .onlyIf _ ?_ _, .onlyIf _ ?_ _, .onlyIf _ ?_ _,
            .of_within (Markup.Lettering.decoration_within _ _) ?_, .keepBlanks⟩
          all_goals simp [citingKeys]
      · cases hpiece
    · cases hpiece

end Plus.Player

namespace Playback

open Metafile.Device.Context (noFill_bounded strokeAttributes_bounded)
open Metafile.Record (Command Entry PathUse Survey)

/-! ### Pieces of records -/

/-- The paint of an area is a colour, or the pattern of the brush that is selected. -/
private theorem areaPaint_bounded {operation : Nat} {b : Device.Brush} {paint : String}
    (hb : b.pattern ≤ images) (h : areaPaint? operation b = some paint) :
    PaintBounded images paint := by
  unfold areaPaint? at h
  split at h
  · cases h
  · split at h
    · rw [← Option.some.inj h]
      exact paintBounded_hex images _
    · split at h
      · rw [← Option.some.inj h]
        exact paintBounded_hex images _
      · unfold brushArea? at h
        split at h
        · cases h
        · split at h
          · rename_i hpattern
            rw [← Option.some.inj h]
            exact paintBounded_pattern (Nat.pos_of_ne_zero hpattern.2) hb
          · rw [← Option.some.inj h]
            exact paintBounded_hex images _

/-- A style of a paint sets that paint only. -/
private theorem fillStyle_bounded {paint : String} (h : PaintBounded images paint) :
    Attribute.Bounded clips images ("style", fillStyle paint) :=
  .style fun other hother => by
    rw [fillStyle, String.append_left_inj, String.append_right_inj] at hother
    exact hother ▸ h

/-- A picture is no element of the document. -/
theorem link_embed_bounded (encode : Bitmap.Encoder) (picture : Bitmap.Picture)
    (given : Option Bitmap.Palette) :
    Attribute.Bounded clips images ("xlink:href", (picture.embed encode given).uri) := by
  have huri := Markup.embed_uri encode picture given
  generalize (picture.embed encode given).uri = uri at huri ⊢
  refine .link ?_
  rcases huri with ⟨mime, bytes, _, rfl⟩ | rfl
  · simp [Bitmap.dataUri]
  · -- only the first part of the text is looked at
    have hhead (a b c : String) (h : a.toList.head? = some 'd') :
        (a ++ b ++ c).toList.head? ≠ some '#' := by
      rw [String.toList_append, String.toList_append, List.head?_append, List.head?_append, h]
      simp
    unfold Bitmap.placeholder
    apply hhead
    decide +kernel

namespace State

variable {s : State}

/-- A shape refers to what its context refers to. -/
theorem shapePiece_bounded (h : s.context.Numbered clips images) (shape : Record.Shape) :
    (s.shapePiece shape).Bounded clips images := by
  refine Piece.bounded_shape ?_
  simp only [List.forall_mem_append, and_assoc]
  refine ⟨h.clipAttributes_bounded, .of_within (geometry_within shape s).2 (by decide),
    strokeAttributes_bounded _ _, ?_⟩
  split
  · exact h.fillAttributes_bounded
  · exact List.forall_mem_singleton.2 noFill_bounded

/-- A picture or a painted area refers to what its context refers to. The picture itself is no
reference. -/
theorem blitPieces_bounded (h : s.context.Numbered clips images) (encode : Bitmap.Encoder)
    (b : Record.Blit) : ∀ p ∈ s.blitPieces encode b, p.Bounded clips images := by
  intro p hp
  unfold blitPieces at hp
  split at hp
  · split at hp
    · simp at hp
    · rename_i paint hpaint
      rw [Array.mem_singleton.1 hp]
      refine Piece.bounded_shape ?_
      simp only [List.forall_mem_append, List.forall_mem_cons, List.not_mem_nil, false_implies,
        implies_true, and_true]
      exact ⟨h.clipAttributes_bounded, fillStyle_bounded (areaPaint_bounded h.pattern hpaint),
        .of_key (by simp [citingKeys])⟩
  · rename_i picture _
    rw [Array.mem_singleton.1 hp]
    refine Piece.bounded_element ?_
    unfold pictureElement
    refine .set (.set_key (.setSome (.setSome (.set_key (.set_key (.set_key (.set_key (.named _)
      ?_ _) ?_ _) ?_ _) ?_ _) fun _ _ => .of_key ?_) fun _ hc => h.clipReference_bounded hc) ?_ _)
      (link_embed_bounded _ _ _)
    all_goals simp [citingKeys]

/-- A text refers to the clip region of its context at most. -/
theorem labelPiece_bounded (h : s.context.Numbered clips images) (origin : Point Int)
    (text : String) : (s.labelPiece origin text).Bounded clips images := by
  have hrotation (p : Point Float) : ∀ a ∈ s.rotation p, a.Bounded clips images := by
    unfold rotation
    split
    · exact fun a ha => absurd ha List.not_mem_nil
    · exact List.forall_mem_singleton.2 (.of_key (by simp [citingKeys]))
  refine Piece.bounded_label ?_
  simp only [fontAttributes, List.forall_mem_append, List.forall_mem_cons, List.not_mem_nil,
    false_implies, implies_true, and_true, and_assoc]
  refine ⟨.ofValue? fun _ _ => .of_key ?_, .fill (paintBounded_hex _ _), hrotation _,
    .onlyIf _ ?_ _, .onlyIf _ ?_ _, .keepBlanks,
    .of_within (Markup.Lettering.decoration_within _ _) ?_, .onlyIf _ ?_ _, .of_key ?_,
    .of_key ?_, .of_key ?_, .onlyIf _ ?_ _, h.clipAttributes_bounded⟩
  all_goals simp [citingKeys]

/-- The paint of a path refers to what the context refers to. -/
theorem pathPaint_bounded (h : s.context.Numbered clips images) (use : Record.PathUse) :
    ∀ a ∈ s.pathPaint use, a.Bounded clips images := by
  have hnone : ∀ a ∈ ([] : List Attribute), a.Bounded clips images :=
    fun a ha => absurd ha List.not_mem_nil
  have hstroke : Attribute.Bounded clips images ("stroke", "none") :=
    .of_key (by simp [citingKeys])
  unfold pathPaint
  simp only [List.forall_mem_append, and_assoc]
  refine ⟨?_, ?_, ?_, ?_⟩
  · split
    · exact strokeAttributes_bounded _ _
    · exact hnone
  · split
    · exact h.fillAttributes_bounded
    · exact hnone
  · split
    · exact hnone
    · exact List.forall_mem_singleton.2 noFill_bounded
  · split
    · exact hnone
    · exact List.forall_mem_singleton.2 hstroke

end State

/-- What begins a document refers to nothing. -/
theorem head_bounded (o : Options) (header : Record.Header) :
    ∀ p ∈ (head o header).push (originPiece o header), p.Bounded clips images := by
  have hroot : ∀ a ∈ rootAttributes o header, a.Bounded clips images := by
    unfold rootAttributes
    simp only [List.forall_mem_append, List.forall_mem_cons, List.not_mem_nil, false_implies,
      implies_true, and_true, and_assoc]
    refine ⟨.of_key ?_, .of_key ?_, .of_key ?_, ?_, .of_key ?_, .of_key ?_⟩
    case refine_4 =>
      cases o.namespaceName with
      | none => exact fun a ha => absurd ha List.not_mem_nil
      | some name =>
          refine List.forall_mem_singleton.2 (.of_key fun hkey => ?_)
          -- no other key begins like that of a namespace
          have hchars (key : String) (hk : key ∈ citingKeys) :
              key.toList.take 3 ≠ "xmlns:".toList.take 3 := by
            revert hk
            revert key
            decide
          exact hchars _ hkey (by simp)
    all_goals simp [citingKeys]
  exact forall_head (fun _ _ ht => absurd ht List.not_mem_nil) (Piece.bounded_opening hroot)
    (Piece.bounded_opening (List.forall_mem_singleton.2 (.of_key (by simp [citingKeys]))))

/-! ### Definitions -/

section Definitions

variable {qualifier : String} {tags : List Markup.Tag}

/-- The attributes of a picture that is defined. -/
def imageAttributes (id : Nat) (uri : String) (width height : Float) : List Attribute :=
  [("height", Decimal.Shortest.text height), ("id", Markup.Reference.image id),
    ("preserveAspectRatio", "none"), ("width", Decimal.Shortest.text width), ("x", "0"),
    ("xlink:href", uri), ("y", "0")]

/-- The attributes of a pattern that repeats a picture. -/
def patternAttributes (id : Nat) (width height : Float) : List Attribute :=
  [("height", Decimal.Shortest.text height), ("id", Markup.Reference.pattern id),
    ("patternUnits", "userSpaceOnUse"), ("width", Decimal.Shortest.text width), ("x", "0"),
    ("y", "0")]

/-- The definition of a picture and of the pattern that repeats it, tag by tag. -/
theorem tags_patternDefinition (id : Nat) (uri : String) (width height : Float) :
    (patternDefinition id uri width height).tags qualifier =
      [⟨.start, qualifier ++ "defs", []⟩,
        ⟨.single, qualifier ++ "image", imageAttributes id uri width height⟩] ++
        Markup.patternTags qualifier id (patternAttributes id width height) ++
        [⟨.ending, qualifier ++ "defs", []⟩] :=
  rfl

/-- The definition of the next clip region. -/
theorem clipDefinition_catalogued (h : Markup.Catalogued qualifier clips images tags)
    (region : Outline Float) :
    Markup.Catalogued qualifier (clips + 1) images
      (tags ++ (clipDefinition (clips + 1) region).tags qualifier) := by
  refine h.define [.clip (clips + 1)] rfl (fun _ hlabels => hlabels.clip) ?_
    fun id hlt hle => absurd hle (by omega)
  have hdata : Attribute.Bounded 0 0 ("d", region.data) := .of_key (by simp [citingKeys])
  -- the tags one after the other: the groups, the region with its name, and its outline
  refine ⟨nofun, fun a ha element name hcites => ?_, fun a ha element name hcites => ?_, nofun,
    nofun, trivial⟩
  · rw [List.mem_singleton.1 ha] at hcites
    exact absurd hcites (Attribute.not_cites_id _)
  · rw [List.mem_singleton.1 ha] at hcites
    exact absurd hcites hdata.uncited

/-- The definition of the next picture, whose pattern has a tile that shows it. -/
theorem patternDefinition_catalogued (h : Markup.Catalogued qualifier clips images tags)
    {uri : String} (width height : Float) (huri : Attribute.Bounded 0 0 ("xlink:href", uri)) :
    Markup.Catalogued qualifier clips (images + 1)
      (tags ++ (patternDefinition (images + 1) uri width height).tags qualifier) := by
  rw [tags_patternDefinition]
  refine h.define [.image (images + 1), .pattern (images + 1), .tile (images + 1)] rfl
    (fun _ hlabels => hlabels.image) ?_ fun id hlt hle => ?_
  · have hkey {key : String} (hkey : key ∉ citingKeys) (value element name : String) :
        ¬Attribute.Cites (key, value) element name :=
      Attribute.Bounded.uncited (.of_key hkey)
    have himage : ∀ a ∈ imageAttributes (images + 1) uri width height, ∀ element name,
        ¬a.Cites element name := by
      simp only [imageAttributes, List.forall_mem_cons]
      refine ⟨hkey ?_ _, fun _ _ => Attribute.not_cites_id _, hkey ?_ _, hkey ?_ _, hkey ?_ _,
        fun _ _ => huri.uncited, hkey ?_ _, nofun⟩
      all_goals simp [citingKeys]
    have hpattern : ∀ a ∈ patternAttributes (images + 1) width height, ∀ element name,
        ¬a.Cites element name := by
      simp only [patternAttributes, List.forall_mem_cons]
      refine ⟨hkey ?_ _, fun _ _ => Attribute.not_cites_id _, hkey ?_ _, hkey ?_ _, hkey ?_ _,
        hkey ?_ _, nofun⟩
      all_goals simp [citingKeys]
    -- only the tile refers to something, and the picture that it shows stands before it
    refine ⟨nofun, fun a ha _ _ hcites => absurd hcites (himage a ha _ _),
      fun a ha _ _ hcites => absurd hcites (hpattern a ha _ _),
      fun a ha element name hcites => ?_, nofun, nofun, trivial⟩
    rcases List.mem_cons.1 ha with rfl | ha
    · exact absurd hcites (Attribute.not_cites_id _)
    · rw [List.mem_singleton.1 ha] at hcites
      obtain ⟨rfl, rfl⟩ := Attribute.cites_link hcites
      exact List.mem_append_left _ (List.mem_append_right _ List.mem_cons_self)
  · obtain rfl : id = images + 1 := by omega
    exact ⟨_, List.mem_cons_of_mem _ List.mem_cons_self,
      (List.infix_append _ _ _ : Markup.patternTags qualifier (images + 1) _ <:+: _)⟩

end Definitions

namespace State

variable {setup : Setup} {uses : List PathUse} {s t : State} {c : Command}

/-- What a command makes refers only to definitions with the numbers so far, if the command itself
defines nothing. -/
theorem Makes.bounded {p : Piece} (h : s.Makes setup c p)
    (hcontext : s.context.Numbered clips images)
    (hbracket : ∀ b, s.bracket = some b → ∀ a ∈ b.clip, a.Bounded clips images)
    (hplus : ∀ records, c = .plus records →
      ∀ q ∈ (Plus.Stage.play setup.options.verbose s.page.scale records
        ⟨s.player, #[], #[]⟩).drawn, q.Bounded clips images)
    (hclip : ∀ change, c ≠ .clip change)
    (hpattern : ∀ index picture fromContext, c ≠ .createPattern index picture fromContext) :
    p.Bounded clips images := by
  have hnone {q : Prop} (hp : p ∈ (#[] : Document)) : q := by simp at hp
  cases h with
  | drawn hdraws =>
      cases c with
      | header header => exact head_bounded setup.options header p hdraws
      | draw shape => exact (hdraws : p = s.shapePiece shape) ▸ shapePiece_bounded hcontext shape
      | createPattern index picture fromContext =>
          exact absurd rfl (hpattern index picture fromContext)
      | clip change => exact absurd rfl (hclip change)
      | blit area => exact blitPieces_bounded hcontext setup.encode area p hdraws
      | label origin text =>
          exact Array.mem_singleton.1 hdraws ▸ labelPiece_bounded hcontext origin text
      | plus records => exact hplus records rfl p hdraws
      | _ => exact hnone hdraws
  | @path b paint hb hpaint =>
      -- a path that is given up is not filled, and any other is painted from the context
      have hpaints : ∀ a ∈ paint, a.Bounded clips images := by
        rcases hpaint with rfl | ⟨use, rfl⟩
        · exact List.forall_mem_cons.2 ⟨noFill_bounded,
            List.forall_mem_singleton.2 (.of_key (by simp [citingKeys]))⟩
        · exact pathPaint_bounded hcontext use
      refine Piece.bounded_shape ?_
      simp only [List.forall_mem_append, List.forall_mem_singleton]
      exact ⟨⟨hbracket b hb, .of_key (by simp [citingKeys])⟩, hpaints⟩
  | group u =>
      exact Piece.bounded_opening (List.forall_mem_singleton.2 (.of_key (by simp [citingKeys])))
  | ending _ => exact Piece.bounded_ending _

/-! ### Numbers and definitions -/

/-- A tool whose brush repeats one of so many pictures, if it repeats one. -/
def ToolNumbered (images : Nat) (tool : Device.Tool) : Prop :=
  ∀ b, tool = .brush b → b.pattern ≤ images

/-- Selecting tools keeps the numbers of a context those of definitions, if those of the tools
are. -/
theorem selectable_numbered (clips images : Nat) :
    Selectable (Device.Context.Numbered clips images) (ToolNumbered images) where
  same := by
    intro c d hpattern _ hclip hc
    have hid : d.clipId = c.clipId := by rw [Device.Context.clipId, hclip]; rfl
    exact ⟨hid ▸ hc.clip, hpattern ▸ hc.pattern⟩
  select := by
    intro c tool hc htool
    cases tool with
    | pen p => exact ⟨hc.clip, hc.pattern⟩
    | brush b => exact ⟨hc.clip, htool b rfl⟩
    | font f => exact ⟨hc.clip, hc.pattern⟩

/-- What is written defines so many clip regions and pictures as were counted, each before every
reference to it, and nothing that may be drawn or written later has a larger number. -/
structure Catalogued (s : State) : Prop where
  written : ∀ qualifier,
    Markup.Catalogued qualifier s.clips s.images.size (Document.tags qualifier s.written)
  held : ∀ p ∈ s.held, p.Bounded s.clips s.images.size
  bracket : ∀ b, s.bracket = some b → ∀ a ∈ b.clip, a.Bounded s.clips s.images.size
  stores : Stores (Device.Context.Numbered s.clips s.images.size) (ToolNumbered s.images.size) s

namespace Catalogued

/-- A command that makes no definition. -/
private theorem perform_other (h : Catalogued s) (setup : Setup) (uses : List PathUse)
    (hclip : ∀ change, c ≠ .clip change)
    (hpattern : ∀ index picture fromContext, c ≠ .createPattern index picture fromContext)
    (hcreate : ∀ index tool, c = .create index tool → ToolNumbered s.images.size tool)
    (hplus : ∀ records, c = .plus records → ∀ q ∈ (Plus.Stage.play setup.options.verbose
      s.page.scale records ⟨s.player, #[], #[]⟩).drawn, q.Bounded s.clips s.images.size) :
    Catalogued (s.perform setup uses c).1 := by
  obtain ⟨hclips, himages⟩ := Prod.mk.inj (perform_counts setup uses s hclip hpattern)
  have hmade (p : Piece) (hp : s.Makes setup c p) : p.Bounded s.clips s.images.size :=
    hp.bounded h.stores.context h.bracket hplus hclip hpattern
  have hgains := perform_gains setup uses c s
  refine ⟨fun qualifier => ?_, fun p hp => ?_, fun b hb => ?_, ?_⟩
  · obtain ⟨more, hwritten, hmore⟩ := hgains.written
    rw [hclips, himages, hwritten, Document.tags_append]
    refine (h.written qualifier).cite fun t ht => ?_
    obtain ⟨p, hp, ht⟩ := List.mem_flatMap.1 ht
    exact (hmore p (Array.mem_toList_iff.1 hp)).elim (h.held p) (hmade p) qualifier t ht
  · rw [hclips, himages]
    exact (hgains.held p hp).elim (h.held p) (hmade p)
  · rw [hclips, himages]
    rcases perform_clip setup uses c s hb with ⟨b', hb', heq⟩ | heq
    · exact heq ▸ h.bracket b' hb'
    · exact heq ▸ h.stores.context.clipAttributes_bounded
  · rw [hclips, himages]
    exact h.stores.perform (selectable_numbered _ _) setup uses hclip hpattern hcreate

/-- A clip region is set, and defined outside of a path. -/
theorem setClip (h : Catalogued s) (region : Outline Float) : Catalogued (s.setClip region) := by
  cases hopen : s.inPath with
  | true =>
      rw [setClip_of_open hopen]
      exact ⟨h.written, h.held, h.bracket,
        ⟨⟨Nat.zero_le _, h.stores.context.pattern⟩, h.stores.saved, h.stores.slots⟩⟩
  | false =>
      rw [setClip_of_closed hopen]
      have hlater := h.stores.mono (fun c hc => hc.mono (Nat.le_succ s.clips) (Nat.le_refl _))
        fun _ htool => htool
      refine ⟨fun qualifier => ?_, fun p hp => (h.held p hp).mono (Nat.le_succ _) (Nat.le_refl _),
        fun b hb a ha => (h.bracket b hb a ha).mono (Nat.le_succ _) (Nat.le_refl _),
        ⟨⟨Nat.le_refl _, hlater.context.pattern⟩, hlater.saved, hlater.slots⟩⟩
      rw [Document.tags_push]
      exact clipDefinition_catalogued (h.written qualifier) region

/-- A change of the clip region. -/
theorem changeClip (h : Catalogued s) (combine : Clip.Combiner) (change : Record.ClipChange) :
    Catalogued (s.changeClip combine change) := by
  unfold State.changeClip
  split
  · exact h.setClip _
  · exact h.setClip _
  · unfold shiftClip
    split
    · exact h
    · exact h.setClip _
  · exact h.setClip _
  · exact ⟨h.written, h.held, h.bracket,
      ⟨⟨Nat.zero_le _, h.stores.context.pattern⟩, h.stores.saved, h.stores.slots⟩⟩

/-- The picture of a brush is defined after it was looked for, and its number is that of a
definition, or zero. -/
theorem patternOf (h : Catalogued s) (encode : Bitmap.Encoder) (picture : Bitmap.Picture)
    (fromContext : Bool) :
    Catalogued (s.patternOf encode picture fromContext).1 ∧
      (s.patternOf encode picture fromContext).2 ≤
        (s.patternOf encode picture fromContext).1.images.size := by
  -- the number of a pattern is zero, that of a known picture, or the next one
  rcases patternOf_cases encode picture fromContext s with
    ⟨_, heq⟩ | ⟨_, id, hfind, heq⟩ | ⟨_, _, log, heq⟩
  · rw [heq]
    exact ⟨h, Nat.zero_le _⟩
  · rw [heq]
    exact ⟨h, (Device.ImageLibrary.find?_eq_some hfind).2.1⟩
  · rw [heq]
    have hsize : (s.images.push picture).size = s.images.size + 1 := Array.size_push ..
    have hlater := h.stores.mono
      (fun c hc => hc.mono (Nat.le_refl s.clips) (Nat.le_succ s.images.size))
      fun _ htool b hb => Nat.le_succ_of_le (htool b hb)
    refine ⟨⟨fun qualifier => ?_, fun p hp => ?_, fun b hb a ha => ?_, ?_⟩,
      Nat.le_of_eq hsize.symm⟩
    · rw [hsize, Document.tags_push]
      exact patternDefinition_catalogued (h.written qualifier) _ _ (link_embed_bounded _ _ _)
    · rw [hsize]
      exact (h.held p hp).mono (Nat.le_refl _) (Nat.le_succ _)
    · rw [hsize]
      exact (h.bracket b hb a ha).mono (Nat.le_refl _) (Nat.le_succ _)
    · rw [hsize]
      exact ⟨hlater.context, hlater.saved, hlater.slots⟩

/-- A brush that repeats a picture is put into its slot. -/
theorem createPattern (h : Catalogued s) (encode : Bitmap.Encoder) (index : Nat)
    (picture : Bitmap.Picture) (fromContext : Bool) :
    Catalogued (s.createPattern encode index picture fromContext).1 := by
  obtain ⟨hdefined, hle⟩ := h.patternOf encode picture fromContext
  have hstores := hdefined.stores.createPattern encode index picture fromContext fun b hb => by
    cases hb
    exact hle
  obtain ⟨objects, log, heq⟩ := createPattern_put encode index picture fromContext s
  rw [heq] at hstores ⊢
  exact ⟨hdefined.written, hdefined.held, hdefined.bracket, hstores⟩

/-- Every command keeps the definitions ahead of the references, if a brush that it stores repeats
no picture and the EMF+ records refer to nothing. -/
theorem perform (h : Catalogued s) (setup : Setup) (uses : List PathUse)
    (hcreate : ∀ index b, c = .create index (.brush b) → b.pattern = 0)
    (hplus : ∀ records, c = .plus records → ∀ q ∈ (Plus.Stage.play setup.options.verbose
      s.page.scale records ⟨s.player, #[], #[]⟩).drawn, q.Bounded s.clips s.images.size) :
    Catalogued (s.perform setup uses c).1 := by
  by_cases hclip : ∃ change, c = .clip change
  · obtain ⟨change, rfl⟩ := hclip
    exact h.changeClip setup.combine change
  by_cases hpattern : ∃ index picture fromContext, c = .createPattern index picture fromContext
  · obtain ⟨index, picture, fromContext, rfl⟩ := hpattern
    exact h.createPattern setup.encode index picture fromContext
  · refine h.perform_other setup uses (fun change hc => hclip ⟨change, hc⟩)
      (fun index picture fromContext hc => hpattern ⟨index, picture, fromContext, hc⟩)
      (fun index tool hc b hb => ?_) hplus
    rw [hcreate index b (hb ▸ hc)]
    exact Nat.zero_le _

/-- The initial state has neither definitions nor references. -/
theorem start (survey : Survey) : Catalogued (State.start survey) where
  written qualifier := .empty qualifier
  held p hp := by simp [State.start, State.initial] at hp
  bracket b hb := by cases hb
  stores := by
    refine ⟨⟨Nat.le_refl 0, Nat.le_refl 0⟩, fun c hc => absurd hc List.not_mem_nil, ?_⟩
    intro tool htool
    exact absurd htool (by simp [State.start, State.initial, Device.ObjectTable.empty])

/-- A message is neither a definition nor a reference. -/
theorem of_log (h : Catalogued s) (log : Log) (failed : Bool) :
    Catalogued { s with log, failed } :=
  ⟨h.written, h.held, h.bracket, ⟨h.stores.context, h.stores.saved, h.stores.slots⟩⟩

end Catalogued

/-- The tags among the tokens refer only to what is defined before. The last of them may be that
of the path of an open bracket, which has the clip region with which it was begun. -/
theorem Catalogued.tokens (h : Catalogued s) (qualifier : String) :
    Markup.Catalogued qualifier s.clips s.images.size
      (Token.qualifiedTags qualifier s.tokens) := by
  rw [State.tokens, Token.qualifiedTags_append, ← Document.tags_eq_tokens]
  refine (h.written qualifier).cite fun t ht => ?_
  cases hbracket : s.bracket with
  | none =>
      rw [hbracket] at ht
      cases ht
  | some b =>
      rw [hbracket] at ht
      obtain rfl : t = ⟨.start, qualifier ++ "path", b.clip⟩ := List.mem_singleton.1 ht
      exact h.bracket b hbracket

end State

/-! ### Streams -/

namespace Reaches

variable {setup : Setup} {stream : Bytes} {survey : Survey} {earlier later : List Entry}
  {e : Entry} {t : State}

/-- A record keeps the definitions ahead of the references, also where it cannot be done. -/
theorem next_catalogued (h : Reaches setup stream survey earlier (e :: later) t)
    (hcatalogued : t.Catalogued) : (t.next setup survey.paths e).1.Catalogued := by
  obtain ⟨log, hlog⟩ := State.announce_eq setup e t
  have hlisted : State.Catalogued { t with log } := hcatalogued.of_log log t.failed
  rw [State.next, State.step_eq, hlog]
  cases hc : e.command setup.options.plus with
  | error cause => exact hlisted
  | ok c =>
      refine hlisted.perform setup survey.paths ?_ ?_
      · rintro index b rfl
        unfold Entry.command at hc
        split at hc
        · cases hc
        · exact Command.ofRecord_brush hc
      · rintro records rfl q hq
        obtain ⟨p, scale, c, hdrawing⟩ := h.plus_drawn hq
        exact Plus.Player.drawing_bounded q hdrawing

/-- At every boundary the definitions are ahead of the references. -/
theorem catalogued (h : Reaches setup stream survey earlier later t) : t.Catalogued :=
  h.of_next (.start survey) next_catalogued

end Reaches

/-- The playing of an accepted stream leaves the definitions ahead of the references, at whichever
record it ends. -/
theorem play_catalogued (setup : Setup) {stream : Bytes} {survey : Survey}
    (h : Survey.ofBytes stream = .ok survey) : (play setup survey).Catalogued :=
  play_of_next h (.start survey) Reaches.next_catalogued fun _ hstopped => hstopped.of_log _ _

/-- In the text of a conversion, complete or cut short, every reference to a clip region, a
pattern or a picture is to an element that is defined once and before it. The clip regions and the
pictures are numbered from one on in the order of their definitions. The text is that of the
tokens, and the references are those in the tags among them. If the namespace is usable and the
font families of the stream are plain, these are the tags that are read from the text, up to where
it breaks off. -/
theorem references_defined (setup : Setup) {stream : Bytes} {survey : Survey}
    (h : Survey.ofBytes stream = .ok survey) :
    ∃ result messages tags, convert setup stream = .ok (result, messages) ∧
      result.svg =
        Token.qualifiedTexts setup.options.qualifier (play setup survey).tokens ∧
      tags = Token.qualifiedTags setup.options.qualifier (play setup survey).tokens ∧
      Markup.Referenced setup.options.qualifier (play setup survey).clips
        (play setup survey).images.size tags ∧
      (Usable setup.options →
        (∀ name ∈ families setup.options.plus survey.entries, Plain name) →
        Markup.begunTags? result.svg = some tags) :=
  ⟨_, _, _, convert_of_accepted setup h, State.text_eq_tokens _ _, rfl,
    ((play_catalogued setup h).tokens _).referenced,
    fun hoptions hfamilies =>
      State.begunTags_text hoptions.qualifies (play_sound h hoptions hfamilies)⟩

/-- The records of two clip regions and of a brush that repeats a picture. The brush is in use in
both regions, and a third region and a second brush are set inside of a path. -/
def definingRecords : List (Record.Kind × Bytes) :=
  let box : Bytes := List.replicate 16 0
  [(.header, List.replicate 48 0 ++ [3, 0] ++ List.replicate 30 0), (.intersectClipRect, box),
    (.createMonoBrush, monoBrushFields 1), (.selectObject, [1, 0, 0, 0]), (.saveContext, []),
    (.beginPath, []), (.intersectClipRect, box), (.createMonoBrush, monoBrushFields 2),
    (.endPath, []), (.rectangle, box), (.intersectClipRect, box), (.rectangle, box)]

/-- Two clip regions and a brush that repeats a picture, all of it played. -/
def definingStream : Bytes :=
  Record.streamOf (definingRecords ++ [(.endOfFile, List.replicate 12 0)])

/-- The same, and then a path in which the playing stops, since no slot has the handle that is
selected. -/
def stoppingStream : Bytes :=
  Record.streamOf (definingRecords ++ [(.beginPath, []), (.lineTo, List.replicate 8 0),
    (.selectObject, [9, 0, 0, 0]), (.endOfFile, List.replicate 12 0)])

/-- From the text of the conversion, which is cut short, the definitions of two clip regions, of
one picture and of its pattern are read, and then references to all of them. The path that is not
written to its end refers to the second region. -/
theorem references_defined_brush :
    ∃ result messages tags, convert .plain stoppingStream = .ok (result, messages) ∧
      result.complete = false ∧ Markup.begunTags? result.svg = some tags ∧
      Markup.Referenced "" 2 1 tags ∧
      Markup.definitions tags = [("clipPath", "clip-1"), ("image", "img-1"),
        ("pattern", "img-1-ref"), ("use", "img-1-ign"), ("clipPath", "clip-2")] ∧
      (∃ tag ∈ tags, ("clip-path", "url(#clip-1)") ∈ tag.attributes) ∧
      (∃ tag ∈ tags, ("clip-path", "url(#clip-2)") ∈ tag.attributes ∧
        ("fill", "url(#img-1-ref)") ∈ tag.attributes) ∧
      tags.getLast? = some ⟨.start, "path", [("clip-path", "url(#clip-2)")]⟩ := by
  have haccepted := Survey.ofBytes_ofStream
    (by decide +kernel : (Survey.ofBytes stoppingStream).isOk = true)
  obtain ⟨result, messages, tags, hconvert, -, htags, hreferenced, hread⟩ :=
    references_defined .plain haccepted
  have hcounts : (play .plain (.ofStream stoppingStream)).clips = 2 ∧
      (play .plain (.ofStream stoppingStream)).images.size = 1 := by decide +kernel
  rw [hcounts.1, hcounts.2] at hreferenced
  -- no font is created, so what is written can be read back
  have hfamilies : families true (Survey.ofStream stoppingStream).entries = [] := by
    decide +kernel
  have hincomplete :
      (Conversion.ofSurvey .plain (.ofStream stoppingStream)).1.complete = false := by
    decide +kernel
  have hresult : (Conversion.ofSurvey .plain (.ofStream stoppingStream)).1 = result := by
    rw [convert_of_accepted _ haccepted] at hconvert
    exact congrArg Prod.fst (Except.ok.inj hconvert)
  refine ⟨result, messages, tags, hconvert, hresult ▸ hincomplete,
    hread nofun (by rw [show Setup.plain.options.plus = true from rfl, hfamilies]; nofun),
    hreferenced, ?_, ?_, ?_, ?_⟩
  all_goals
    rw [htags]
    decide +kernel

end Playback

end Metafile
