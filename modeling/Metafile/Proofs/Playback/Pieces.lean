import Metafile.Proofs.Markup.Tags
import Metafile.Proofs.Playback.Effects

/-!
# `Metafile.Proofs.Playback.Pieces`: the pieces of records can be written

Every piece that a record adds has names for names, no attribute twice and plain values. The parts
of the attributes come from the context: the stroke, the fill and the clip region use different
keys, and each part is `Attribute.Within` its own. Only the name of a font family is not made
here, so `State.Draws.sound` asks that it is plain.

Between the pieces that begin and end a document, every piece is whole.
-/

set_option autoImplicit false

namespace Metafile

open Metafile.Markup (Attribute Element Piece Plain plain_data plain_embed plain_fixed plain_hex
  plain_int plain_intercalate plain_shortest)

/-! ### Attributes of a context -/

namespace Device.Context

/-- The keys of a stroke. -/
def strokeKeys : List String :=
  ["stroke", "stroke-width", "stroke-dasharray", "stroke-linecap", "stroke-linejoin",
    "stroke-miterlimit"]

/-- The keys of a fill. -/
def fillKeys : List String := ["fill-rule", "fill"]

/-- Numbers between plain texts are plain. -/
theorem plain_numbers {between : String} (hbetween : Plain between) (vs : List Float) :
    Plain (between.intercalate (vs.map Decimal.Fixed.text)) := by
  refine plain_intercalate hbetween fun p hp => ?_
  obtain ⟨v, _, rfl⟩ := List.mem_map.1 hp
  exact plain_fixed v

/-- The dashes of a pen are numbers. -/
private theorem dashAttributes_within (pattern : Dash) (width : Float) :
    Attribute.Within (dashAttributes pattern width) ["stroke-dasharray"] := by
  unfold dashAttributes
  split
  · exact Attribute.Within.nil.mono (by decide)
  · refine .single (plain_intercalate (by decide) fun p hp => ?_)
    obtain ⟨n, _, rfl⟩ := List.mem_map.1 hp
    exact plain_fixed _

/-- A pen that draws has a colour, a width, and what its ends and its dashes ask for. -/
private theorem lineAttributes_within (c : Context) (page : Page Float) :
    Attribute.Within (c.lineAttributes page) strokeKeys := by
  have hcap : Plain c.pen.cap := by
    unfold Pen.cap
    split <;> decide
  have hjoin : Plain c.pen.join := by
    unfold Pen.join
    split <;> decide
  have hmiter : Attribute.Within
      (if c.pen.isMitered then [("stroke-miterlimit", Decimal.Fixed.text c.miterLimit)] else [])
      ["stroke-miterlimit"] := by
    split
    · exact .single (plain_fixed _)
    · exact Attribute.Within.nil.mono (by decide)
  unfold lineAttributes
  refine .append (.append (.append (.cons (plain_hex _) (.single ((plain_fixed _).append ?_)) ?_)
    (dashAttributes_within _ _) ?_) (.cons hcap (.single hjoin) ?_) ?_) hmiter ?_
  all_goals decide

/-- A pen that draws nothing has one attribute, which says so. -/
theorem strokeAttributes_within (c : Context) (page : Page Float) :
    Attribute.Within (c.strokeAttributes page) strokeKeys := by
  unfold strokeAttributes
  split
  · split
    · exact (Attribute.Within.cons (by decide) (.single (by decide)) (by decide)).mono (by decide)
    · exact (Attribute.Within.cons (by decide) (.single (plain_hex _)) (by decide)).mono
        (by decide)
  · exact c.lineAttributes_within page

/-- The paint of a brush is a colour or a reference. -/
private theorem plain_brushPaint (c : Context) : Plain c.brushPaint := by
  unfold brushPaint
  split
  · exact Markup.Reference.plain_url (Markup.Reference.plain_pattern _)
  · exact plain_hex _

/-- A brush has a fill, with a rule for outlines that cross themselves unless it draws nothing. -/
theorem fillAttributes_within (c : Context) : Attribute.Within c.fillAttributes fillKeys := by
  unfold fillAttributes
  split
  · exact (Attribute.Within.single (by decide)).mono (by decide)
  · have hrule : Plain (if c.polyFillMode == windingMode then "nonzero" else "evenodd") := by
      split <;> decide
    exact .cons hrule (.single c.plain_brushPaint) (by decide)

/-- The reference to a clip region is plain. -/
theorem plain_clipReference {c : Context} {reference : String}
    (h : c.clipReference? = some reference) : Plain reference := by
  unfold clipReference? at h
  split at h
  · cases h
  · rw [← Option.some.inj h]
    exact Markup.Reference.plain_url (Markup.Reference.plain_clip _)

/-- The clip region of a context is one attribute, or none. -/
theorem clipAttributes_within (c : Context) : Attribute.Within c.clipAttributes ["clip-path"] :=
  .ofValue? fun _ h => plain_clipReference h

end Device.Context

namespace Playback

open Metafile.Device.Context (strokeKeys fillKeys plain_numbers plain_clipReference)
open Metafile.Record (Command)

/-! ### Definitions and pictures -/

/-- The definition of a clip region can be written, whatever its outline is. -/
theorem clipDefinition_sound (id : Nat) (region : Outline Float) :
    (clipDefinition id region).Sound := by
  unfold clipDefinition
  exact .element (.push (.named (by decide)) (.push
    (.set (.named (by decide)) (by decide) (Markup.Reference.plain_clip id))
    (.set (.named (by decide)) (by decide) (plain_data region))))

/-- The definition of a picture and its pattern can be written, if the address of the picture can.
-/
theorem patternDefinition_sound (id : Nat) {uri : String} (width height : Float) (h : Plain uri) :
    (patternDefinition id uri width height).Sound := by
  have himage := Markup.Reference.plain_image id
  have hshown : Plain ("#" ++ Markup.Reference.image id) :=
    Plain.append (by decide) himage
  unfold patternDefinition
  refine .element (.push (.push (.named ?_)
    (.set (.set (.setFloat (.setFloat (.set (.set (.set (.named ?_) ?_ himage) ?_ ?_) ?_ ?_) ?_ _)
      ?_ _) ?_ h) ?_ ?_))
    (.push (.set (.setFloat (.setFloat (.set (.set (.set (.named ?_) ?_
      (Markup.Reference.plain_pattern id)) ?_ ?_) ?_ ?_) ?_ _) ?_ _) ?_ ?_)
      (.set (.set (.named ?_) ?_ (Markup.Reference.plain_tile id)) ?_ hshown)))
  all_goals decide

/-- A picture can be written, if its address and the reference to its clip region can. -/
theorem pictureElement_sound (r : Rect Float) (opacity : Option Float) {clip : Option String}
    {uri : String} (hclip : ∀ c, clip = some c → Plain c) (huri : Plain uri) :
    (pictureElement r opacity clip uri).Sound := by
  -- an opacity is written with the fewest digits
  have hopacity : ∀ v, opacity.map Decimal.Shortest.text = some v → Plain v := by
    intro v hv
    obtain ⟨o, _, rfl⟩ := Option.map_eq_some_iff.1 hv
    exact plain_shortest o
  unfold pictureElement
  refine .set (.set (.setSome (.setSome (.setFloat (.setFloat (.setFloat (.setFloat
    (.named ?_) ?_ _) ?_ _) ?_ _) ?_ _) ?_ hopacity) ?_ hclip) ?_ ?_) ?_ huri
  all_goals decide

namespace State

/-! ### Shapes and areas -/

/-- The keys of the geometry of shapes. -/
def geometryKeys : List String := ["d", "x", "y", "width", "height", "cx", "cy", "rx", "ry"]

/-- The element of a shape has a name of its own for each sort of shape, and numbers or path data
for attributes. -/
theorem geometry_within (shape : Record.Shape) (s : State) :
    Markup.IsName (s.geometry shape).1 ∧
      Attribute.Within (s.geometry shape).2 geometryKeys := by
  have hbox (b : Box) : Attribute.Within (s.boxAttributes b) ["x", "y", "width", "height"] :=
    .cons (plain_fixed _) (.cons (plain_fixed _) (.cons (plain_fixed _) (.single (plain_fixed _))
      (by decide)) (by decide)) (by decide)
  have hradii (r : Point Float) : Attribute.Within (radiiAttributes r) ["rx", "ry"] :=
    .cons (plain_fixed _) (.single (plain_fixed _)) (by decide)
  have hcenter (b : Box) : Attribute.Within (s.centerAttributes b) ["cx", "cy"] :=
    .cons (plain_fixed _) (.single (plain_fixed _)) (by decide)
  have hpath (o : Outline Float) : Attribute.Within [("d", o.data)] geometryKeys :=
    (Attribute.Within.single (plain_data o)).mono (by decide)
  unfold geometry
  split
  · exact ⟨(by decide : Markup.IsName "rect"), (hbox _).mono (by decide)⟩
  · exact ⟨(by decide : Markup.IsName "rect"),
      ((hbox _).append (hradii _) (by decide)).mono (by decide)⟩
  · exact ⟨(by decide : Markup.IsName "ellipse"),
      ((hcenter _).append (hradii _) (by decide)).mono (by decide)⟩
  · exact ⟨(by decide : Markup.IsName "path"), hpath _⟩

/-- A shape can be written in any state: in no context is there a pen, a brush or a clip region
that needs an escape. -/
theorem shapePiece_sound (shape : Record.Shape) (s : State) : (s.shapePiece shape).Sound := by
  obtain ⟨hname, hgeometry⟩ := s.geometry_within shape
  have hfill : Attribute.Within
      (if isFilled shape then s.context.fillAttributes else [("fill", "none")]) fillKeys := by
    split
    · exact s.context.fillAttributes_within
    · exact (Attribute.Within.single (by decide)).mono (by decide)
  refine .shape hname (Attribute.Within.sound (.append (.append (.append
    s.context.clipAttributes_within hgeometry ?_) (s.context.strokeAttributes_within s.page) ?_)
    hfill ?_) ?_)
  all_goals decide

/-- An area that is painted can be written if its paint can. -/
theorem areaPiece_sound {paint : String} (h : Plain paint) (b : Record.Blit) (s : State) :
    (s.areaPiece paint b).Sound := by
  have hstyle : Plain (fillStyle paint) :=
    ((by decide : Plain "fill:").append h).append (by decide)
  refine .shape (by decide) (Attribute.Within.sound (.append s.context.clipAttributes_within
    (.cons hstyle (.single (plain_data _)) ?_) ?_) ?_)
  all_goals decide

/-- The paint of an area is that of the brush, or black or white. -/
private theorem plain_areaPaint {operation : Nat} {b : Device.Brush} {paint : String}
    (h : areaPaint? operation b = some paint) : Plain paint := by
  unfold areaPaint? at h
  split at h
  · cases h
  · split at h
    · rw [← Option.some.inj h]
      exact plain_hex _
    · split at h
      · rw [← Option.some.inj h]
        exact plain_hex _
      · unfold brushArea? at h
        split at h
        · cases h
        · split at h
          · rw [← Option.some.inj h]
            exact Markup.Reference.plain_url (Markup.Reference.plain_pattern _)
          · rw [← Option.some.inj h]
            exact plain_hex _

/-- The pieces of an area are whole and can be written. -/
theorem blitPieces_sound (encode : Bitmap.Encoder) (b : Record.Blit) (s : State) :
    ∀ p ∈ s.blitPieces encode b, p.Sound ∧ p.isWhole = true := by
  intro p hp
  unfold blitPieces at hp
  split at hp
  · split at hp
    · simp at hp
    · rename_i paint hpaint
      rw [Array.mem_singleton.1 hp]
      exact ⟨s.areaPiece_sound (plain_areaPaint hpaint) b, rfl⟩
  · rename_i picture _
    rw [Array.mem_singleton.1 hp]
    exact ⟨.element (pictureElement_sound _ _ (fun _ hc => plain_clipReference hc)
      (plain_embed encode picture none)), rfl⟩

/-! ### Texts -/

/-- A font has plain attributes if the name of its family is plain. Nothing else in them is text
from the stream. -/
private theorem fontAttributes_within {s : State} (p : Point Float)
    (h : ∀ family, s.context.font.family = some family → Plain family) :
    Attribute.Within (s.fontAttributes p) ["font-family", "fill", "transform", "writing-mode",
      "font-style", "style", "text-decoration", "font-weight"] := by
  have hrotation : Attribute.Within (s.rotation p) ["transform"] := by
    unfold rotation
    split
    · exact Attribute.Within.nil.mono (by decide)
    · exact .single (((by decide : Plain "rotate(").append
        (plain_numbers (by decide) [s.textAngle, p.x, p.y])).append (by decide))
  unfold fontAttributes
  refine .append (.append (.append (.append (.append (.append (.append (.ofValue? h)
    (.single (plain_hex _)) ?_) hrotation ?_) (.onlyIf fun _ => ?_) ?_) (.onlyIf fun _ => ?_) ?_)
    (.single ?_) ?_) (Markup.Lettering.decoration_within _ _) ?_)
    (.onlyIf fun _ => plain_int _) ?_
  all_goals decide

/-- The element of a text can be written, if the name of its family is plain. -/
theorem labelPiece_sound {s : State} (origin : Point Int) (text : String)
    (h : ∀ family, s.context.font.family = some family → Plain family) :
    (s.labelPiece origin text).Sound := by
  have hanchor : Plain (anchor s.context.textAlign) := by
    unfold anchor
    split
    · decide
    · split <;> decide
  refine .label (Attribute.Within.sound (.append (.append (.append (fontAttributes_within _ h)
    (.cons hanchor (.cons (plain_fixed _) (.single (plain_fixed _)) ?_) ?_) ?_)
    (.onlyIf fun _ => plain_fixed _) ?_) s.context.clipAttributes_within ?_) ?_)
  all_goals decide

/-! ### Paths and groups -/

/-- The attributes with which the path of a bracket is painted. -/
theorem pathPaint_within (use : Record.PathUse) (s : State) :
    Attribute.Within (s.pathPaint use) (strokeKeys ++ fillKeys) := by
  have hstroke := s.context.strokeAttributes_within s.page
  have hfill := s.context.fillAttributes_within
  unfold pathPaint
  -- the parts that are left out are empty, so two parts remain in each case
  cases use.isStroked <;> cases use.isFilled
  · exact (Attribute.Within.cons (by decide) (.single (by decide)) (by decide)).mono (by decide)
  · show Attribute.Within ([] ++ s.context.fillAttributes ++ [] ++ [("stroke", "none")]) _
    rw [List.nil_append, List.append_nil]
    exact (hfill.append (.single (by decide)) (by decide)).mono (by decide)
  · show Attribute.Within (s.strokeAttributes ++ [] ++ [("fill", "none")] ++ []) _
    rw [List.append_nil, List.append_nil]
    exact (hstroke.append (.single (by decide)) (by decide)).mono (by decide)
  · show Attribute.Within (s.strokeAttributes ++ s.context.fillAttributes ++ [] ++ []) _
    rw [List.append_nil, List.append_nil]
    exact hstroke.append hfill (by decide)

/-- The piece of a bracket can be written with any paint whose keys are those of stroke and fill.
-/
theorem piece_sound {bracket : Bracket} {paint : List Attribute}
    (hclip : Attribute.Within bracket.clip ["clip-path"])
    (hpaint : Attribute.Within paint (strokeKeys ++ fillKeys)) : (bracket.piece paint).Sound := by
  refine .shape (by decide) (Attribute.Within.sound (.append (.append hclip
    (.single (plain_data _)) ?_) hpaint ?_) ?_)
  all_goals decide

/-- The path of a bracket can be written with the paint that the survey asks for. -/
theorem piece_pathPaint_sound {bracket : Bracket}
    (hclip : Attribute.Within bracket.clip ["clip-path"]) (use : Record.PathUse) (s : State) :
    (bracket.piece (s.pathPaint use)).Sound :=
  piece_sound hclip (s.pathPaint_within use)

/-- The path of a bracket can be written without paint. -/
theorem piece_unpainted_sound {bracket : Bracket}
    (hclip : Attribute.Within bracket.clip ["clip-path"]) : (bracket.piece unpainted).Sound :=
  piece_sound hclip
    ((Attribute.Within.cons (by decide) (.single (by decide)) (by decide)).mono (by decide))

/-- The group of the world transform has a matrix of numbers. -/
theorem wrapperPiece_sound (s : State) : s.wrapperPiece.Sound := by
  have hmatrix (a : Affine Float) : Plain (matrixText a) :=
    ((by decide : Plain "matrix(").append
      (plain_numbers (by decide) [a.m11, a.m12, a.m21, a.m22, a.dx, a.dy])).append (by decide)
  exact .opening (by decide) ((Attribute.Within.single (hmatrix _)).sound (by decide))

end State

/-- What begins a document is a declaration and the root, if the document has them, and the group
of the translation. -/
theorem forall_head {P : Piece → Prop} {o : Options} {h : Record.Header}
    (declaration : P .declaration) (root : P (.opening "svg" (rootAttributes o h)))
    (origin : P (originPiece o h)) :
    ∀ p ∈ (head o h).push (originPiece o h), P p := by
  intro p hp
  rcases Array.mem_push.1 hp with hp | rfl
  · unfold head at hp
    split at hp
    · simp only [List.mem_toArray, List.mem_cons, List.not_mem_nil, or_false] at hp
      rcases hp with rfl | rfl
      · exact declaration
      · exact root
    · simp at hp
  · exact origin

/-- The group that moves the bounds to the origin has two numbers. -/
theorem originPiece_sound (o : Options) (h : Record.Header) : (originPiece o h).Sound := by
  have htranslation (v w : Float) : Plain ("translate(" ++
      ", ".intercalate ([v, w].map Decimal.Fixed.text) ++ ")") :=
    ((by decide : Plain "translate(").append (plain_numbers (by decide) [v, w])).append
      (by decide)
  exact .opening (by decide) ((Attribute.Within.single (htranslation _ _)).sound (by decide))

/-- The namespace of the options is absent, or it is a name that stands for nothing else. -/
def Usable (o : Options) : Prop :=
  ∀ name, o.namespaceName = some name → Markup.IsName name ∧ name ≠ "xlink"

/-- Names of elements can be qualified by a usable namespace. -/
theorem Usable.qualifies {o : Options} (h : Usable o) : Markup.Qualifies o.qualifier := by
  unfold Options.qualifier
  cases hname : o.namespaceName with
  | none => exact Or.inl rfl
  | some name => exact Or.inr ((h name hname).1.append (by decide))

/-- The start tag of the root element can be written. -/
theorem rootAttributes_sound {o : Options} (h : Usable o) (header : Record.Header) :
    Attribute.Sound (rootAttributes o header) := by
  have hfirst : Attribute.Within [("version", "1.1"), ("xmlns", documentNamespace),
      ("xmlns:xlink", linkNamespace)] ["version", "xmlns", "xmlns:xlink"] :=
    .cons (by decide) (.cons (by decide) (.single (by decide)) (by decide)) (by decide)
  have hlast (v w : Float) : Attribute.Within [("width", Decimal.Fixed.text v),
      ("height", Decimal.Fixed.text w)] ["width", "height"] :=
    .cons (plain_fixed _) (.single (plain_fixed _)) (by decide)
  unfold rootAttributes
  cases hname : o.namespaceName with
  | none =>
      exact ((hfirst.append .nil (by decide)).append (hlast _ _) (by decide)).sound (by decide)
  | some name =>
      obtain ⟨hisName, hne⟩ := h name hname
      -- the key that declares the namespace is none of the others
      have hkey : ∀ k ∈ ["version", "xmlns", "xmlns:xlink", "width", "height"],
          k ≠ "xmlns:" ++ name := by
        intro k hk heq
        have hchars := congrArg String.toList heq
        rw [String.toList_append] at hchars
        simp only [List.mem_cons, List.not_mem_nil, or_false] at hk
        rcases hk with rfl | rfl | rfl | rfl | rfl
        · exact absurd hchars (by simp)
        · exact absurd hchars (by simp)
        · refine hne (String.toList_inj.1 ?_)
          simpa using hchars.symm
        · exact absurd hchars (by simp)
        · exact absurd hchars (by simp)
      have hdeclared : Attribute.Within [("xmlns:" ++ name, documentNamespace)]
          ["xmlns:" ++ name] := .single (by decide)
      refine ((hfirst.append hdeclared fun k hk => ?_).append (hlast _ _) fun k hk => ?_).sound
        fun k hk => ?_
      · rw [List.mem_singleton]
        exact hkey k (List.mem_append_left ["width", "height"] hk)
      · rcases List.mem_append.1 hk with hk | hk
        · exact (by decide :
            ∀ k ∈ ["version", "xmlns", "xmlns:xlink"], k ∉ ["width", "height"]) k hk
        · rw [List.mem_singleton.1 hk]
          exact fun hlast =>
            hkey _ (List.mem_append_right ["version", "xmlns", "xmlns:xlink"] hlast) rfl
      · rcases List.mem_append.1 hk with hk | hk
        · rcases List.mem_append.1 hk with hk | hk
          · exact (by decide : ∀ k ∈ ["version", "xmlns", "xmlns:xlink"], Markup.IsName k) k hk
          · rw [List.mem_singleton.1 hk]
            exact (by decide : Markup.IsName "xmlns:").append hisName
        · exact (by decide : ∀ k ∈ ["width", "height"], Markup.IsName k) k hk

/-- In a usable namespace the pieces that begin a document can be written. -/
theorem head_sound {o : Options} (h : Usable o) (header : Record.Header) :
    ∀ p ∈ (head o header).push (originPiece o header), p.Sound :=
  forall_head .declaration (.opening (by decide) (rootAttributes_sound h header))
    (originPiece_sound o header)

namespace State

/-- A piece that a command adds is whole and can be written, or it is a text in the font of the
context, or a piece of EMF+ records, or one of those that begin the document. -/
theorem Draws.cases {setup : Setup} {c : Command} {s : State} {p : Piece}
    (h : s.Draws setup c p) :
    p.Sound ∧ p.isWhole = true ∨
      (∃ origin text, c = .label origin text ∧ p = s.labelPiece origin text) ∨
      (∃ records, c = .plus records ∧ p ∈ (Plus.Stage.play setup.options.verbose s.page.scale
        records ⟨s.player, #[], #[]⟩).drawn) ∨
      ∃ header, c = .header header ∧
        p ∈ (head setup.options header).push (originPiece setup.options header) := by
  have hnone {q : Prop} (hp : p ∈ (#[] : Markup.Document)) : q := by simp at hp
  cases c with
  | header header => exact Or.inr (Or.inr (Or.inr ⟨header, rfl, h⟩))
  | draw shape =>
      obtain rfl : p = s.shapePiece shape := h
      exact Or.inl ⟨s.shapePiece_sound shape, rfl⟩
  | createPattern index picture twoColors =>
      obtain ⟨id, colors, width, height, rfl⟩ := h
      exact Or.inl ⟨patternDefinition_sound id width height (plain_embed _ _ _), rfl⟩
  | clip change =>
      obtain ⟨id, region, rfl⟩ := h
      exact Or.inl ⟨clipDefinition_sound id region, rfl⟩
  | blit area => exact Or.inl (s.blitPieces_sound setup.encode area p h)
  | label origin text => exact Or.inr (Or.inl ⟨origin, text, rfl, Array.mem_singleton.1 h⟩)
  | plus records => exact Or.inr (Or.inr (Or.inl ⟨records, rfl, h⟩))
  | _ => exact hnone h

/-- The pieces that a command adds are whole and can be written. The header is left out, for it
begins the document. The name of the family of the font and the EMF+ records count as given. -/
theorem Draws.sound {setup : Setup} {c : Command} {s : State} {p : Piece}
    (h : s.Draws setup c p) (hheader : c.soleKind? ≠ some .header)
    (hfont : ∀ family, s.context.font.family = some family → Plain family)
    (hplus : ∀ records, c = .plus records → ∀ q ∈ (Plus.Stage.play setup.options.verbose
      s.page.scale records ⟨s.player, #[], #[]⟩).drawn, q.Sound ∧ q.isWhole = true) :
    p.Sound ∧ p.isWhole = true := by
  rcases h.cases with hsound | ⟨origin, text, rfl, rfl⟩ | ⟨records, rfl, hp⟩ | ⟨header, rfl, _⟩
  · exact hsound
  · exact ⟨labelPiece_sound origin text hfont, rfl⟩
  · exact hplus records rfl p hp
  · exact absurd rfl hheader

end State

end Playback

end Metafile
