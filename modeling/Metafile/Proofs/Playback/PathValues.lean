import Mathlib.Data.List.TakeWhile
import Metafile.Proofs.Markup.PathCommands
import Metafile.Proofs.Playback.Beginnings
import Metafile.Proofs.Playback.References
import Metafile.Proofs.Playback.Values

/-!
# `Metafile.Proofs.Playback.PathValues`: the path data of a document

Records write path data into shapes, into the paths of brackets and into the definitions of clip
regions. All of it is the data of an outline, so it can be read command by command. Whether it can
be drawn depends on how the outline begins. `State.Outlined` is the invariant for any property of
outlines that those which begin with a move have, and that clip regions keep (`Lasting`).

`play_path_data` gives the two answers. Path data always consists of complete commands, and what a
record draws on its own begins with a move. The path of a bracket does so exactly if the first of
its records that adds to it does, and with the paths the clip regions that are made from them.
`line_begins_path` is a stream with a bracket whose path begins with a line.
-/

set_option autoImplicit false

namespace Metafile

open Metafile.Outline (Begun)

namespace Markup

/-! ### Path data in pieces -/

/-- Path data stands in a piece. The pieces are shapes and definitions: texts and pictures have no
path data, and the paths of EMF+ records are elements of their own. -/
inductive Piece.HasPath (data : String) : Piece → Prop
  | shape {name : String} {attributes : List Attribute} (h : ("d", data) ∈ attributes) :
    HasPath data (.shape name attributes)
  | definition {e : Element} {tag : Tag} (hname : e.name = "defs") (htag : tag ∈ e.tags "")
    (h : ("d", data) ∈ tag.attributes) : HasPath data (.element e)

variable {F : Outline Float → Prop}

/-- All path data among some attributes is that of outlines with a property. -/
def Attribute.Outlined (F : Outline Float → Prop) (attributes : List Attribute) : Prop :=
  ∀ data, ("d", data) ∈ attributes → ∃ o, F o ∧ data = o.data

namespace Attribute.Outlined

variable {a b : List Attribute}

/-- Attributes that stand next to each other hold the path data of both. -/
theorem append (ha : Outlined F a) (hb : Outlined F b) : Outlined F (a ++ b) :=
  fun data h => (List.mem_append.1 h).elim (ha data) (hb data)

/-- Attributes with other keys hold no path data. -/
theorem of_within {keys : List String} (h : Attribute.Within a keys) (hkeys : "d" ∉ keys) :
    Outlined F a :=
  fun _ hmem => absurd (h.known _ hmem).1 hkeys

/-- The attribute with the data of an outline holds no other path data. -/
theorem data {o : Outline Float} (h : F o) : Outlined F [("d", o.data)] := by
  intro data hmem
  obtain ⟨_, rfl⟩ := Prod.mk.inj (List.mem_singleton.1 hmem)
  exact ⟨o, h, rfl⟩

end Attribute.Outlined

/-- All path data in a piece is that of outlines with a property. -/
def Piece.Outlined (F : Outline Float → Prop) (p : Piece) : Prop :=
  ∀ data, p.HasPath data → ∃ o, F o ∧ data = o.data

namespace Piece.Outlined

/-- A shape holds the path data of its attributes. -/
theorem shape {name : String} {attributes : List Attribute}
    (h : Attribute.Outlined F attributes) :
    (Piece.shape name attributes).Outlined F := by
  rintro data ⟨hmem⟩
  exact h data hmem

/-- The attributes of a definition hold what its tags do. -/
theorem definition {e : Element} (h : ∀ tag ∈ e.tags "", Attribute.Outlined F tag.attributes) :
    (Piece.element e).Outlined F := by
  intro data hpath
  cases hpath with
  | definition _ htag hmem => exact h _ htag data hmem

/-- No other element holds path data that counts. -/
theorem other {e : Element} (h : e.name ≠ "defs") : (Piece.element e).Outlined F := by
  intro data hpath
  cases hpath with
  | definition hname => exact absurd hname h

/-- A text holds no path data. -/
theorem label (attributes : List Attribute) (content : String) :
    (Piece.label attributes content).Outlined F := nofun

/-- The path data of outlines that begin with a move can be drawn. -/
theorem isPathData {p : Piece} (h : p.Outlined Begun) {data : String} (hpath : p.HasPath data) :
    IsPathData data := by
  obtain ⟨o, hbegun, rfl⟩ := h data hpath
  exact (Outline.isPathData_data_iff o).2 hbegun

end Piece.Outlined

end Markup

namespace Plus

/-- What EMF+ records draw has no path data of the other records. -/
theorem Player.drawing_outlined {p : Player} {scale : Float} {c : Command}
    {F : Outline Float → Prop} : ∀ piece ∈ p.drawing scale c, piece.Outlined F := by
  intro piece hpiece
  rcases drawing_path_or_label hpiece with ⟨e, hname, rfl⟩ | ⟨attributes, content, rfl⟩
  · exact .other (by rw [hname]; decide)
  · exact .label attributes content

end Plus

/-- A combiner makes no region that begins without a move, if it is given none. -/
def Clip.Combiner.KeepsBegun (combine : Clip.Combiner) : Prop :=
  ∀ (current : Option (Outline Float)) (incoming : Outline Float) (op : Clip.Operation),
    (∀ o, current = some o → Begun o) → Begun incoming → Begun (combine current incoming op)

/-- A combiner that takes the new region as it is makes none that begins otherwise. -/
theorem Clip.Combiner.replacing_keepsBegun : Clip.Combiner.replacing.KeepsBegun :=
  fun _ _ _ _ hincoming => hincoming

namespace Playback

open Metafile.Markup (Attribute Document Piece)
open Metafile.Record (Command Entry Kind PathUse Survey)

variable {F : Outline Float → Prop}

/-! ### Definitions -/

/-- The definition of a clip region holds the data of its outline and no other. -/
theorem clipDefinition_outlined (id : Nat) {region : Outline Float} (h : F region) :
    (clipDefinition id region).Outlined F := by
  refine .definition fun tag htag => ?_
  -- the tags one after the other: the groups with the name of the region, and its outline
  have htags : tag ∈ [(⟨.start, "defs", []⟩ : Markup.Tag),
      ⟨.start, "clipPath", [("id", Markup.Reference.clip id)]⟩,
      ⟨.single, "path", [("d", region.data)]⟩, ⟨.ending, "clipPath", []⟩,
      ⟨.ending, "defs", []⟩] := htag
  simp only [List.mem_cons, List.not_mem_nil, or_false] at htags
  rcases htags with rfl | rfl | rfl | rfl | rfl
  · exact fun _ hmem => absurd hmem List.not_mem_nil
  · exact fun _ hmem => by simp at hmem
  · exact .data h
  · exact fun _ hmem => absurd hmem List.not_mem_nil
  · exact fun _ hmem => absurd hmem List.not_mem_nil

/-- The definition of a picture has no path in it. -/
theorem patternDefinition_outlined (id : Nat) (uri : String) (width height : Float) :
    (patternDefinition id uri width height).Outlined F := by
  refine .definition fun tag htag data hmem => ?_
  change tag ∈ (patternDefinition id uri width height).tags "" at htag
  rw [tags_patternDefinition, imageAttributes, patternAttributes] at htag
  simp only [Markup.patternTags, List.mem_append, List.mem_cons, List.not_mem_nil, or_false,
    or_assoc] at htag
  rcases htag with rfl | rfl | rfl | rfl | rfl | rfl <;> simp at hmem

namespace State

variable {setup : Setup} {uses : List PathUse} {s t : State} {c : Command}

/-! ### What a command makes -/

/-- An outline that is placed on the page begins as before. -/
private theorem place_begun {o : Outline Float} (h : Begun o) : Begun (s.place o) := by
  unfold Begun place
  rwa [Outline.begins?_map]

/-- A shape that is drawn on its own begins with a move, wherever it has path data. -/
theorem shapePiece_outlined (hF : ∀ o, Begun o → F o) (shape : Record.Shape) (s : State) :
    (s.shapePiece shape).Outlined F := by
  have hgeometry : Attribute.Outlined F (s.geometry shape).2 := by
    unfold geometry
    split
    · exact fun _ hmem => by simp [boxAttributes, number] at hmem
    · exact fun _ hmem => by simp [boxAttributes, radiiAttributes, number] at hmem
    · exact fun _ hmem => by simp [centerAttributes, radiiAttributes, number] at hmem
    · exact .data (hF _ (place_begun (ownOutline_begun shape s)))
  refine .shape (.append (.append (.append
    (.of_within s.context.clipAttributes_within (by decide)) hgeometry)
    (.of_within (s.context.strokeAttributes_within s.page) (by decide))) ?_)
  split
  · exact .of_within s.context.fillAttributes_within (by decide)
  · exact fun _ hmem => by simp at hmem

/-- An area that a brush paints begins with a move at its first corner. A picture has no path
data. -/
theorem blitPieces_outlined (hF : ∀ o, Begun o → F o) (encode : Bitmap.Encoder) (b : Record.Blit)
    (s : State) : ∀ p ∈ s.blitPieces encode b, p.Outlined F := by
  intro p hp
  unfold blitPieces at hp
  split at hp
  · split at hp
    · simp at hp
    · rename_i paint _
      rw [Array.mem_singleton.1 hp]
      have hcorners : Begun (Outline.polygon (paintedCorners s.context.mapping s.page b.corner
        b.size)) := nofun
      exact .shape (.append (.of_within s.context.clipAttributes_within (by decide))
        (.append (a := [("style", fillStyle paint)]) (fun _ hmem => by simp at hmem)
          (.data (hF _ hcorners))))
  · rw [Array.mem_singleton.1 hp]
    exact .other (by simp [pictureElement, Markup.Element.setFloat])

/-- The path of a bracket, whatever it is painted with. -/
theorem piece_outlined {b : Bracket} {paint : List Attribute}
    (hclip : Attribute.Within b.clip ["clip-path"]) (hpath : F b.drawn.outline)
    (hpaint : paint = unpainted ∨ ∃ use, paint = s.pathPaint use) :
    (b.piece paint).Outlined F := by
  refine .shape (.append (.append (.of_within hclip (by decide)) (.data hpath)) ?_)
  rcases hpaint with rfl | ⟨use, rfl⟩
  · exact fun _ hmem => by simp [unpainted] at hmem
  · exact .of_within (s.pathPaint_within use) (by decide)

/-- What a command makes has path data of outlines with a property, if those that begin with a
move have it and the path of the open bracket has. The command does not change the clip region. -/
theorem Makes.outlined {p : Piece} (h : s.Makes setup c p) (hF : ∀ o, Begun o → F o)
    (hbracket : ∀ b, s.bracket = some b → Attribute.Within b.clip ["clip-path"])
    (hpath : F s.openPath)
    (hplus : ∀ records, c = .plus records → ∀ q ∈ (Plus.Stage.play setup.options.verbose
      s.page.scale records ⟨s.player, #[], #[]⟩).drawn, q.Outlined F)
    (hclip : ∀ change, c ≠ .clip change) : p.Outlined F := by
  have hnone {q : Prop} (hp : p ∈ (#[] : Document)) : q := by simp at hp
  cases h with
  | drawn hdraws =>
      cases c with
      | header header =>
          -- what begins a document are a declaration and start tags
          exact forall_head (P := (·.Outlined F)) nofun nofun nofun p hdraws
      | draw shape => exact (hdraws : p = s.shapePiece shape) ▸ shapePiece_outlined hF shape s
      | createPattern index picture fromContext =>
          obtain ⟨id, colors, width, height, rfl⟩ := hdraws
          exact patternDefinition_outlined id _ width height
      | clip change => exact absurd rfl (hclip change)
      | blit area => exact blitPieces_outlined hF setup.encode area s p hdraws
      | label origin text => exact Array.mem_singleton.1 hdraws ▸ .label _ _
      | plus records => exact hplus records rfl p hdraws
      | _ => exact hnone hdraws
  | @path b paint hb hpaint =>
      unfold openPath at hpath
      rw [hb] at hpath
      exact piece_outlined (hbracket b hb) hpath hpaint
  | group u => nofun
  | ending name => nofun

/-! ### Every piece -/

/-- A property of outlines that a clip region keeps when it is moved and when it is combined, and
that outlines which begin with a move have. -/
structure Lasting (combine : Clip.Combiner) (F : Outline Float → Prop) : Prop where
  begun : ∀ o, Begun o → F o
  shift : ∀ {o : Outline Float} (v : Point Float), F o → F (o.shift v)
  apply : ∀ {current : Option (Outline Float)} {incoming : Outline Float} (op : Clip.Operation),
    (∀ o, current = some o → F o) → F incoming → F (combine.apply current incoming op)

namespace Lasting

variable {combine : Clip.Combiner}

/-- Being an outline at all. -/
theorem any (combine : Clip.Combiner) : Lasting combine fun _ => True :=
  ⟨fun _ _ => trivial, fun _ _ => trivial, fun _ _ _ => trivial⟩

/-- Beginning with a move. The combiner gets the new region without its curves, and it begins as
it did with them. -/
theorem begins (h : combine.KeepsBegun) : Lasting combine Begun where
  begun _ ho := ho
  shift v ho := by
    unfold Begun Outline.shift
    rwa [Outline.begins?_map]
  apply op hcurrent hincoming := by
    refine h _ _ op hcurrent ?_
    unfold Begun
    rwa [Outline.begins?_flatten]

end Lasting

/-- All path data that is written and held back is that of outlines with a property, and so are
the clip regions of all contexts. -/
structure Outlined (F : Outline Float → Prop) (s : State) : Prop where
  written : ∀ p ∈ s.written, p.Outlined F
  held : ∀ p ∈ s.held, p.Outlined F
  regions : Stores (fun c => ∀ region, c.clip = some region → F region.outline) (fun _ => True) s

namespace Outlined

/-- Before the first record there is no path data. -/
theorem start (F : Outline Float → Prop) (survey : Survey) : Outlined F (State.start survey) where
  written p hp := by simp [State.start, State.initial] at hp
  held p hp := by simp [State.start, State.initial] at hp
  regions := ⟨nofun, fun c hc => absurd hc List.not_mem_nil, fun _ _ => trivial⟩

/-- A message holds no path data. -/
theorem of_log (h : Outlined F s) (log : Log) (failed : Bool) :
    Outlined F { s with log, failed } :=
  ⟨h.written, h.held, ⟨h.regions.context, h.regions.saved, h.regions.slots⟩⟩

/-- A clip region is set, and defined outside of a path. -/
theorem setClip (h : Outlined F s) {region : Outline Float} (hregion : F region) :
    Outlined F (s.setClip region) := by
  have hset (id : Nat) : ∀ r : Device.ClipRegion, some ⟨region, id⟩ = some r → F r.outline :=
    fun r hr => Option.some.inj hr ▸ hregion
  cases hopen : s.inPath with
  | true =>
      rw [setClip_of_open hopen]
      exact ⟨h.written, h.held, ⟨hset 0, h.regions.saved, h.regions.slots⟩⟩
  | false =>
      rw [setClip_of_closed hopen]
      refine ⟨fun p hp => ?_, h.held,
        ⟨hset (s.clips + 1), h.regions.saved, h.regions.slots⟩⟩
      rcases Array.mem_push.1 hp with hp | rfl
      · exact h.written p hp
      · exact clipDefinition_outlined _ hregion

/-- A change of the clip region combines it with boxes or with the trail. -/
theorem changeClip (h : Outlined F s) {combine : Clip.Combiner} (hF : Lasting combine F)
    (htrail : F s.trail.outline) (change : Record.ClipChange) :
    Outlined F (s.changeClip combine change) := by
  -- a region that is combined comes from two outlines with the property
  have hcombined {incoming : Outline Float} (op : Clip.Operation) (hincoming : F incoming) :
      Outlined F (s.combineClip combine incoming op) := by
    refine h.setClip (hF.apply op (fun o ho => ?_) hincoming)
    obtain ⟨region, hregion, rfl⟩ := Option.map_eq_some_iff.1 ho
    exact h.regions.context region hregion
  cases change with
  | box b op => exact hcombined op (hF.begun _ nofun)
  | path op => exact hcombined op htrail
  | shift v =>
      show Outlined F (s.shiftClip v)
      unfold shiftClip
      split
      · exact h
      · rename_i region hregion
        exact h.setClip (hF.shift _ (h.regions.context region hregion))
  | boxes bs op =>
      refine hcombined op (hF.begun _ ?_)
      cases bs <;> nofun
  | reset => exact ⟨h.written, h.held, ⟨nofun, h.regions.saved, h.regions.slots⟩⟩

/-- Every command keeps the property, if the open path and the trail have it. -/
theorem perform (h : Outlined F s) (setup : Setup) (uses : List PathUse)
    (hF : Lasting setup.combine F)
    (hbracket : ∀ b, s.bracket = some b → Attribute.Within b.clip ["clip-path"])
    (hpath : F s.openPath) (htrail : F s.trail.outline)
    (hplus : ∀ records, c = .plus records → ∀ q ∈ (Plus.Stage.play setup.options.verbose
      s.page.scale records ⟨s.player, #[], #[]⟩).drawn, q.Outlined F) :
    Outlined F (s.perform setup uses c).1 := by
  by_cases hclip : ∃ change, c = .clip change
  · obtain ⟨change, rfl⟩ := hclip
    exact h.changeClip hF htrail change
  have hnoClip (change : Record.ClipChange) : c ≠ .clip change := fun hc => hclip ⟨change, hc⟩
  have hmade (p : Piece) (hp : s.Makes setup c p) : p.Outlined F :=
    hp.outlined hF.begun hbracket hpath hplus hnoClip
  have hgains := perform_gains setup uses c s
  exact ⟨hgains.forall_written h.written h.held hmade,
    fun p hp => (hgains.held p hp).elim (h.held p) (hmade p),
    h.regions.perform_regions setup uses hnoClip⟩

end Outlined

end State

/-! ### Streams -/

namespace Reaches

variable {setup : Setup} {stream : Bytes} {survey : Survey} {earlier later : List Entry}
  {e : Entry} {t : State}

/-- The path data of what the EMF+ records of a comment draw is not that of other records. -/
theorem plus_outlined {c : Command} (h : Reaches setup stream survey earlier (e :: later) t) :
    ∀ records, c = .plus records → ∀ q ∈ (Plus.Stage.play setup.options.verbose t.page.scale
      records ⟨t.player, #[], #[]⟩).drawn, q.Outlined F := by
  rintro records rfl q hq
  obtain ⟨p, scale, c, hdrawing⟩ := h.plus_drawn hq
  exact Plus.Player.drawing_outlined q hdrawing

/-- A record keeps the property of path data, also where it cannot be done. -/
theorem next_outlined (h : Reaches setup stream survey earlier (e :: later) t)
    (houtlined : t.Outlined F) (hF : State.Lasting setup.combine F) (hpath : F t.openPath)
    (htrail : F t.trail.outline) : (t.next setup survey.paths e).1.Outlined F := by
  obtain ⟨log, hlog⟩ := State.announce_eq setup e t
  have hlisted : State.Outlined F { t with log } := houtlined.of_log log t.failed
  rw [State.next, State.step_eq, hlog]
  cases e.command setup.options.plus with
  | error cause => exact hlisted
  | ok c =>
      exact hlisted.perform setup survey.paths hF h.confined.clip hpath htrail h.plus_outlined

end Reaches

/-- A property of outlines that the open path and the trail have at every boundary is one of all
path data, whether the playing is complete or cut short. -/
theorem play_outlined {setup : Setup} {stream : Bytes} {survey : Survey}
    (h : Survey.ofBytes stream = .ok survey) (hF : State.Lasting setup.combine F)
    (hopen : ∀ earlier later t, Reaches setup stream survey earlier later t →
      F t.openPath ∧ F t.trail.outline) : (play setup survey).Outlined F := by
  refine play_of_next h (.start F survey) (fun hreaches houtlined => ?_) fun _ hstopped =>
    hstopped.of_log _ _
  obtain ⟨hpath, htrail⟩ := hopen _ _ _ hreaches
  exact hreaches.next_outlined houtlined hF hpath htrail

/-! ### Brackets -/

/-- The path data of a bracket stands in its piece. -/
theorem Bracket.piece_hasPath (b : Bracket) (paint : List Attribute) :
    (b.piece paint).HasPath b.drawn.outline.data :=
  .shape (List.mem_append_left _ (List.mem_append_right _ (List.mem_singleton_self _)))

namespace Reaches

variable {setup : Setup} {stream : Bytes} {survey : Survey} {earlier later : List Entry}
  {e : Entry} {t : State}

/-- The path of a bracket that was closed is written, and it begins as the first record of the
bracket that added to it. -/
theorem bracket_written {opened inside after : List Entry} {b : Entry}
    (h : Reaches setup stream survey earlier later t)
    (hsplit : earlier = opened ++ b :: inside ++ e :: after)
    (hbegin : b.kind? = some .beginPath) (hkeeps : ∀ x ∈ inside, State.closesPath x = false)
    (hcloses : State.closesPath e = true) :
    ∃ (bracket : Bracket) (paint : List Attribute), bracket.piece paint ∈ t.written ∧
      bracket.drawn.outline.begins? = inside.findSome? (Entry.begins? setup.options.plus) := by
  subst hsplit
  -- the states before the bracket, after its first record and before its last one
  obtain ⟨s, hs, hlast⟩ := h.cut
  obtain ⟨r, hr, hbracket⟩ := hs.cut
  obtain ⟨q, hfirst, hinside⟩ :=
    State.steps_split (show r.steps setup survey.paths ([b] ++ inside) = (s, none) from hbracket)
  obtain ⟨hopened, hempty⟩ := State.next_of_begin hbegin (State.steps_singleton.1 hfirst)
  obtain ⟨hopen, hbegins⟩ := State.steps_begins? hopened hkeeps hinside
  obtain ⟨bracket, hsome⟩ := Option.isSome_iff_exists.1 hopen
  obtain ⟨hne, huse⟩ := hs.use_of_end hopen
  obtain ⟨u, paint, more, hnext, _, hwritten, _⟩ :=
    State.closes hsome hcloses hs.use_of_begin hne huse
  refine ⟨bracket, paint, ?_, ?_⟩
  · obtain ⟨v, hv, hafter⟩ :=
      State.steps_split (show s.steps setup survey.paths ([e] ++ after) = (t, none) from hlast)
    obtain rfl : u = v := congrArg Prod.fst (hnext.symm.trans (State.steps_singleton.1 hv))
    refine State.mem_written_of_steps hafter ?_
    rw [hwritten]
    exact Array.mem_append_left _ (Array.mem_append_left _ Array.mem_push_self)
  · rw [hempty, State.openPath, hsome] at hbegins
    exact hbegins

/-- Every bracket is closed by some record, the last one if no other. -/
theorem bracket_closes {opened : List Entry} {b : Entry}
    (h : Reaches setup stream survey survey.entries [] t)
    (hsplit : survey.entries = opened ++ b :: later) (hbegin : b.kind? = some .beginPath) :
    ∃ e after, later = bracketRecords later ++ e :: after ∧ State.closesPath e = true := by
  -- the end of the stream closes every bracket
  have hrest : later.dropWhile (fun e => !State.closesPath e) ≠ [] := by
    intro hnone
    rcases List.eq_nil_or_concat later with rfl | ⟨front, last, rfl⟩
    · rw [(Survey.end_last h.accepted hsplit).2.2 rfl] at hbegin
      cases hbegin
    · rw [List.concat_eq_append] at hsplit hnone
      have hend := (Survey.end_last h.accepted
        (show survey.entries = (opened ++ b :: front) ++ last :: [] by simp [hsplit])).2.2 rfl
      have hkeeps := List.dropWhile_eq_nil_iff.1 hnone last (by simp)
      simp [State.closesPath, hend] at hkeeps
  obtain ⟨e, after, hdrop⟩ := List.exists_cons_of_ne_nil hrest
  refine ⟨e, after, ?_, ?_⟩
  · rw [← hdrop]
    exact List.takeWhile_append_dropWhile.symm
  · have hfirst := List.head?_dropWhile_not (fun e => !State.closesPath e) later
    rw [hdrop] at hfirst
    simpa using hfirst

/-! ### Path data -/

/-- What a record draws on its own begins with a move, unless it changes the clip region. -/
theorem next_begun (h : Reaches setup stream survey earlier (e :: later) t)
    (hclosed : t.inPath = false)
    (hclip : ∀ change, e.command setup.options.plus ≠ .ok (.clip change)) :
    ∀ p ∈ (t.next setup survey.paths e).1.written, p ∈ t.written ∨ p.Outlined Begun := by
  intro p hp
  have hbracket := State.bracket_of_closed hclosed
  obtain ⟨log, hlog⟩ := State.announce_eq setup e t
  rw [State.next, State.step_eq, hlog] at hp
  split at hp
  · rename_i c hc
    obtain ⟨more, hwritten, hmore⟩ :=
      (State.perform_gains setup survey.paths c { t with log }).written
    rw [hwritten] at hp
    rcases Array.mem_append.1 hp with hp | hp
    · exact .inl hp
    · -- nothing was held back before, so the command makes what is new
      have hmade := (hmore p hp).resolve_left fun hheld => by
        rw [show ({ t with log } : State).held = #[] from h.held_empty hclosed] at hheld
        simp at hheld
      refine .inr (hmade.outlined (fun _ ho => ho) (fun b hb => ?_) ?_ h.plus_outlined
        fun change heq => hclip change (hc.trans (congrArg _ heq)))
      · cases hbracket.symm.trans hb
      · unfold State.openPath
        rw [show ({ t with log } : State).bracket = none from hbracket]
        exact Outline.begun_nil
  · exact .inl hp

/-- If all path data of a complete document can be drawn, then every bracket has begun with a
move. -/
theorem begunPaths (h : Reaches setup stream survey survey.entries [] t)
    (hall : ∀ p ∈ t.written, ∀ data, p.HasPath data → IsPathData data) :
    BegunPaths setup.options.plus survey.entries := by
  rintro b later ⟨opened, hsplit⟩ hbegin
  obtain ⟨e, after, hlater, hcloses⟩ := h.bracket_closes hsplit.symm hbegin
  have hentries : survey.entries = opened ++ b :: bracketRecords later ++ e :: after := by
    rw [← hsplit, List.append_assoc, List.cons_append, ← hlater]
  obtain ⟨bracket, paint, hwritten, hbegins⟩ := h.bracket_written hentries hbegin
    (fun x hx => by simpa using List.mem_takeWhile_imp hx) hcloses
  rw [← hbegins]
  exact (Outline.isPathData_data_iff _).1 (hall _ hwritten _ (bracket.piece_hasPath paint))

end Reaches

/-- All path data in the document of an accepted stream, complete or cut short, consists of
complete commands, and what a record draws on its own begins with a move. If in every bracket the
first record that adds to the path begins with a move, and clip regions are combined into such,
then all path data is empty or begins with a move. In a complete document that is the only way. -/
theorem play_path_data (setup : Setup) {stream : Bytes} {survey : Survey}
    (h : Survey.ofBytes stream = .ok survey) :
    (∀ p ∈ (play setup survey).written, ∀ data, p.HasPath data →
      ∃ letters, pathCommands? data = some letters) ∧
    (∀ earlier e later s, Reaches setup stream survey earlier (e :: later) s → s.inPath = false →
      (∀ change, e.command setup.options.plus ≠ .ok (.clip change)) →
      ∀ p ∈ (s.next setup survey.paths e).1.written, p ∈ s.written ∨
        ∀ data, p.HasPath data → IsPathData data) ∧
    (setup.combine.KeepsBegun → BegunPaths setup.options.plus survey.entries →
      ∀ p ∈ (play setup survey).written, ∀ data, p.HasPath data → IsPathData data) ∧
    ∀ t, Reaches setup stream survey survey.entries [] t →
      (∀ p ∈ t.written, ∀ data, p.HasPath data → IsPathData data) →
      BegunPaths setup.options.plus survey.entries := by
  refine ⟨fun p hp data hpath => ?_, fun earlier e later s hs hclosed hclip p hp => ?_,
    fun hcombine hpaths p hp data => ?_, fun t ht => ht.begunPaths⟩
  · -- every path that is written is the data of some outline
    have houtlined := play_outlined h (.any setup.combine) fun _ _ _ _ => ⟨trivial, trivial⟩
    obtain ⟨o, _, rfl⟩ := houtlined.written p hp data hpath
    exact ⟨o.letters, o.pathCommands?_data⟩
  · exact (hs.next_begun hclosed hclip p hp).imp_right fun hbegun _ => hbegun.isPathData
  · -- paths that begin with a move are made of regions and trails that do
    have houtlined := play_outlined h (.begins hcombine) fun _ _ _ hreaches =>
      ⟨hreaches.openPath_begun hpaths, hreaches.trail_begun hpaths⟩
    exact (houtlined.written p hp).isPathData

/-- The path that is stroked and selected as clip region begins with a move, and so does all path
data of the document: that of the path and that of the region. -/
theorem play_path_data_clipped :
    ∃ survey, Survey.ofBytes clippedStream = .ok survey ∧
      (Document.figures (play .plain survey).written).length = 1 ∧
      (play .plain survey).clips = 1 ∧
      ∀ p ∈ (play .plain survey).written, ∀ data, p.HasPath data → IsPathData data := by
  have haccepted := Survey.ofBytes_ofStream
    (by decide +kernel : (Survey.ofBytes clippedStream).isOk = true)
  have hpaths : BegunPaths Setup.plain.options.plus (Survey.ofStream clippedStream).entries := by
    decide +kernel
  exact ⟨_, haccepted, by decide +kernel, by decide +kernel,
    (play_path_data .plain haccepted).2.2.1 Clip.Combiner.replacing_keepsBegun hpaths⟩

/-- A bracket whose only record draws a line to a point, and the path is stroked. -/
def lineFirstStream : Bytes :=
  Record.streamOf [(.header, List.replicate 80 0), (.beginPath, []),
    (.lineTo, List.replicate 8 1), (.endPath, []), (.strokePath, List.replicate 16 0),
    (.endOfFile, List.replicate 12 0)]

/-- All records are played, and the path data of the bracket is written. It is not empty, and it
does not begin with a move. -/
theorem line_begins_path :
    ∃ survey t p data, Reaches .plain lineFirstStream survey survey.entries [] t ∧
      p ∈ t.written ∧ p.HasPath data ∧ data ≠ "" ∧ ¬IsPathData data := by
  have h : Reaches .plain lineFirstStream _ ((Survey.ofStream lineFirstStream).entries.take 6)
      ((Survey.ofStream lineFirstStream).entries.drop 6) _ :=
    .of_steps 6 (by decide +kernel) (by decide +kernel)
  rw [show (Survey.ofStream lineFirstStream).entries.take 6 =
    (Survey.ofStream lineFirstStream).entries by decide +kernel,
    show (Survey.ofStream lineFirstStream).entries.drop 6 = [] by decide +kernel] at h
  have hentries : (Survey.ofStream lineFirstStream).entries =
      (Survey.ofStream lineFirstStream).entries.take 1 ++ ⟨88, 59, Kind.beginPath.record []⟩ ::
        [⟨96, 54, Kind.lineTo.record (List.replicate 8 1)⟩] ++
        ⟨112, 60, Kind.endPath.record []⟩ ::
          (Survey.ofStream lineFirstStream).entries.drop 4 := by
    decide +kernel
  obtain ⟨bracket, paint, hwritten, hbegins⟩ :=
    h.bracket_written hentries (by decide) (by decide) (by decide)
  have hline : bracket.drawn.outline.begins? = some false := hbegins.trans (by decide +kernel)
  refine ⟨_, _, _, _, h, hwritten, bracket.piece_hasPath paint, fun hempty => ?_,
    fun hvalid => ?_⟩
  · rw [(Outline.data_eq_empty_iff _).1 hempty] at hline
    cases hline
  · exact (Outline.isPathData_data_iff _).1 hvalid hline

end Playback

end Metafile
