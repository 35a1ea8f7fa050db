import Mathlib.Data.List.Nodup
import Mathlib.Data.List.Pairwise
import Metafile.Proofs.Playback.References

/-!
# `Metafile.Proofs.Playback.Patterns`: the pictures that brushes repeat

A brush that is made from a picture refers to the definition of the picture. If the library knows
the picture, nothing is written and the brush gets the number that is there. `Documented` is the
invariant of the library: each of its pictures was introduced by one record (`Introduced`), and
the definition that this record asked for is in the document.

The library knows a picture by the bytes of the record. What the picture is shown as depends in
addition on the kind of the record and on the colours of the context. So a brush refers to a
definition of the right size, but the definition shows the picture as the first record asked for
it. `Reaches.pattern_of_first` states which definition that is, and that it is the one which the
record of the brush asks for exactly if both show the picture in the same way.
-/

set_option autoImplicit false

namespace Metafile

open Metafile.Bitmap (Picture)
open Metafile.Markup (Document Piece definitions)
open Metafile.Record (Command Entry PathUse Survey)

/-! ### Definitions are known from their names -/

/-- Two pieces of a document that name the same element are the same piece. -/
theorem Markup.Catalogued.eq_of_mem {qualifier : String} {clips images : Nat}
    {document : Document} {p q : Piece} {name : String × String}
    (h : Catalogued qualifier clips images (Document.tags qualifier document))
    (hp : p ∈ document) (hq : q ∈ document)
    (hnamed : name ∈ definitions (p.tags qualifier))
    (hnamed' : name ∈ definitions (q.tags qualifier)) : p = q := by
  have hnodup : (definitions (Document.tags qualifier document)).Nodup :=
    h.referenced.distinct.of_map Prod.snd
  unfold definitions Document.tags at hnodup
  rw [List.flatMap_assoc, List.nodup_flatMap] at hnodup
  have hsymm : Std.Symm (Function.onFun List.Disjoint fun piece : Piece =>
      (piece.tags qualifier).flatMap Markup.Tag.definitions) :=
    ⟨fun _ _ hne a ha ha' => hne ha' ha⟩
  by_contra hne
  exact hnodup.2.forall (Array.mem_toList_iff.2 hp) (Array.mem_toList_iff.2 hq) hne hnamed hnamed'

namespace Playback

/-- The definition of a picture names the picture. -/
theorem image_mem_definitions (qualifier : String) (id : Nat) (uri : String)
    (width height : Float) : (qualifier ++ "image", Markup.Reference.image id) ∈
      definitions ((patternDefinition id uri width height).tags qualifier) :=
  List.mem_cons_self

/-- A document with the definition of a picture has the tag of the picture. -/
theorem imageTag_mem (qualifier : String) {document : Document} {id : Nat} {uri : String}
    {width height : Float} (h : patternDefinition id uri width height ∈ document) :
    ⟨.single, qualifier ++ "image", imageAttributes id uri width height⟩ ∈
      Document.tags qualifier document :=
  List.mem_flatMap.2 ⟨_, Array.mem_toList_iff.2 h, List.mem_cons_of_mem _ List.mem_cons_self⟩

/-- What the definition of a picture shows is known from the definition. -/
theorem patternDefinition_inj {id : Nat} {uri uri' : String} {width height : Float}
    (h : patternDefinition id uri width height = patternDefinition id uri' width height) :
    uri = uri' := by
  have htags := congrArg (Piece.tags "") h
  rw [tags_patternDefinition, tags_patternDefinition] at htags
  simpa [imageAttributes] using htags

namespace State

variable {s : State}

/-- The definition of a picture under a number, if it is shown as a data URI says. The size is
that of the picture on the page. -/
def definitionOf (id : Nat) (uri : String) (picture : Picture) (s : State) : Piece :=
  patternDefinition id uri (Float.ofNat picture.extent.1 * s.page.scale)
    (Float.ofNat picture.extent.2 * s.page.scale)

/-- The colours of a picture have no effect on the size of its definition. -/
theorem patternPiece_eq (encode : Bitmap.Encoder) (picture : Picture) (fromContext : Bool)
    (id : Nat) (s : State) : s.patternPiece encode picture fromContext id =
      s.definitionOf id (s.embedded encode picture fromContext).uri picture := by
  unfold definitionOf
  rw [← Picture.embed_extent encode picture
    (if fromContext then some (twoColors s.context) else none)]
  rfl

/-- The size of a definition depends on the page, which no command but the header changes. -/
theorem definitionOf_perform (setup : Setup) (uses : List PathUse) {c : Command} (s : State)
    (hheader : ∀ header, c ≠ .header header) (id : Nat) (uri : String) (picture : Picture) :
    (s.perform setup uses c).1.definitionOf id uri picture = s.definitionOf id uri picture := by
  have hpage : (s.perform setup uses c).1.page = s.page :=
    congrArg Prod.fst (perform_declared setup uses s hheader)
  unfold definitionOf
  rw [hpage]

/-- The number of the picture that the brush in a slot repeats. -/
def patternAt? (index : Nat) (s : State) : Option Nat :=
  match s.objects.get index with
  | .ok (some (.brush b)) => some b.pattern
  | _ => none

/-- A tool comes into every slot that exists. -/
theorem put_of_le {index : Nat} (tool : Device.Tool) (hslots : 0 < s.objects.slots.size)
    (hindex : index ≤ s.objects.size) : ∃ objects, s.put index tool = ({ s with objects }, none) ∧
      objects.get index = .ok (some tool) := by
  obtain ⟨objects, hset⟩ := Device.ObjectTable.set_of_le hindex (some tool)
  unfold put
  rw [hset]
  exact ⟨objects, rfl, Device.ObjectTable.get_set _ _ _ _ hslots hset⟩

/-- Outside of a path, a brush of a picture comes into every slot that exists. It has the number
under which the library knows the picture, or that of the definition which is written. -/
theorem createPattern_of_closed (encode : Bitmap.Encoder) {index : Nat} (picture : Picture)
    (fromContext : Bool) (hclosed : s.inPath = false) (hslots : 0 < s.objects.slots.size)
    (hindex : index ≤ s.objects.size) :
    ∃ u id, s.createPattern encode index picture fromContext = (u, none) ∧
      u.patternAt? index = some id ∧
      (s.images.find? picture = some id ∨
        s.images.find? picture = none ∧ id = s.images.size + 1 ∧
          s.patternPiece encode picture fromContext id ∈ u.written) := by
  -- there is a slot for the brush, so it is put there with the number of its pattern
  have hstored {t : State} {id : Nat} (hmade : s.patternOf encode picture fromContext = (t, id))
      (hobjects : t.objects = s.objects) : ∃ u,
        s.createPattern encode index picture fromContext = (u, none) ∧
        u.patternAt? index = some id ∧ u.written = t.written := by
    unfold createPattern
    rw [hmade]
    obtain ⟨objects, hput, hget⟩ := put_of_le
      (s := t.note .debug s!"pattern brush {index} -> img-{id}")
      (.brush ⟨Device.Brush.patternStyle, t.context.brush.color, 0, id⟩)
      (hobjects ▸ hslots) (hobjects ▸ hindex)
    refine ⟨_, hput, ?_, rfl⟩
    unfold patternAt?
    dsimp only
    rw [hget]
  rcases patternOf_cases encode picture fromContext s with
    ⟨hopen, _⟩ | ⟨_, id, hknown, heq⟩ | ⟨_, hunknown, log, heq⟩
  · exact absurd (hclosed.symm.trans hopen) Bool.false_ne_true
  · obtain ⟨u, hmade, hat, _⟩ := hstored heq rfl
    exact ⟨u, id, hmade, hat, Or.inl hknown⟩
  · obtain ⟨u, hmade, hat, hwritten⟩ := hstored heq rfl
    exact ⟨u, _, hmade, hat, Or.inr ⟨hunknown, rfl, hwritten ▸ Array.mem_push_self⟩⟩

end State

/-! ### The library -/

/-- One of some records introduced a picture under a number: it is the first record outside of a
path whose brush repeats the picture. The data URI is what the picture was shown as then. -/
def Introduced (setup : Setup) (stream : Bytes) (survey : Survey) (records later : List Entry)
    (picture : Picture) (id : Nat) (uri : String) : Prop :=
  ∃ before first after s index fromContext, records = before ++ first :: after ∧
    Reaches setup stream survey before (first :: (after ++ later)) s ∧
    first.command setup.options.plus = .ok (.createPattern index picture fromContext) ∧
    s.inPath = false ∧ s.images.find? picture = none ∧ id = s.images.size + 1 ∧
    uri = (s.embedded setup.encode picture fromContext).uri

/-- Every picture of the library was introduced by a record under the number of its place, and its
definition is written. -/
def Documented (setup : Setup) (stream : Bytes) (survey : Survey) (records later : List Entry)
    (t : State) : Prop :=
  ∀ i picture, t.images[i]? = some picture → ∃ uri,
    Introduced setup stream survey records later picture (i + 1) uri ∧
      t.definitionOf (i + 1) uri picture ∈ t.written

section

variable {setup : Setup} {stream : Bytes} {survey : Survey} {earlier later : List Entry}
  {e : Entry} {c : Command} {s t : State}

/-- A picture that was introduced stays so. -/
theorem Introduced.concat {picture : Picture} {id : Nat} {uri : String}
    (h : Introduced setup stream survey earlier (e :: later) picture id uri) :
    Introduced setup stream survey (earlier ++ [e]) later picture id uri := by
  obtain ⟨before, first, after, s, index, fromContext, rfl, hreaches, hrest⟩ := h
  refine ⟨before, first, after ++ [e], s, index, fromContext, by simp, ?_, hrest⟩
  rwa [List.append_assoc]

/-- A command keeps the definitions of the known pictures, and a picture that it makes known is
introduced by its record. -/
theorem Documented.next (h : Documented setup stream survey earlier (e :: later) s)
    (hs : Reaches setup stream survey earlier (e :: later) s)
    (hc : e.command setup.options.plus = .ok c)
    (hperform : (s.announce setup e).perform setup survey.paths c = (t, none)) :
    Documented setup stream survey (earlier ++ [e]) later t := by
  have hnext := (State.next_of_command hc).trans hperform
  obtain ⟨log, hlog⟩ := State.announce_eq setup e s
  rw [hlog] at hperform
  have himages := State.perform_images setup survey.paths c { s with log }
  have hdefinition := State.definitionOf_perform setup survey.paths (c := c) { s with log }
  rw [hperform] at himages hdefinition
  have hknown {i : Nat} {picture : Picture} (hi : s.images[i]? = some picture) : ∃ uri,
      Introduced setup stream survey (earlier ++ [e]) later picture (i + 1) uri ∧
        t.definitionOf (i + 1) uri picture ∈ t.written := by
    obtain ⟨uri, hintroduced, hdefined⟩ := h i picture hi
    -- the record that introduced it stands before this one, so this one is not the header
    have hheader (header : Record.Header) : c ≠ .header header := by
      rintro rfl
      obtain rfl := (hs.header_iff hc).1 rfl
      obtain ⟨before, first, after, _, _, _, hsplit, _⟩ := hintroduced
      simp at hsplit
    refine ⟨uri, hintroduced.concat, ?_⟩
    rw [hdefinition hheader]
    exact State.mem_written_of_next hnext hdefined
  intro i picture hi
  rcases himages with himages |
    ⟨index, added, fromContext, rfl, hclosed, hunknown, himages, hdefined⟩
  · exact hknown (himages ▸ hi)
  · rw [himages, Array.getElem?_push] at hi
    split at hi
    · rename_i hlast
      obtain rfl : i = s.images.size := hlast
      obtain rfl := Option.some.inj hi
      rw [State.patternPiece_eq] at hdefined
      refine ⟨_, ⟨earlier, e, [], s, index, fromContext, rfl, hs, hc, hclosed, hunknown, rfl,
        rfl⟩, ?_⟩
      rw [hdefinition fun header hc => by cases hc]
      exact hdefined
    · exact hknown hi

end

namespace Reaches

variable {setup : Setup} {stream : Bytes} {survey : Survey} {earlier later : List Entry}
  {e : Entry} {c : Command} {t : State}

/-- At every boundary the pictures of the library are documented. -/
theorem documented (h : Reaches setup stream survey earlier later t) :
    Documented setup stream survey earlier later t := by
  refine h.induction (motive := Documented setup stream survey) (fun i picture hi => ?_) ?_
  · simp [State.start, State.initial] at hi
  · intro earlier e later s t c hs ih hc hperform
    exact ih.next hs hc hperform

/-- After the header there are slots. -/
theorem slots_pos (h : Reaches setup stream survey earlier later t) (hearlier : earlier ≠ []) :
    0 < t.objects.slots.size := by
  revert hearlier
  -- the first record makes the slots, and no other one changes their number
  refine h.induction (motive := fun earlier _ t => earlier ≠ [] → 0 < t.objects.slots.size)
    (fun hnone => absurd rfl hnone) ?_
  intro earlier e later s t c hs ih hc hperform _
  obtain ⟨log, hlog⟩ := State.announce_eq setup e s
  rw [hlog] at hperform
  by_cases hheader : ∃ header, c = .header header
  · obtain ⟨header, rfl⟩ := hheader
    obtain ⟨written, held, log', heq⟩ :=
      State.beginDocument_eq setup.options header { s with log }
    have hslots : t.objects = .ofHandles header.handles :=
      (congrArg State.objects ((congrArg Prod.fst hperform).symm.trans heq)).trans rfl
    rw [hslots, Device.ObjectTable.ofHandles, Array.size_replicate]
    exact Nat.succ_pos _
  · have hdeclared := State.perform_declared setup survey.paths { s with log }
      fun header hc => hheader ⟨header, hc⟩
    rw [hperform] at hdeclared
    have hsize : t.objects.slots.size = s.objects.slots.size := congrArg Prod.snd hdeclared
    rw [hsize]
    refine ih fun hnone => hheader ?_
    have hkind := (hs.header_iff hc).2 hnone
    cases c with
    | header header => exact ⟨header, rfl⟩
    | _ => cases hkind

/-- A record that makes a brush of a picture outside of a path puts it into every slot that
exists, and the brush has the number of a definition that is written. The definition has the size
that the record asks for, and it shows the picture as the record asked that introduced it. So it
is the definition that the record itself asks for if and only if both show the picture in the same
way, and it is if the picture was unknown before. -/
theorem pattern_of_first (h : Reaches setup stream survey earlier (e :: later) t)
    (hclosed : t.inPath = false) (fromContext : Bool)
    (hkind : e.kind? = some (if fromContext then .createMonoBrush else .createPatternBrush))
    (hcommand : e.command setup.options.plus = .ok c) :
    ∃ index picture, c = .createPattern index picture fromContext ∧
      (index ≤ t.objects.size → ∃ u id uri, t.next setup survey.paths e = (u, none) ∧
        u.patternAt? index = some id ∧
        Introduced setup stream survey (earlier ++ [e]) later picture id uri ∧
        t.definitionOf id uri picture ∈ u.written ∧
        (t.patternPiece setup.encode picture fromContext id ∈ u.written ↔
          uri = (t.embedded setup.encode picture fromContext).uri) ∧
        (t.images.find? picture = none →
          uri = (t.embedded setup.encode picture fromContext).uri)) := by
  obtain ⟨index, picture, rfl⟩ := Record.Entry.command_of_pattern hkind hcommand
  refine ⟨index, picture, rfl, fun hindex => ?_⟩
  -- the slots are there, since the header came before
  have hearlier : earlier ≠ [] := fun hnone => by
    have hheader := (h.header_iff hcommand).2 hnone
    simp [Command.soleKind?] at hheader
  obtain ⟨log, hlog⟩ := State.announce_eq setup e t
  obtain ⟨u, id, hmade, hat, hid⟩ := State.createPattern_of_closed (s := { t with log })
    setup.encode picture fromContext hclosed (h.slots_pos hearlier) hindex
  have hnext : t.next setup survey.paths e = (u, none) := by
    rw [State.next_of_command hcommand, hlog]
    exact hmade
  have hfirst : ∃ uri, Introduced setup stream survey (earlier ++ [e]) later picture id uri ∧
      t.definitionOf id uri picture ∈ u.written ∧
      (t.images.find? picture = none →
        uri = (t.embedded setup.encode picture fromContext).uri) := by
    -- the picture is known from an earlier record, or it is defined by this one
    rcases hid with hknown | ⟨hunknown, rfl, hdefined⟩
    · obtain ⟨hpositive, _, hplace⟩ := Device.ImageLibrary.find?_eq_some hknown
      obtain ⟨uri, hintroduced, hdefined⟩ := h.documented (id - 1) picture hplace
      rw [Nat.sub_add_cancel hpositive] at hintroduced hdefined
      exact ⟨uri, hintroduced.concat, State.mem_written_of_next hnext hdefined,
        fun hunknown => absurd (hknown.symm.trans hunknown) (Option.some_ne_none id)⟩
    · rw [State.patternPiece_eq] at hdefined
      exact ⟨_, ⟨earlier, e, [], t, index, fromContext, rfl, h, hcommand, hclosed, hunknown, rfl,
        rfl⟩, hdefined, fun _ => rfl⟩
  obtain ⟨uri, hintroduced, hdefined, hfresh⟩ := hfirst
  refine ⟨u, id, uri, hnext, hat, hintroduced, hdefined, ⟨fun hasked => ?_, ?_⟩, hfresh⟩
  · -- no two definitions have the same number
    rw [State.patternPiece_eq] at hasked
    exact patternDefinition_inj (((h.concat hnext).catalogued.written "").eq_of_mem hdefined
      hasked (image_mem_definitions ..) (image_mem_definitions ..))
  · rintro rfl
    rw [State.patternPiece_eq]
    exact hdefined

end Reaches

/-- A conversion in which pictures are encoded as their pixels. -/
def Setup.pixels : Setup := { Setup.plain with encode := fun image => .ok image.rgba }

/-- Two brushes of one picture. The background is set to red between them. -/
def recolouredStream : Bytes :=
  Record.streamOf [(.header, List.replicate 48 0 ++ [3, 0] ++ List.replicate 30 0),
    (.createMonoBrush, monoBrushFields 1), (.setBackgroundColor, [0xff, 0, 0, 0]),
    (.createMonoBrush, monoBrushFields 2), (.endOfFile, List.replicate 12 0)]

/-- The records of the stream with two brushes. -/
def recolouredEntries : List Entry := (Survey.ofStream recolouredStream).entries

/-- The record of the second brush. -/
def recolouredBrush : Entry := ⟨176, 93, Record.Kind.createMonoBrush.record (monoBrushFields 2)⟩

/-- The picture of both brushes. -/
def recolouredPicture : Picture := ⟨((monoBrushFields 0).drop 24).take 40, [0x80, 0, 0, 0]⟩

/-- What is left behind before the second brush. -/
def recolouredState : State :=
  ((State.start (.ofStream recolouredStream)).steps .pixels
    (Survey.ofStream recolouredStream).paths (recolouredEntries.take 3)).1

/-- What is left behind after the second brush. -/
def brushedState : State :=
  (recolouredState.next .pixels (Survey.ofStream recolouredStream).paths recolouredBrush).1

/-- The second brush is made outside of a path, and nothing goes wrong. -/
theorem recoloured_reaches :
    Reaches .pixels recolouredStream (.ofStream recolouredStream) (recolouredEntries.take 3)
        (recolouredBrush :: recolouredEntries.drop 4) recolouredState ∧
      recolouredState.inPath = false ∧
      recolouredBrush.command Setup.pixels.options.plus =
        .ok (.createPattern 2 recolouredPicture true) ∧
      recolouredState.next .pixels (Survey.ofStream recolouredStream).paths recolouredBrush =
        (brushedState, none) ∧
      brushedState.patternAt? 2 = some 1 := by
  have h : Reaches .pixels recolouredStream _ (recolouredEntries.take 3)
      (recolouredEntries.drop 3) recolouredState :=
    .of_steps 3 (by decide +kernel) (by decide +kernel)
  rw [show recolouredEntries.drop 3 = recolouredBrush :: recolouredEntries.drop 4 by
    decide +kernel] at h
  exact ⟨h, by decide +kernel, rfl, Prod.ext rfl (by decide +kernel), by decide +kernel⟩

/-- The brush refers to the definition that the first record asked for. -/
theorem pattern_of_first_recoloured :
    ∃ uri, Reaches .pixels recolouredStream (.ofStream recolouredStream)
        (recolouredEntries.take 3) (recolouredBrush :: recolouredEntries.drop 4)
        recolouredState ∧
      recolouredState.inPath = false ∧ recolouredBrush.kind? = some .createMonoBrush ∧
      brushedState.patternAt? 2 = some 1 ∧
      recolouredState.definitionOf 1 uri recolouredPicture ∈ brushedState.written ∧
      (recolouredState.patternPiece Setup.pixels.encode recolouredPicture true 1 ∈
          brushedState.written ↔
        uri = (recolouredState.embedded Setup.pixels.encode recolouredPicture true).uri) := by
  obtain ⟨h, hclosed, hcommand, hnext, hat⟩ := recoloured_reaches
  have hkind : recolouredBrush.kind? = some .createMonoBrush := by decide +kernel
  obtain ⟨index, picture, hc, hstored⟩ := h.pattern_of_first hclosed true hkind hcommand
  obtain ⟨rfl, rfl, _⟩ := Command.createPattern.inj hc
  obtain ⟨u, id, uri, hnext', hat', _, hdefined, hiff, _⟩ := hstored (by decide +kernel)
  obtain rfl : brushedState = u := congrArg Prod.fst (hnext.symm.trans hnext')
  obtain rfl : 1 = id := Option.some.inj (hat.symm.trans hat')
  exact ⟨uri, h, hclosed, hkind, hat, hdefined, hiff⟩

/-- The definition with the number of the second brush is not the one that its record asks for: it
still has the background of the first brush. -/
theorem pattern_keeps_first_background :
    ∃ e later t u picture,
      Reaches .pixels recolouredStream (.ofStream recolouredStream) (recolouredEntries.take 3)
        (e :: later) t ∧
      t.inPath = false ∧ e.kind? = some .createMonoBrush ∧
      e.command Setup.pixels.options.plus = .ok (.createPattern 2 picture true) ∧
      t.next .pixels (Survey.ofStream recolouredStream).paths e = (u, none) ∧
      u.patternAt? 2 = some 1 ∧
      t.patternPiece Setup.pixels.encode picture true 1 ∉ u.written := by
  obtain ⟨h, hclosed, hcommand, hnext, hat⟩ := recoloured_reaches
  refine ⟨_, _, _, _, _, h, hclosed, by decide +kernel, hcommand, hnext, hat, fun hasked => ?_⟩
  have hlink : ∀ tag ∈ Document.tags "" brushedState.written,
      ("id", Markup.Reference.image 1) ∈ tag.attributes →
      ("xlink:href", (recolouredState.embedded Setup.pixels.encode recolouredPicture true).uri) ∉
        tag.attributes := by decide +kernel
  exact hlink _ (imageTag_mem "" hasked) (by simp [imageAttributes]) (by simp [imageAttributes])

end Playback

end Metafile
