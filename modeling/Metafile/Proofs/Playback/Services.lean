import Metafile.Proofs.Playback.Outcome

/-!
# `Metafile.Proofs.Playback.Services`: what a conversion asks of its combiner and its encoder

How clip regions are combined and how pictures are encoded is left to the caller. This module says
what the two functions are given. `State.combination?` and `State.encoding?` are what one command
asks for in a state, and `Combines` and `Encodes` gather what the records of a whole stream ask
for.

That nothing else is asked for is a theorem: if two combiners and two encoders give the same
answers to these questions, then the conversions are the same (`convert_congr`). It is proved for
one command (`State.perform_congr`) and carried over the records from one boundary to the next.
-/

set_option autoImplicit false

namespace Metafile

namespace Clip

/-- What a combiner is given: the current region, if there is one, the new one and the operation.
-/
structure Combination where
  current : Option (Outline Float)
  incoming : Outline Float
  op : Operation

/-- The answer of a combiner. -/
def Combination.answer (k : Combination) (combine : Combiner) : Outline Float :=
  combine k.current k.incoming k.op

end Clip

namespace Bitmap.Picture

/-- The image that an encoder is given to show a picture. There is none if the picture has no
header, if it stands in the document as it is, or if its pixels cannot be read. -/
def pixels? (p : Picture) (given : Option Palette) : Option Image :=
  match p.readHeader with
  | .error _ => none
  | .ok h =>
    match h.compression with
    | .jpeg | .png => none
    | _ => (p.image h given).toOption

/-- The image that is encoded is that of the pixels of a picture with a header. -/
theorem pixels?_eq_some {p : Picture} {given : Option Palette} {image : Image}
    (h : p.pixels? given = some image) :
    ∃ header, p.readHeader = .ok header ∧ p.image header given = .ok image := by
  unfold pixels? at h
  split at h
  · cases h
  · rename_i header hheader
    refine ⟨header, hheader, ?_⟩
    -- pictures that are files already have no pixels to be encoded
    split at h
    · cases h
    · cases h
    · cases himage : p.image header given with
      | error cause =>
          rw [himage] at h
          cases h
      | ok found =>
          rw [himage] at h
          exact congrArg Except.ok (Option.some.inj h)

/-- Encoders that agree on the image of a picture show it in the same way. -/
theorem embed_congr {p : Picture} {given : Option Palette} {encode encode' : Encoder}
    (h : ∀ image, p.pixels? given = some image → encode' image = encode image) :
    p.embed encode' given = p.embed encode given := by
  unfold pixels? at h
  unfold embed
  cases hheader : p.readHeader with
  | error cause => rfl
  | ok header =>
      rw [hheader] at h
      have huri : p.uri encode' header given = p.uri encode header given := by
        -- compressed pictures are not encoded, and the others are if they have pixels
        unfold uri
        dsimp only at h
        cases hcompression : header.compression with
        | jpeg | png => rfl
        | none | runs8 | runs4 | masks | other =>
            rw [hcompression] at h
            cases himage : p.image header given with
            | error cause => rfl
            | ok image =>
                rw [himage] at h
                show (encode' image >>= _) = (encode image >>= _)
                rw [h image rfl]
      dsimp only
      rw [huri]

end Bitmap.Picture

namespace Playback

open Metafile.Bitmap (Image Palette Picture)
open Metafile.Clip (Combination)
open Metafile.Record (Command Entry PathUse Survey)

namespace State

/-! ### One command -/

/-- The combination of the clip region with an outline. -/
def combination (incoming : Outline Float) (op : Clip.Operation) (s : State) : Combination :=
  ⟨s.context.clip.map Device.ClipRegion.outline, incoming.flatten, op⟩

/-- What a command asks a combiner for. -/
def combination? (c : Command) (s : State) : Option Combination :=
  match c with
  | .clip (.box b op) => some (s.combination (s.logicalBox b) op)
  | .clip (.path op) => some (s.combination s.trail.outline op)
  | .clip (.boxes bs op) => some (s.combination (bs.flatMap (deviceBox s.page.scale)) op)
  | _ => none

/-- The picture that a command asks an encoder for, and the palette for it if the picture does not
take its own. A picture that repeats in a brush is asked for when it is met first, but not inside
of a path. -/
def encoding? (c : Command) (s : State) : Option (Picture × Option Palette) :=
  match c with
  | .blit area => area.source.map (·, none)
  | .createPattern _ picture fromContext =>
    if s.inPath || (s.images.find? picture).isSome then none
    else some (picture, if fromContext then some (twoColors s.context) else none)
  | _ => none

variable {setup setup' : Setup} {c : Command} {s : State}

/-- A region is combined as the combiner answers. -/
theorem combineClip_congr {combine combine' : Clip.Combiner} {incoming : Outline Float}
    {op : Clip.Operation}
    (h : (s.combination incoming op).answer combine' =
      (s.combination incoming op).answer combine) :
    s.combineClip combine' incoming op = s.combineClip combine incoming op :=
  congrArg (s.setClip ·) h

/-- Two combiners that answer alike where they are asked change the clip region alike. -/
theorem changeClip_congr {combine combine' : Clip.Combiner} {change : Record.ClipChange}
    (h : ∀ k, s.combination? (.clip change) = some k → k.answer combine' = k.answer combine) :
    s.changeClip combine' change = s.changeClip combine change := by
  cases change with
  | box b op => exact combineClip_congr (h _ rfl)
  | path op => exact combineClip_congr (h _ rfl)
  | boxes bs op => exact combineClip_congr (h _ rfl)
  | shift v => rfl
  | reset => rfl

/-- Two encoders that agree on the image of a picture draw it alike. -/
theorem blit_congr {encode encode' : Bitmap.Encoder} {area : Record.Blit}
    (h : ∀ picture given image, s.encoding? (.blit area) = some (picture, given) →
      picture.pixels? given = some image → encode' image = encode image) :
    s.blit encode' area = s.blit encode area := by
  unfold blit
  cases hsource : area.source with
  | none => rfl
  | some picture =>
      have hembed : picture.embed encode' none = picture.embed encode none :=
        Bitmap.Picture.embed_congr fun image himage =>
          h picture none image (by rw [encoding?, hsource]; rfl) himage
      dsimp only
      rw [hembed]

/-- Two encoders that agree on the image of a picture make the same brush with it. -/
theorem createPattern_congr {encode encode' : Bitmap.Encoder} {index : Nat} {picture : Picture}
    {fromContext : Bool}
    (h : ∀ other given image,
      s.encoding? (.createPattern index picture fromContext) = some (other, given) →
      other.pixels? given = some image → encode' image = encode image) :
    s.createPattern encode' index picture fromContext =
      s.createPattern encode index picture fromContext := by
  have hpattern : s.patternOf encode' picture fromContext =
      s.patternOf encode picture fromContext := by
    unfold patternOf
    cases hopen : s.inPath with
    | true => rfl
    | false =>
        cases hfound : s.images.find? picture with
        | some id => rfl
        | none =>
            -- a picture that is not known yet is given to the encoder
            have hasks : s.encoding? (.createPattern index picture fromContext) =
                some (picture, if fromContext then some (twoColors s.context) else none) := by
              simp [encoding?, hopen, hfound]
            have hembed := Bitmap.Picture.embed_congr fun image himage =>
              h _ _ image hasks himage
            simp only [definePattern, hembed]
  unfold createPattern
  rw [hpattern]

/-- A command does the same with all combiners and encoders that answer its questions in the same
way. -/
theorem perform_congr (hoptions : setup'.options = setup.options) (uses : List PathUse)
    (hcombine : ∀ k, s.combination? c = some k → k.answer setup'.combine = k.answer setup.combine)
    (hencode : ∀ picture given image, s.encoding? c = some (picture, given) →
      picture.pixels? given = some image → setup'.encode image = setup.encode image) :
    s.perform setup' uses c = s.perform setup uses c := by
  -- three commands look at the options, and three at the combiner or the encoder
  cases c with
  | header header => exact congrArg (fun o => (s.beginDocument o header, none)) hoptions
  | endOfFile => exact congrArg (fun o => (s.endDocument o, none)) hoptions
  | plus records =>
      exact congrArg (fun o : Options =>
        (s.runPlus (·.play o.verbose s.page.scale records), none)) hoptions
  | clip change => exact congrArg (·, none) (changeClip_congr hcombine)
  | blit area => exact congrArg (·, none) (blit_congr hencode)
  | createPattern index picture fromContext => exact createPattern_congr hencode
  | draw | beginPath | endPath | closeFigure | abortPath | flattenPath | set | mapMode | layout
  | moveTo | save | restore | transform | create | select | delete | label | nothing => rfl

end State

/-! ### All records of a stream -/

/-- A record of a stream asks for a combination of clip regions. -/
inductive Combines (setup : Setup) (stream : Bytes) : Combination → Prop
  | intro {survey : Survey} {earlier later : List Entry} {e : Entry} {s : State} {c : Command}
      {k : Combination} (reaches : Reaches setup stream survey earlier (e :: later) s)
      (command : e.command setup.options.plus = .ok c) (asks : s.combination? c = some k) :
      Combines setup stream k

/-- A record of a stream asks for a picture, and this is the image to encode. -/
inductive Encodes (setup : Setup) (stream : Bytes) : Picture → Image → Prop
  | intro {survey : Survey} {earlier later : List Entry} {e : Entry} {s : State} {c : Command}
      {picture : Picture} {given : Option Palette} {image : Image}
      (reaches : Reaches setup stream survey earlier (e :: later) s)
      (command : e.command setup.options.plus = .ok c)
      (asks : s.encoding? c = some (picture, given))
        (pixels : picture.pixels? given = some image) :
      Encodes setup stream picture image

variable {setup setup' : Setup} {stream : Bytes} {survey : Survey}

/-- A record is played in the same way with all combiners and encoders that answer the questions
of the stream in the same way. -/
theorem Reaches.next_congr {earlier later : List Entry} {e : Entry} {s : State}
    (h : Reaches setup stream survey earlier (e :: later) s)
    (hoptions : setup'.options = setup.options)
    (hcombine : ∀ k, Combines setup stream k → k.answer setup'.combine = k.answer setup.combine)
    (hencode : ∀ picture image, Encodes setup stream picture image →
      setup'.encode image = setup.encode image) :
    s.next setup' survey.paths e = s.next setup survey.paths e := by
  have hlisted : s.announce setup' e = s.announce setup e := by
    rw [State.announce, State.announce, hoptions]
  obtain ⟨log, hlog⟩ := State.announce_eq setup e s
  rw [State.next, State.next, State.step_eq, State.step_eq, hoptions, hlisted, hlog]
  cases hc : e.command setup.options.plus with
  | error cause => rfl
  | ok c =>
      -- the message of the listing is not part of any question
      refine State.perform_congr hoptions survey.paths (fun k hk => ?_)
        fun p given image hp hi => ?_
      · exact hcombine k (.intro h hc hk)
      · exact hencode p image (.intro h hc hp hi)

/-- The records after a boundary are played in the same way. -/
theorem Reaches.steps_congr {earlier later : List Entry} {s : State}
    (h : Reaches setup stream survey earlier later s) (hoptions : setup'.options = setup.options)
    (hcombine : ∀ k, Combines setup stream k → k.answer setup'.combine = k.answer setup.combine)
    (hencode : ∀ picture image, Encodes setup stream picture image →
      setup'.encode image = setup.encode image) :
    s.steps setup' survey.paths later = s.steps setup survey.paths later := by
  induction later generalizing earlier s with
  | nil => rfl
  | cons e rest ih =>
      rw [State.steps, State.steps, ← State.next, ← State.next,
        h.next_congr hoptions hcombine hencode]
      split
      · rename_i t hnext
        exact ih (h.concat hnext)
      · rfl

/-- Two conversions of a stream are the same, with their messages, if they have the same options
and if their combiners and encoders agree on what the stream asks for. -/
theorem convert_congr (hoptions : setup'.options = setup.options)
    (hcombine : ∀ k, Combines setup stream k → k.answer setup'.combine = k.answer setup.combine)
    (hencode : ∀ picture image, Encodes setup stream picture image →
      setup'.encode image = setup.encode image) :
    convert setup' stream = convert setup stream := by
  cases haccepted : Survey.ofBytes stream with
  | error fault => rw [convert_of_refused _ haccepted, convert_of_refused _ haccepted]
  | ok survey =>
      have hstart : Reaches setup stream survey [] survey.entries (State.start survey) :=
        ⟨haccepted, rfl, rfl⟩
      have hrun : play setup' survey = play setup survey := by
        unfold play playThrough State.run
        rw [← State.start, hstart.steps_congr hoptions hcombine hencode]
      rw [convert_of_accepted _ haccepted, convert_of_accepted _ haccepted, Conversion.ofSurvey,
        Conversion.ofSurvey, hrun, hoptions]

end Playback

end Metafile
