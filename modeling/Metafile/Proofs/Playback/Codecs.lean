import Metafile.Proofs.Markup.Masked
import Metafile.Proofs.Playback.Alike
import Metafile.Proofs.Playback.References

/-!
# `Metafile.Proofs.Playback.Codecs`: what makes a picture decides nothing else

A picture has the size that its header declares and is numbered by its bytes, so neither depends
on the encoder. The encoder decides what stands in a link, and which messages are left behind, and
that is all: `convert_codec` compares two conversions that differ in their encoders, where each of
them may fail on some pictures or on all of them.
-/

set_option autoImplicit false

namespace Metafile.Playback

open Metafile.Markup (Attribute Document Element Piece SameMasked maskText)
open Metafile.Record (Matches Survey)

/-- Whatever encodes them, pictures and their patterns look the same when they are masked. -/
theorem sameView_masked (encode encode' : Bitmap.Encoder) :
    SameView Piece.masked encode encode' where
  picture picture r opacity clip := by
    have hlink := (Attribute.maskedValue_embed encode' picture none).trans
      (Attribute.maskedValue_embed encode picture none).symm
    simp only [Piece.masked, pictureElement, Element.masked_set, hlink]
  pattern picture colors id width height := by
    have hlink := (Attribute.maskedValue_embed encode' picture colors).trans
      (Attribute.maskedValue_embed encode picture colors).symm
    simp only [Piece.masked, patternDefinition, Element.masked_push, Element.masked_set, hlink]

/-- States that are alike but for their pictures have the same text when it is masked. -/
theorem State.Alike.maskText_eq {s t : State} (h : State.Alike Piece.masked s t)
    (qualifier : String) : maskText (t.text qualifier) = maskText (s.text qualifier) := by
  cases h with
  | intro written held log hwritten hheld =>
      refine SameMasked.maskText_eq ?_
      simp only [State.text, String.toList_append]
      exact (Document.sameMasked_of_map_eq qualifier hwritten).append (.refl _)

/-- The encoder decides only what stands in the links to pictures. Two conversions of an accepted
stream with different encoders come to states that differ in the messages and in the data of
pictures at most. So both are complete or none is, and their texts are the same once that data is
masked. -/
theorem convert_codec (setup : Setup) {stream : Bytes} {survey : Survey}
    (h : Survey.ofBytes stream = .ok survey) (encode : Bitmap.Encoder) :
    ∃ c c' log log', convert setup stream = .ok (c, log) ∧
      convert { setup with encode } stream = .ok (c', log') ∧
      c'.complete = c.complete ∧ maskText c'.svg = maskText c.svg ∧
      State.Alike Piece.masked (play setup survey) (play { setup with encode } survey) := by
  have hsame : Matches (State.SameRequest setup.options.plus setup.options.plus)
      (fun e => e.command setup.options.plus = .ok .nothing) survey.entries survey.entries :=
    .self fun _ _ => rfl
  have hplayed :
      State.Alike Piece.masked (play setup survey) (play { setup with encode } survey) :=
    play_alike setup hsame (sameView_masked setup.encode encode) rfl (.inl rfl)
  exact ⟨_, _, _, _, convert_of_accepted setup h, convert_of_accepted _ h,
    congrArg (!·) hplayed.failed, hplayed.maskText_eq setup.options.qualifier, hplayed⟩

/-- A conversion in which no picture can be encoded. -/
def Setup.unencoded : Setup :=
  { Setup.plain with encode := fun _ => .error (.undecodable .zeroWidth) }

/-- Where no picture can be encoded, two clip regions, a brush and a path come out the same. The
placeholder stands in the link, and with the other encoder it does not. -/
theorem convert_codec_failing :
    ∃ survey, Survey.ofBytes definingStream = .ok survey ∧
      (∃ c c' log log', convert .plain definingStream = .ok (c, log) ∧
        convert .unencoded definingStream = .ok (c', log') ∧
        c'.complete = c.complete ∧ maskText c'.svg = maskText c.svg) ∧
      (∃ tag ∈ Markup.Token.qualifiedTags "" (play .unencoded survey).tokens,
        ("xlink:href", Bitmap.placeholder) ∈ tag.attributes) ∧
      ∀ tag ∈ Markup.Token.qualifiedTags "" (play .plain survey).tokens,
        ("xlink:href", Bitmap.placeholder) ∉ tag.attributes := by
  have haccepted := Survey.ofBytes_ofStream
    (by decide +kernel : (Survey.ofBytes definingStream).isOk = true)
  obtain ⟨c, c', log, log', hc, hc', hcomplete, hmasked, _⟩ :=
    convert_codec .plain haccepted Setup.unencoded.encode
  exact ⟨_, haccepted, ⟨c, c', log, log', hc, hc', hcomplete, hmasked⟩, by decide +kernel,
    by decide +kernel⟩

end Metafile.Playback
