import Metafile.Proofs.Bitmap.Consistent
import Metafile.Proofs.Playback.Services

/-!
# `Metafile.Proofs.Playback.Encoded`: an encoder is only given images that it can encode

Pictures come from blits and from brushes, with their own palette or with two colours of the
context, and their headers may say anything. `encoded_consistent` states what arrives at the
encoder: an image of the dimensions that the header declares, each of them between 1 and 4096,
with four bytes for each pixel. So an encoder need not check its input. `Png.head` does, and its
check never fails.
-/

set_option autoImplicit false

namespace Metafile.Playback

open Metafile.Bitmap (Encoder Image Picture Png.head)
open Metafile.Record (Entry Kind Survey)

/-- Every image that is encoded in a conversion has the dimensions of the header of its picture,
between 1 and `limit`, and four bytes for each pixel, so the check for a short buffer does not
fail. What an encoder does with other images does not matter: any encoder that agrees with it on
consistent images gives the same conversion. -/
theorem encoded_consistent (setup : Setup) (stream : Bytes) :
    (∀ picture image, Encodes setup stream picture image →
      (∃ header, picture.readHeader = .ok header ∧ image.width = header.width.natAbs ∧
        image.height = header.height.natAbs) ∧
      image.Consistent ∧ ∃ bytes, Png.head image = .ok bytes) ∧
    ∀ encode : Encoder,
      (∀ image : Image, image.Consistent → encode image = setup.encode image) →
      convert { setup with encode } stream = convert setup stream := by
  -- what is encoded was read from a picture, which makes it consistent
  have hall (picture : Picture) (image : Image) (h : Encodes setup stream picture image) :
      (∃ header, picture.readHeader = .ok header ∧ image.width = header.width.natAbs ∧
        image.height = header.height.natAbs) ∧ image.Consistent := by
    obtain ⟨_, _, _, hpixels⟩ := h
    obtain ⟨header, hheader, himage⟩ := Bitmap.Picture.pixels?_eq_some hpixels
    obtain ⟨hwidth, hheight, hconsistent⟩ := Bitmap.Picture.image_consistent himage
    exact ⟨⟨header, hheader, hwidth, hheight⟩, hconsistent⟩
  refine ⟨fun picture image h => ?_, fun encode hagrees => ?_⟩
  · obtain ⟨hheader, hconsistent⟩ := hall picture image h
    exact ⟨hheader, hconsistent, _, hconsistent.head_eq_ok⟩
  · exact convert_congr rfl (fun _ _ => rfl) fun picture image h =>
      hagrees image (hall picture image h).2

/-- A picture of two pixels. It is stored as one run of the first colour of its palette, and its
height is negative. -/
def runPicture : Picture where
  header := [40, 0, 0, 0, 2, 0, 0, 0, 255, 255, 255, 255, 1, 0, 8, 0, 1, 0, 0, 0] ++
    List.replicate 12 0 ++ [1, 0, 0, 0, 0, 0, 0, 0] ++ [0, 0, 255, 0]
  bits := [2, 0, 0, 1]

/-- The record of a brush that repeats the picture. -/
def runBrush : Bytes :=
  [1, 0, 0, 0, 0, 0, 0, 0, 32, 0, 0, 0, 44, 0, 0, 0, 76, 0, 0, 0, 4, 0, 0, 0] ++
    runPicture.header ++ runPicture.bits

/-- A stream with the brush. -/
def runBrushStream : Bytes :=
  Record.streamOf [(.header, List.replicate 48 0 ++ [3, 0] ++ List.replicate 30 0),
    (.createPatternBrush, runBrush), (.endOfFile, List.replicate 12 0)]

/-- Two red pixels in one row arrive at the encoder. -/
theorem encoded_consistent_runs :
    Encodes .plain runBrushStream runPicture ⟨2, 1, [255, 0, 0, 255, 255, 0, 0, 255]⟩ ∧
      Image.Consistent ⟨2, 1, [255, 0, 0, 255, 255, 0, 0, 255]⟩ := by
  have h :
      Reaches .plain runBrushStream _ _ ((Survey.ofStream runBrushStream).entries.drop 1) _ :=
    .of_steps 1 (by decide +kernel) (by decide +kernel)
  have hdrop : (Survey.ofStream runBrushStream).entries.drop 1 =
      ⟨88, 94, Kind.createPatternBrush.record runBrush⟩ ::
        (Survey.ofStream runBrushStream).entries.drop 2 := by decide +kernel
  rw [hdrop] at h
  have hcommand : Entry.command Setup.plain.options.plus
      ⟨88, 94, Kind.createPatternBrush.record runBrush⟩ =
      .ok (.createPattern 1 runPicture false) := by rfl
  have hpixels : runPicture.pixels? none =
      some ⟨2, 1, [255, 0, 0, 255, 255, 0, 0, 255]⟩ := by decide +kernel
  have hencodes : Encodes .plain runBrushStream runPicture
      ⟨2, 1, [255, 0, 0, 255, 255, 0, 0, 255]⟩ :=
    .intro h hcommand (by decide +kernel) hpixels
  exact ⟨hencodes, ((encoded_consistent .plain runBrushStream).1 _ _ hencodes).2.1⟩

end Metafile.Playback
