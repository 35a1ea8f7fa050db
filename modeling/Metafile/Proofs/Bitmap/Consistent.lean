import Metafile.Bitmap.Embed

/-!
# `Metafile.Proofs.Bitmap.Consistent`: decoded bitmaps have the bytes that their size needs

There are two ways from the bytes of a bitmap to its pixels, one for run-length data and one for
plain rows, and each checks the dimensions and fills the rows on its own. In the end both give an
`Image` that is `Consistent`: its dimensions lie between 1 and `limit`, and it has four bytes for
each pixel. So the check of an encoder for images that are too short never fails.

`Grid` says that there are so many rows of so many pixels. Both ways build one, and
`Grid.length_rgba` counts its bytes. `Picture.image_consistent` joins them.
-/

set_option autoImplicit false

namespace Metafile.Bitmap

/-- An image that has between 1 and `limit` columns and rows, and four bytes for each pixel. -/
structure Image.Consistent (image : Image) : Prop where
  width : 1 ≤ image.width ∧ image.width ≤ limit
  height : 1 ≤ image.height ∧ image.height ≤ limit
  rgba : image.rgba.length = 4 * image.width * image.height

/-- An image that is consistent has the beginning of a PNG file. -/
theorem Image.Consistent.head_eq_ok {image : Image} (h : image.Consistent) :
    Png.head image =
      .ok (Png.signature ++ Png.headerChunk image.width image.height) := by
  have hlong : ¬image.rgba.length < image.width * image.height * 4 := by
    rw [h.rgba, Nat.mul_assoc, Nat.mul_comm 4]
    exact Nat.lt_irrefl _
  have hwidth : image.width ≠ 0 := Nat.ne_of_gt h.width.1
  have hheight : image.height ≠ 0 := Nat.ne_of_gt h.height.1
  rw [Png.head, if_neg hlong, if_neg hwidth, if_neg hheight]

/-! ### Rows of pixels -/

/-- Lists of the same length, one after the other. -/
theorem length_flatMap_const {α β : Type} {f : α → List β} {n : Nat} {xs : List α}
    (h : ∀ x ∈ xs, (f x).length = n) : (xs.flatMap f).length = n * xs.length := by
  rw [List.length_flatMap, List.map_congr_left h, List.map_const', List.sum_replicate_nat,
    Nat.mul_comm]

/-- So many rows of so many pixels. -/
structure Grid (width height : Nat) (rows : List (List Pixel)) : Prop where
  height : rows.length = height
  width : ∀ row ∈ rows, row.length = width

namespace Grid

variable {width height : Nat} {rows : List (List Pixel)}

/-- Each pixel has four bytes. -/
theorem length_rgba (h : Grid width height rows) :
    (Image.ofRows width height rows).rgba.length = 4 * width * height := by
  have hrow : ∀ row ∈ rows, (row.flatMap Pixel.bytes).length = 4 * width := by
    intro row hmem
    rw [length_flatMap_const (f := Pixel.bytes) (n := 4) fun _ _ => rfl, h.width row hmem]
  rw [← h.height]
  exact length_flatMap_const hrow

/-- In either order each row is one of the rows of the bitmap. -/
theorem lt_of_mem_rowOrder {topDown : Bool} {k : Nat} (h : k ∈ rowOrder topDown height) :
    k < height := by
  unfold rowOrder at h
  split at h <;> simpa using h

/-- The rows of a bitmap in any order. -/
theorem of_order (topDown : Bool) (f : Nat → List Pixel)
    (h : ∀ k < height, (f k).length = width) :
    Grid width height ((rowOrder topDown height).map f) := by
  have hlength : (rowOrder topDown height).length = height := by
    unfold rowOrder
    split <;> simp
  refine ⟨by rw [List.length_map, hlength], fun row hrow => ?_⟩
  obtain ⟨k, hk, rfl⟩ := List.mem_map.1 hrow
  exact h k (lt_of_mem_rowOrder hk)

/-- The opacity of pixels does not change their number. -/
theorem resolveAlpha (h : Grid width height rows) (bitCount : Nat) :
    Grid width height (Bitmap.resolveAlpha bitCount rows) := by
  unfold Bitmap.resolveAlpha
  split
  · refine ⟨by rw [List.length_map, h.height], fun row hrow => ?_⟩
    obtain ⟨old, hold, rfl⟩ := List.mem_map.1 hrow
    rw [List.length_map, h.width old hold]
  · exact h

end Grid

/-! ### The two ways to an image -/

/-- A row of palette indices as pixels. -/
def Image.indexRow (indices : Array UInt8) (width : Nat) (palette : Palette) (k : Nat) :
    List Pixel :=
  (indices.extract (k * width) (k * width + width)).toList.map fun index =>
    .opaqueColor (palette.color index.toNat)

/-- Palette indices that are enough for all rows fill them. -/
theorem Grid.of_indices {indices : Array UInt8} {width height : Nat} {palette : Palette}
    (henough : width * height ≤ indices.size) :
    Grid width height
      ((rowOrder false height).map (Image.indexRow indices width palette)) := by
  refine .of_order false _ fun k hk => ?_
  rw [Image.indexRow, List.length_map, Array.length_toList, Array.size_extract]
  -- the row ends inside of the indices, because they are enough for all rows
  have hrows : k * width + width ≤ height * width := by
    rw [← Nat.succ_mul]
    exact Nat.mul_le_mul_right width hk
  rw [Nat.mul_comm height] at hrows
  omega

/-- Indices that are enough for all rows give an image, if there are colours at all. -/
theorem Image.ofIndices_of_enough {indices : Array UInt8} {width height : Nat} {palette : Palette}
    (hpalette : palette ≠ #[]) (henough : width * height ≤ indices.size) :
    Image.ofIndices indices width height palette = .ok (Image.ofRows width height
      ((rowOrder false height).map (Image.indexRow indices width palette))) := by
  unfold Image.ofIndices
  rw [if_neg (by simpa using hpalette), if_neg (Nat.not_lt.2 henough)]
  rfl

/-- An image of indices has enough of them, and its rows are theirs from the bottom up. -/
theorem Image.ofIndices_eq_ok {indices : Array UInt8} {width height : Nat} {palette : Palette}
    {image : Image} (h : Image.ofIndices indices width height palette = .ok image) :
    width * height ≤ indices.size ∧
      image = Image.ofRows width height
        ((rowOrder false height).map (Image.indexRow indices width palette)) := by
  unfold Image.ofIndices at h
  split at h
  · cases h
  · split at h
    · cases h
    · rename_i henough
      exact ⟨Nat.le_of_not_lt henough, (Except.ok.inj h).symm⟩

/-- Run-length data is only drawn if the dimensions can be shown. -/
theorem Runs.decode_eq_ok {form : Runs.Form} {data : Bytes} {width height : Nat}
    {indices : Array UInt8} (h : Runs.decode form data width height = .ok indices) :
    Header.fits width height = true := by
  unfold Runs.decode at h
  cases hfits : Header.fits width height with
  | true => rfl
  | false =>
      rw [hfits] at h
      cases h

/-- Plain rows give an image of the dimensions of the header, which were checked before. -/
theorem Image.ofBits_eq_ok {header : Header} {palette : Palette} {bits : Bytes} {image : Image}
    (h : Image.ofBits header palette bits = .ok image) :
    header.checkDimensions = .ok () ∧
      ∃ rows, image = Image.ofRows header.columns header.rows rows ∧
        Grid header.columns header.rows rows := by
  obtain ⟨_, hcheck, hchecked⟩ := of_bind_eq_ok h
  simp only [bind, Except.bind] at hchecked
  -- the palette, the depth and the number of bytes are checked, and then the rows are made
  split at hchecked
  · cases hchecked
  · split at hchecked
    · cases hchecked
    · split at hchecked
      · cases hchecked
      · obtain rfl := Except.ok.inj hchecked
        refine ⟨hcheck, _, rfl, .resolveAlpha (.of_order header.isTopDown _ fun k _ => ?_) _⟩
        rw [List.length_map, List.length_range]

/-! ### Pictures -/

namespace Picture

variable {p : Picture} {header : Header} {image : Image}

/-- Run-length data gives an image of the dimensions of the header, which were checked before. -/
theorem runImage_eq_ok {form : Runs.Form} {palette : Palette}
    (h : p.runImage header form palette = .ok image) :
    header.checkDimensions = .ok () ∧
      ∃ rows, image = Image.ofRows header.columns header.rows rows ∧
        Grid header.columns header.rows rows := by
  obtain ⟨indices, hindices, hfilled⟩ := of_bind_eq_ok h
  obtain ⟨henough, himage⟩ := Image.ofIndices_eq_ok hfilled
  exact ⟨if_pos (Runs.decode_eq_ok hindices), _, himage, .of_indices henough⟩

/-- The pixels of a picture are a consistent image of the dimensions that the header declares,
whichever way they are stored and wherever the palette comes from. -/
theorem image_consistent {given : Option Palette} (h : p.image header given = .ok image) :
    image.width = header.columns ∧ image.height = header.rows ∧ image.Consistent := by
  -- all three ways to an image check the dimensions first
  obtain ⟨hcheck, rows, rfl, hgrid⟩ : header.checkDimensions = .ok () ∧
      ∃ rows, image = Image.ofRows header.columns header.rows rows ∧
        Grid header.columns header.rows rows := by
    obtain ⟨palette, _, hpixels⟩ := of_bind_eq_ok h
    split at hpixels
    · exact runImage_eq_ok (mapError_eq_ok.1 hpixels)
    · exact runImage_eq_ok (mapError_eq_ok.1 hpixels)
    · exact Image.ofBits_eq_ok (mapError_eq_ok.1 hpixels)
  obtain ⟨hwidth, hheight⟩ := (Header.checkDimensions_iff header).1 hcheck
  exact ⟨rfl, rfl, hwidth, hheight, hgrid.length_rgba⟩

end Picture

end Metafile.Bitmap
