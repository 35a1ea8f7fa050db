import Metafile.Proofs.Bitmap.ColorTables

/-!
# `Metafile.Proofs.Bitmap.PlainRows`: the same picture with and without compression

Run-length data gives the indices of a picture one by one. The same indices can lie in plain rows,
two to a byte if they have 4 bits, each row padded to whole words by any bytes: `Form.PacksRows`
says which bytes these are.

The two ways to an image share no code. One looks up the indices in the order of the canvas, the
other takes them out of padded rows. `Picture.image_of_plainRows` states that they meet: with the
same palette both give the same image, and without colours both fail.
-/

set_option autoImplicit false

namespace Metafile.Bitmap

open Bytes (number? number?_append number?_byte number?_of_byte)

namespace Runs

/-! ### Plain rows -/

/-- The number of bits of a pixel. -/
def Form.depth : Form → Nat
  | .eight => 8
  | .four => 4

/-- The code of the compression in a header. -/
def Form.code : Form → Nat
  | .eight => 1
  | .four => 2

/-- A pixel of run-length data has a byte at most. -/
theorem Form.depth_le (form : Form) : form.depth ≤ 8 := by
  cases form <;> decide

/-- Bytes hold rows of pixels, each of them padded by any bytes to so many bytes. Any bytes may
follow the last row. -/
inductive Form.PacksRows (form : Form) (width : Nat) : List (List UInt8) → Bytes → Prop
  | nil (rest : Bytes) : PacksRows form width [] rest
  | cons {row : List UInt8} {rows : List (List UInt8)} {packed pad rest : Bytes}
      (hpacks : form.Packs row packed) (hwidth : packed.length + pad.length = width)
      (hrest : PacksRows form width rows rest) :
      PacksRows form width (row :: rows) (packed ++ (pad ++ rest))

/-- The rows of indices. -/
def rowsOf (indices : Array UInt8) (width height : Nat) : List (List UInt8) :=
  (List.range height).map fun k => (indices.extract (k * width) (k * width + width)).toList

variable {form : Form} {row : List UInt8} {rows : List (List UInt8)} {packed bits : Bytes}
  {width k x : Nat} {v : UInt8}

/-- A pixel lies in the byte of its pair. -/
theorem getElem?_of_pairs (h : Pairs row packed) (hv : row[x]? = some v) :
    ∃ b, packed[x / 2]? = some b ∧ v = if x % 2 = 0 then upper b else lower b := by
  fun_induction Pairs row packed generalizing x with
  | case1 => simp at hv
  | case2 p b =>
      obtain rfl : x = 0 := by
        have hlt := (List.getElem?_eq_some_iff.1 hv).1
        simpa using hlt
      exact ⟨b, rfl, (Option.some.inj hv).symm.trans h⟩
  | case3 p q row b packed ih =>
      obtain ⟨hupper, hlower, hrest⟩ := h
      cases x with
      | zero => exact ⟨b, rfl, (Option.some.inj hv).symm.trans hupper⟩
      | succ x =>
          cases x with
          | zero => exact ⟨b, rfl, (Option.some.inj hv).symm.trans hlower⟩
          | succ x =>
              -- two pixels further on lies the next byte
              have hplace : (x + 1 + 1) / 2 = x / 2 + 1 := by omega
              have hhalf : (x + 1 + 1) % 2 = x % 2 := by omega
              rw [hplace, hhalf]
              exact ih hrest hv
  | case4 => exact h.elim

/-- A pixel is the number at its place among the bits that hold it. -/
theorem number?_of_packs (h : form.Packs row packed) (hv : row[x]? = some v) (rest : Bytes) :
    number? (packed ++ rest) (x * form.depth) form.depth = some v.toNat := by
  cases form with
  | eight =>
      obtain rfl := h
      have hlt := (List.getElem?_eq_some_iff.1 hv).1
      show number? (packed ++ rest) (x * 8) 8 = _
      rw [Nat.mul_comm, number?_byte, List.getElem?_append_left hlt, hv]
      rfl
  | four =>
      obtain ⟨b, hb, rfl⟩ := getElem?_of_pairs h hv
      have hlt := (List.getElem?_eq_some_iff.1 hb).1
      have hplace : x * 4 / 8 = x / 2 := by omega
      have hbyte : (packed ++ rest)[x * 4 / 8]? = some b := by
        rw [hplace, List.getElem?_append_left hlt, hb]
      show number? (packed ++ rest) (x * 4) 4 = _
      rw [number?_of_byte hbyte (by omega)]
      -- the pixel with the even index is the upper half of its byte
      by_cases heven : x % 2 = 0
      · have hshift : 8 - (x * 4 % 8 + 4) = 4 := by omega
        rw [if_pos heven, hshift, toNat_upper]
      · have hshift : 8 - (x * 4 % 8 + 4) = 0 := by omega
        rw [if_neg heven, hshift, toNat_lower, Nat.pow_zero, Nat.div_one]

/-- All rows are there. -/
theorem length_of_packsRows (h : form.PacksRows width rows bits) :
    width * rows.length ≤ bits.length := by
  induction h with
  | nil rest => simp
  | cons hpacks hwidth hrest ih =>
      simp only [List.length_cons, List.length_append, Nat.mul_succ]
      omega

/-- A pixel is the number at its place in its row. -/
theorem number?_of_packsRows (h : form.PacksRows width rows bits) (hrow : rows[k]? = some row)
    (hv : row[x]? = some v) :
    number? bits (8 * (width * k) + x * form.depth) form.depth = some v.toNat := by
  induction h generalizing k with
  | nil rest => simp at hrow
  | @cons first rows packed pad rest hpacks hwidth hrest ih =>
      cases k with
      | zero =>
          obtain rfl : first = row := by simpa using hrow
          rw [Nat.mul_zero, Nat.mul_zero, Nat.zero_add]
          exact number?_of_packs hpacks hv _
      | succ k =>
          -- the first row and its padding lie in front
          have hplace : 8 * (width * (k + 1)) + x * form.depth =
              8 * (packed ++ pad).length + (8 * (width * k) + x * form.depth) := by
            rw [List.length_append, hwidth, Nat.mul_succ]
            omega
          rw [hplace, ← List.append_assoc, number?_append]
          exact ih (by simpa using hrow)

end Runs

open Runs (rowsOf)

/-! ### The two ways to an image -/

/-- A row that is packed is the row of its indices. -/
theorem Header.row_of_packsRows {form : Runs.Form} {h : Header} {indices : Array UInt8}
    {palette : Palette} {bits : Bytes} {k : Nat} (hok : h.Accepts palette bits)
    (hdepth : h.bitCount = form.depth) (hsize : indices.size = h.columns * h.rows)
    (hpacks : form.PacksRows (stride h.columns h.bitCount) (rowsOf indices h.columns h.rows) bits)
    (hk : k < h.rows) :
    h.row palette bits k = Image.indexRow indices h.columns palette k := by
  have hsmall : h.bitCount ≤ 8 := hdepth ▸ form.depth_le
  have hrow : (rowsOf indices h.columns h.rows)[k]? =
      some (indices.extract (k * h.columns) (k * h.columns + h.columns)).toList := by
    rw [rowsOf, List.getElem?_map, List.getElem?_range hk]
    rfl
  have hwidth : (indices.extract (k * h.columns) (k * h.columns + h.columns)).toList.length =
      h.columns := by
    have hend : (k + 1) * h.columns ≤ h.rows * h.columns := Nat.mul_le_mul_right _ hk
    rw [Nat.succ_mul, Nat.mul_comm h.rows] at hend
    rw [Array.length_toList, Array.size_extract]
    omega
  -- the row is compared pixel by pixel, and each pixel is the sample at its index
  refine List.ext_getElem? fun x => ?_
  rw [Image.indexRow, List.getElem?_map]
  by_cases hx : x < h.columns
  · have hv := List.getElem?_eq_getElem (hwidth.symm ▸ hx)
    have hsample := sample?_eq hok hx (storedRow_lt hk)
    rw [storedRow_storedRow hk, sample?, sample?_of_index hsmall, place, storedRow_storedRow hk,
      hdepth, Runs.number?_of_packsRows (hdepth ▸ hpacks) hrow hv] at hsample
    rw [hv]
    exact hsample.symm
  · rw [List.getElem?_eq_none (length_row.symm ▸ Nat.le_of_not_lt hx),
      List.getElem?_eq_none (hwidth.symm ▸ Nat.le_of_not_lt hx)]
    rfl

/-- Plain rows of indices give the image of the indices. -/
theorem Image.ofBits_of_packsRows {form : Runs.Form} {h : Header} {indices : Array UInt8}
    {palette : Palette} {bits : Bytes} (hcolumns : 1 ≤ h.columns ∧ h.columns ≤ 4096)
    (hrows : 1 ≤ h.rows ∧ h.rows ≤ 4096) (hdepth : h.bitCount = form.depth)
    (hbottom : h.isTopDown = false) (hsize : indices.size = h.columns * h.rows)
    (hpacks : form.PacksRows (stride h.columns h.bitCount) (rowsOf indices h.columns h.rows) bits)
    (hpalette : palette ≠ #[]) :
    Image.ofBits h palette bits = Image.ofIndices indices h.columns h.rows palette := by
  have hlength := Runs.length_of_packsRows hpacks
  rw [rowsOf, List.length_map, List.length_range] at hlength
  have hsmall : h.bitCount ≤ 8 := hdepth ▸ form.depth_le
  -- the plain bitmap is accepted, and it has no opacity that could be resolved
  have hok : h.Accepts palette bits :=
    ⟨hcolumns, hrows, by rw [hdepth]; cases form <;> decide, fun _ => hpalette, hlength⟩
  rw [Header.ofBits_of_accepts hok, resolveAlpha_of_ne (by omega), Header.imageRows, hbottom,
    Image.ofIndices_of_enough hpalette (Nat.le_of_eq hsize.symm)]
  have hrows : (rowOrder false h.rows).map (h.row palette bits) =
      (rowOrder false h.rows).map (Image.indexRow indices h.columns palette) :=
    List.map_congr_left fun k hk =>
      Header.row_of_packsRows hok hdepth hsize hpacks (Grid.lt_of_mem_rowOrder hk)
  rw [hrows]

/-! ### Pictures -/

namespace Picture

variable {p : Picture} {h : Header} {form : Runs.Form} {palette : Palette}
  {given : Option Palette}

/-- The runs of the form that the header names are drawn before the image is made. -/
theorem image_of_runs (hcode : h.compressionCode = form.code)
    (hpalette : p.palette h given = .ok palette) :
    p.image h given = (p.runImage h form palette).mapError .undecodable := by
  cases form with
  | eight => exact image_of_runs8 (congrArg Compression.ofCode hcode) hpalette
  | four => exact image_of_runs4 (congrArg Compression.ofCode hcode) hpalette

/-- Without a table of colours there is no image, and the fault is the same. -/
theorem image_of_no_palette {fault : Fault} (hpalette : p.palette h given = .error fault) :
    p.image h given = .error fault := by
  unfold image
  rw [hpalette]
  rfl

/-- Run-length data has no image without colours. -/
theorem image_of_runs_colorless (hcode : h.compressionCode = form.code)
    (hempty : ∀ palette, p.palette h given = .ok palette → palette = #[]) :
    ∃ cause, p.image h given = .error cause := by
  cases hpalette : p.palette h given with
  | error fault => exact ⟨fault, image_of_no_palette hpalette⟩
  | ok palette =>
      obtain rfl := hempty palette hpalette
      rw [image_of_runs hcode hpalette, runImage]
      cases Runs.decode form p.bits h.columns h.rows with
      | error cause => exact ⟨.undecodable cause, rfl⟩
      | ok indices => exact ⟨.undecodable .noPalette, rfl⟩

/-- Plain rows of indices have no image without colours. -/
theorem image_of_plain_colorless (hstored : h.compression = .none) (hsmall : h.bitCount ≤ 8)
    (hempty : ∀ palette, p.palette h given = .ok palette → palette = #[]) :
    ∃ cause, p.image h given = .error cause := by
  cases hpalette : p.palette h given with
  | error fault => exact ⟨fault, image_of_no_palette hpalette⟩
  | ok palette =>
      obtain rfl := hempty palette hpalette
      rw [image_of_plain hstored hpalette]
      cases himage : Image.ofBits h #[] p.bits with
      | error cause => exact ⟨.undecodable cause, rfl⟩
      | ok image => exact absurd rfl ((Header.accepts_of_ofBits himage).palette hsmall)

/-- Pixels that are decoded are given to the encoder. -/
theorem uri_of_decoded (hjpeg : h.compression ≠ .jpeg) (hpng : h.compression ≠ .png)
    (encode : Encoder) :
    p.uri encode h given = do
      let image ← p.image h given
      return dataUri "image/png" (← encode image) := by
  unfold uri
  split
  · exact absurd ‹_› hjpeg
  · exact absurd ‹_› hpng
  · cases p.image h given <;> rfl

/-- A picture that cannot be decoded is shown by the placeholder. -/
theorem embed_of_error {fault : Fault} (hread : p.readHeader = .ok h)
    (hjpeg : h.compression ≠ .jpeg) (hpng : h.compression ≠ .png)
    (himage : p.image h given = .error fault) (encode : Encoder) :
    (p.embed encode given).uri = placeholder := by
  have huri : p.uri encode h given = .error fault := by
    rw [uri_of_decoded hjpeg hpng, himage]
    rfl
  rw [embed, hread]
  dsimp only
  rw [huri]

end Picture

/-- The header of the same picture without compression. -/
def Header.uncompressed (h : Header) (imageSize : Nat) : Header :=
  { h with compressionCode := 0, imageSize }

/-- The compression of indices does not count for the size of the palette. -/
theorem Header.colorCount_uncompressed {h : Header} {form : Runs.Form}
    (hcode : h.compressionCode = form.code) (imageSize : Nat) :
    (h.uncompressed imageSize).colorCount = h.colorCount := by
  have hplain : (h.uncompressed imageSize).compression = .none := rfl
  unfold colorCount
  rw [hplain]
  cases form with
  | eight => rw [show h.compression = .runs8 from congrArg Compression.ofCode hcode]; rfl
  | four => rw [show h.compression = .runs4 from congrArg Compression.ofCode hcode]; rfl

/-- Without compression, a picture with the same table has the same palette. -/
theorem Picture.palette_uncompressed {runs plain : Picture} {h : Header} {form : Runs.Form}
    {imageSize : Nat} (hcode : h.compressionCode = form.code)
    (hlength : plain.header.length = runs.header.length)
    (htable : plain.header.drop (Palette.tableStart h) =
      runs.header.drop (Palette.tableStart h)) (given : Option Palette) :
    plain.palette (h.uncompressed imageSize) given = runs.palette h given := by
  cases given with
  | some palette => rfl
  | none =>
      have hsame : Palette.ofBytes plain.header (h.uncompressed imageSize) =
          Palette.ofBytes runs.header h :=
        Palette.ofBytes_congr rfl (Header.colorCount_uncompressed hcode imageSize) hlength htable
      show (Palette.ofBytes plain.header _).mapError _ = _
      rw [hsame]
      rfl

/-- Take two bitmaps whose headers differ in the compression and in the size of the data only, and
which have the same colour table. One has indices as run-length data, the other has the same ones
in plain rows, the bottom row first. With any colours at all, both have the same image, in which
each pixel is painted by its index, and any encoder makes the same of them. Without colours
neither of them has an image. -/
theorem Picture.image_of_plainRows {runs plain : Picture} {h : Header} {form : Runs.Form}
    {imageSize : Nat} {indices : Array UInt8} (given : Option Palette)
    (hread : runs.readHeader = .ok h)
    (hread' : plain.readHeader = .ok (h.uncompressed imageSize))
    (hcode : h.compressionCode = form.code) (hdepth : h.bitCount = form.depth)
    (hbottom : h.isTopDown = false) (hlength : plain.header.length = runs.header.length)
    (htable : plain.header.drop (Palette.tableStart h) =
      runs.header.drop (Palette.tableStart h))
    (hdecode : Runs.decode form runs.bits h.columns h.rows = .ok indices)
    (hpacks : form.PacksRows (stride h.columns h.bitCount) (rowsOf indices h.columns h.rows)
      plain.bits) :
    (∀ palette, runs.palette h given = .ok palette → palette ≠ #[] →
      ∃ image, runs.image h given = .ok image ∧
        plain.image (h.uncompressed imageSize) given = .ok image ∧
        (∀ encode, plain.embed encode given = runs.embed encode given) ∧
        ∀ x < h.columns, ∀ y < h.rows, ∃ index,
          indices[(h.rows - 1 - y) * h.columns + x]? = some index ∧
          image.pixel? x y = some (.opaqueColor (palette.color index.toNat))) ∧
    ((∀ palette, runs.palette h given = .ok palette → palette = #[]) →
      (∃ cause, runs.image h given = .error cause) ∧
      (∃ cause, plain.image (h.uncompressed imageSize) given = .error cause) ∧
      ∀ encode, (runs.embed encode given).uri = placeholder ∧
        (plain.embed encode given).uri = placeholder) := by
  -- neither is a finished picture that is passed on as it is
  have hjpeg : h.compression ≠ .jpeg := by
    rw [Header.compression, hcode]
    cases form <;> decide
  have hpng : h.compression ≠ .png := by
    rw [Header.compression, hcode]
    cases form <;> decide
  have hplain : (h.uncompressed imageSize).compression = .none := rfl
  have hjpeg' : (h.uncompressed imageSize).compression ≠ .jpeg := by rw [hplain]; decide
  have hpng' : (h.uncompressed imageSize).compression ≠ .png := by rw [hplain]; decide
  have hsame : plain.palette (h.uncompressed imageSize) given = runs.palette h given :=
    palette_uncompressed hcode hlength htable given
  obtain ⟨hcolumns, hrows⟩ := (Runs.fits_iff _ _).1 (Runs.decode_eq_ok hdecode)
  have hsize := (Runs.decode_sound hdecode).1
  have hruns {palette : Palette} (hpalette : runs.palette h given = .ok palette) :
      runs.image h given =
        (Image.ofIndices indices h.columns h.rows palette).mapError .undecodable := by
    rw [image_of_runs hcode hpalette, runImage, hdecode]
    rfl
  refine ⟨fun palette hpalette hcolors => ?_, fun hempty => ?_⟩
  · -- with colours, both images are that of the indices
    have himage := (hruns hpalette).trans
      (mapError_eq_ok.2 (Image.ofIndices_of_enough hcolors (Nat.le_of_eq hsize.symm)))
    have himage' : plain.image (h.uncompressed imageSize) given = runs.image h given := by
      rw [image_of_plain rfl (hsame.trans hpalette), hruns hpalette]
      exact congrArg _
        (Image.ofBits_of_packsRows hcolumns hrows hdepth hbottom hsize hpacks hcolors)
    refine ⟨_, himage, himage'.trans himage, fun encode => ?_, fun x hx y hy =>
      Image.pixel?_ofIndices (mapError_eq_ok.1 ((hruns hpalette).symm.trans himage)) hx hy⟩
    rw [embed, embed, hread, hread']
    dsimp only
    rw [uri_of_decoded hjpeg hpng, uri_of_decoded hjpeg' hpng', himage']
    rfl
  · -- without, each way fails on its own
    have hsmall : h.bitCount ≤ 8 := hdepth ▸ form.depth_le
    obtain ⟨cause, hcause⟩ := image_of_runs_colorless hcode hempty
    obtain ⟨cause', hcause'⟩ := image_of_plain_colorless hplain hsmall
      fun palette hpalette => hempty palette (hsame.symm.trans hpalette)
    exact ⟨⟨cause, hcause⟩, ⟨cause', hcause'⟩, fun encode =>
      ⟨embed_of_error hread hjpeg hpng hcause encode,
        embed_of_error hread' hjpeg' hpng' hcause' encode⟩⟩

/-- Six pixels of four bits, with a run and given ones, have the same image as their plain rows,
where the bytes of the padding and half of the last byte of each row are arbitrary. -/
theorem Picture.image_of_plainRows_halves :
    let head (code size : UInt8) : Bytes :=
      [40, 0, 0, 0, 3, 0, 0, 0, 2, 0, 0, 0, 1, 0, 4, 0, code, 0, 0, 0, size, 0, 0, 0] ++
        List.replicate 8 0 ++ [2, 0, 0, 0] ++ List.replicate 4 0 ++
        [0, 0, 0, 0, 255, 255, 255, 0]
    let runs : Picture := ⟨head 2 10, [3, 0x01, 0, 0, 0, 3, 0x15, 0x00, 0, 1]⟩
    let plain : Picture := ⟨head 0 0, [0x01, 0x0E, 7, 8, 0x15, 0x0F, 9, 9, 5]⟩
    let h : Header := ⟨40, 3, 2, 1, 4, 2, 10, 0, 0, 2, 0⟩
    let indices : Array UInt8 := #[0, 1, 0, 1, 5, 0]
    runs.readHeader = .ok h ∧ plain.readHeader = .ok (h.uncompressed 0) ∧
      Runs.decode .four runs.bits h.columns h.rows = .ok indices ∧
      Runs.Form.four.PacksRows (stride h.columns h.bitCount) (rowsOf indices h.columns h.rows)
        plain.bits ∧
      runs.palette h none = .ok #[.black, .white] ∧
      ∃ image, runs.image h none = .ok image ∧
        plain.image (h.uncompressed 0) none = .ok image := by
  intro head runs plain h indices
  have hread : runs.readHeader = .ok h := by decide +kernel
  have hread' : plain.readHeader = .ok (h.uncompressed 0) := by decide +kernel
  have hdecode : Runs.decode .four runs.bits h.columns h.rows = .ok indices := by decide +kernel
  have hpalette : runs.palette h none = .ok #[.black, .white] := by decide +kernel
  have hrows : rowsOf indices h.columns h.rows = [[0, 1, 0], [1, 5, 0]] := by decide +kernel
  -- each row has two bytes of pixels and two bytes of padding
  have hpacks : Runs.Form.four.PacksRows (stride h.columns h.bitCount)
      (rowsOf indices h.columns h.rows)
      ([0x01, 0x0E] ++ ([7, 8] ++ ([0x15, 0x0F] ++ ([9, 9] ++ [5])))) := by
    rw [hrows]
    exact .cons ⟨rfl, rfl, rfl⟩ (by decide) (.cons ⟨rfl, rfl, rfl⟩ (by decide) (.nil _))
  have hsame := Picture.image_of_plainRows none hread hread' rfl rfl rfl rfl rfl hdecode hpacks
  obtain ⟨image, himage, himage', _⟩ := hsame.1 _ hpalette (by decide)
  exact ⟨hread, hread', hdecode, hpacks, hpalette, image, himage, himage'⟩

end Metafile.Bitmap
