import Metafile.Proofs.Bitmap.Drawing
import Metafile.Proofs.Bitmap.Samples
import Metafile.Proofs.Bytes.Written

/-!
# `Metafile.Proofs.Bitmap.ColorTables`: the colours of indices

A colour table follows the header of a bitmap, four bytes for each colour. `Palette.quad?` finds a
colour by its number, without reading those before it. A palette that is read has the first
colours of the table (`Palette.ofBytes_of_fits`).

Where the header does not give the number of colours, as many are read as the depth can tell
apart, but not more than the bitmap has pixels. So the index of a pixel is painted in its colour
of the table if it is below the number of pixels, and in black otherwise: `Picture.image_paletted`
says so of all three ways to store indices.
-/

set_option autoImplicit false

namespace Metafile

open Bytes (number?)
open Decode (Reads)

namespace Bitmap

/-! ### Reading a colour table -/

namespace Palette

variable {data : Bytes} {h : Header} {count : Nat}

/-- The colour with a number in a table, if all of its bytes exist. -/
def quad? (table : Bytes) (k : Nat) : Option Color :=
  match table.drop (4 * k) with
  | blue :: green :: red :: _ :: _ => some ⟨red, green, blue⟩
  | _ => none

/-- An entry of a table of colours has four bytes, the blue one first. The last one has no
meaning. -/
theorem reads_entry (blue green red reserved : UInt8) :
    Reads entry [blue, green, red, reserved] ⟨red, green, blue⟩ := by
  have hcolor : Reads entry [blue, green, red, reserved]
      ⟨UInt8.ofNat red.toNat, UInt8.ofNat green.toNat, UInt8.ofNat blue.toNat⟩ :=
    (Cursor.reads_u8 blue).bind <| (Cursor.reads_u8 green).bind <| (Cursor.reads_u8 red).bind <|
      (Cursor.reads_u8 reserved).map fun _ => _
  simpa only [UInt8.ofNat_toNat] using hcolor

/-- Colours that are read one after the other are those of the table. -/
theorem many_entry {c : Cursor} (hfits : 4 * count ≤ c.rest.length) :
    ∃ colors c', Cursor.many count entry c = .ok (colors, c') ∧ colors.length = count ∧
      ∀ k < count, colors[k]? = quad? c.rest k := by
  -- each entry takes four bytes off the front
  induction count generalizing c with
  | zero => exact ⟨[], c, rfl, rfl, nofun⟩
  | succ count ih =>
      obtain ⟨blue, green, red, reserved, rest, hrest⟩ :
          ∃ blue green red reserved rest, c.rest = blue :: green :: red :: reserved :: rest := by
        match c.rest, hfits with
        | blue :: green :: red :: reserved :: rest, _ => exact ⟨_, _, _, _, _, rfl⟩
        | [_, _, _], h | [_, _], h | [_], h | [], h =>
            simp only [List.length_cons, List.length_nil] at h
            omega
      obtain ⟨c', hentry, hrest'⟩ := reads_entry blue green red reserved c rest hrest
      rw [hrest] at hfits ⊢
      simp only [List.length_cons] at hfits
      obtain ⟨colors, c'', hmany, hlength, hcolors⟩ := @ih c' (by rw [hrest']; omega)
      refine ⟨⟨red, green, blue⟩ :: colors, c'', ?_, congrArg (· + 1) hlength, fun k hk => ?_⟩
      · show (entry c >>= fun p => (Cursor.many count entry p.2 >>= fun q =>
          .ok (p.1 :: q.1, q.2))) = _
        rw [hentry]
        show (Cursor.many count entry c' >>= _) = _
        rw [hmany]
        rfl
      · cases k with
        | zero => rfl
        | succ k =>
            rw [hrest'] at hcolors
            exact hcolors k (by omega)

/-- The place of the colour table of a bitmap. -/
def tableStart (h : Header) : Nat := max h.size Header.fieldBytes

/-- A palette has the first colours of the table, if they are all there. -/
theorem ofBytes_of_fits (hfits : tableStart h + 4 * h.colorCount ≤ data.length) :
    ∃ palette, ofBytes data h = .ok palette ∧ palette.size = h.colorCount ∧
      ∀ k < h.colorCount, palette[k]? = quad? (data.drop (tableStart h)) k := by
  have hstart : tableStart h ≤ data.length := by omega
  let c : Cursor := ⟨data, tableStart h, data.drop (tableStart h), hstart, rfl⟩
  have hseek : Cursor.seek (tableStart h) (Cursor.start data) = .ok ((), c) := dif_pos hstart
  have htable : 4 * h.colorCount ≤ c.rest.length := by
    show _ ≤ (data.drop (tableStart h)).length
    rw [List.length_drop]
    omega
  have hrequire : Cursor.require (h.colorCount * 4) c = .ok ((), c) :=
    Cursor.require_of_rest (List.append_nil c.rest).symm (by omega)
  -- the place of the table is there, and so are all of its entries
  obtain ⟨colors, c', hmany, hlength, hcolors⟩ := many_entry htable
  refine ⟨colors.toArray, ?_, hlength, fun k hk => ?_⟩
  · show (Cursor.seek (tableStart h) (Cursor.start data) >>= _) = _
    rw [hseek]
    show ((Cursor.require (h.colorCount * 4) c >>= _) >>= _) = _
    rw [hrequire]
    show ((Cursor.many h.colorCount entry c >>= _) >>= _) = _
    rw [hmany]
    rfl
  · rw [List.getElem?_toArray]
    exact hcolors k hk

/-- If they are not all there, it is the table that is cut short, or the bytes before it. -/
theorem ofBytes_of_short (hshort : data.length < tableStart h + 4 * h.colorCount) :
    ofBytes data h = .error (.outOfBounds (.span data.length (tableStart h)
      (if tableStart h ≤ data.length then h.colorCount * 4 else 0))) := by
  -- either the table is too long, or the data end before it
  by_cases hstart : tableStart h ≤ data.length
  · let c : Cursor := ⟨data, tableStart h, data.drop (tableStart h), hstart, rfl⟩
    have hseek : Cursor.seek (tableStart h) (Cursor.start data) = .ok ((), c) := dif_pos hstart
    have hrequire : Cursor.require (h.colorCount * 4) c =
        .error (.outOfBounds (.span data.length (tableStart h) (h.colorCount * 4))) :=
      Cursor.require_of_exceeds (by
        show data.length < tableStart h + h.colorCount * 4
        omega)
    show (Cursor.seek (tableStart h) (Cursor.start data) >>= _) = _
    rw [hseek, if_pos hstart]
    show ((Cursor.require (h.colorCount * 4) c >>= _) >>= _) = _
    rw [hrequire]
    rfl
  · have hseek : Cursor.seek (tableStart h) (Cursor.start data) =
        .error (.outOfBounds (.span data.length (tableStart h) 0)) := dif_neg hstart
    show (Cursor.seek (tableStart h) (Cursor.start data) >>= _) = _
    rw [hseek, if_neg hstart]
    rfl

/-- A palette depends on the bytes behind the header and on what the header says about them. -/
theorem ofBytes_congr {data' : Bytes} {h' : Header} (hsize : h'.size = h.size)
    (hcount : h'.colorCount = h.colorCount) (hlength : data'.length = data.length)
    (htable : data'.drop (tableStart h) = data.drop (tableStart h)) :
    ofBytes data' h' = ofBytes data h := by
  have hstart : tableStart h' = tableStart h := congrArg (max · Header.fieldBytes) hsize
  -- only the place of the table, its length and its entries are looked at
  by_cases hfits : tableStart h + 4 * h.colorCount ≤ data.length
  · obtain ⟨palette, hread, hmany, hcolors⟩ := ofBytes_of_fits hfits
    obtain ⟨palette', hread', hmany', hcolors'⟩ :=
      @ofBytes_of_fits data' h' (by rw [hstart, hcount, hlength]; exact hfits)
    rw [hcount] at hmany' hcolors'
    rw [hstart, htable] at hcolors'
    rw [hread, hread']
    refine congrArg Except.ok (Array.ext_getElem? fun k => ?_)
    by_cases hk : k < h.colorCount
    · rw [hcolors k hk, hcolors' k hk]
    · rw [Array.getElem?_eq_none (by omega), Array.getElem?_eq_none (by omega)]
  · rw [ofBytes_of_short (Nat.lt_of_not_le hfits), ofBytes_of_short (by omega), hstart, hcount,
      hlength]

end Palette

/-! ### Images of indices -/

/-- A pixel of an image of indices. The indices are given row by row from the bottom. -/
theorem Image.pixel?_ofIndices {indices : Array UInt8} {width height x y : Nat}
    {palette : Palette} {image : Image}
    (h : Image.ofIndices indices width height palette = .ok image) (hx : x < width)
    (hy : y < height) :
    ∃ index, indices[(height - 1 - y) * width + x]? = some index ∧
      image.pixel? x y = some (.opaqueColor (palette.color index.toNat)) := by
  obtain ⟨henough, rfl⟩ := Image.ofIndices_eq_ok h
  -- the rows of indices begin at the bottom
  have hplace : (height - 1 - y) * width + x < indices.size :=
    Nat.lt_of_lt_of_le (Runs.place_lt hx (by omega)) henough
  have hrow : ((rowOrder false height).map (Image.indexRow indices width palette))[y]? =
      some (Image.indexRow indices width palette (height - 1 - y)) := by
    rw [List.getElem?_map, getElem?_rowOrder hy]
    rfl
  refine ⟨_, Array.getElem?_eq_getElem hplace, (Grid.of_indices henough).pixel? hrow ?_⟩
  have hinside : x < min ((height - 1 - y) * width + width) indices.size -
      (height - 1 - y) * width := by omega
  rw [Image.indexRow, List.getElem?_map, Array.getElem?_toList, Array.getElem?_extract,
    if_pos hinside, Array.getElem?_eq_getElem hplace]
  rfl

namespace Picture

variable {p : Picture} {h : Header} {palette : Palette} {given : Option Palette}

/-- Where nothing is compressed, the image is made from the bits as they are. -/
theorem image_of_plain (hstored : h.compression = .none)
    (hpalette : p.palette h given = .ok palette) :
    p.image h given = (Image.ofBits h palette p.bits).mapError .undecodable := by
  unfold image
  rw [hpalette, hstored]
  rfl

/-- Runs of bytes are drawn before the image is made. -/
theorem image_of_runs8 (hstored : h.compression = .runs8)
    (hpalette : p.palette h given = .ok palette) :
    p.image h given = (p.runImage h .eight palette).mapError .undecodable := by
  unfold image
  rw [hpalette, hstored]
  rfl

/-- So are runs of half bytes. -/
theorem image_of_runs4 (hstored : h.compression = .runs4)
    (hpalette : p.palette h given = .ok palette) :
    p.image h given = (p.runImage h .four palette).mapError .undecodable := by
  unfold image
  rw [hpalette, hstored]
  rfl

/-- The index that run-length data has for a pixel. -/
def runIndex? (p : Picture) (h : Header) (form : Runs.Form) (x y : Nat) : Option Nat :=
  match Runs.decode form p.bits h.columns h.rows with
  | .ok indices => indices[(h.rows - 1 - y) * h.columns + x]?.map UInt8.toNat
  | .error _ => none

/-- The index of the pixel in a column and a row from the top. -/
def index? (p : Picture) (h : Header) (x y : Nat) : Option Nat :=
  match h.compression with
  | .runs8 => p.runIndex? h .eight x y
  | .runs4 => p.runIndex? h .four x y
  | _ => number? p.bits (h.place x y) h.bitCount

/-- The indices of all pixels are there. -/
def HasIndices (p : Picture) (h : Header) : Prop :=
  match h.compression with
  | .runs8 => ∃ indices, Runs.decode .eight p.bits h.columns h.rows = .ok indices
  | .runs4 => ∃ indices, Runs.decode .four p.bits h.columns h.rows = .ok indices
  | _ => stride h.columns h.bitCount * h.rows ≤ p.bits.length

/-- Run-length data that can be drawn has an image, and its pixels are painted by their indices.
-/
theorem runImage_indexed (form : Runs.Form) (hpalette : palette ≠ #[]) :
    ((∃ image, p.runImage h form palette = .ok image) ↔
      ∃ indices, Runs.decode form p.bits h.columns h.rows = .ok indices) ∧
    ∀ image, p.runImage h form palette = .ok image → ∀ x < h.columns, ∀ y < h.rows,
      ∃ k, p.runIndex? h form x y = some k ∧
        image.pixel? x y = some (.opaqueColor (palette.color k)) := by
  unfold runImage runIndex?
  cases hdecode : Runs.decode form p.bits h.columns h.rows with
  | error cause =>
      refine ⟨⟨?_, ?_⟩, ?_⟩
      · rintro ⟨image, himage⟩
        cases himage
      · rintro ⟨indices, hindices⟩
        cases hindices
      · intro image himage
        cases himage
  | ok indices =>
      have hsize := (Runs.decode_sound hdecode).1
      refine ⟨⟨fun _ => ⟨indices, rfl⟩, fun _ => ⟨_, Image.ofIndices_of_enough hpalette
        (Nat.le_of_eq hsize.symm)⟩⟩, fun image himage x hx y hy => ?_⟩
      obtain ⟨index, hindex, hpixel⟩ := Image.pixel?_ofIndices himage hx hy
      refine ⟨index.toNat, ?_, hpixel⟩
      show indices[(h.rows - 1 - y) * h.columns + x]?.map UInt8.toNat = _
      rw [hindex]
      rfl

/-- The same holds of indices without compression. -/
theorem ofBits_indexed (hcolumns : 1 ≤ h.columns ∧ h.columns ≤ 4096)
    (hrows : 1 ≤ h.rows ∧ h.rows ≤ 4096) (hdepth : h.bitCount ∈ [1, 4, 8])
    (hpalette : palette ≠ #[]) :
    ((∃ image, Image.ofBits h palette p.bits = .ok image) ↔
      stride h.columns h.bitCount * h.rows ≤ p.bits.length) ∧
    ∀ image, Image.ofBits h palette p.bits = .ok image → ∀ x < h.columns, ∀ y < h.rows,
      ∃ k, number? p.bits (h.place x y) h.bitCount = some k ∧
        image.pixel? x y = some (.opaqueColor (palette.color k)) := by
  have hsmall : h.bitCount ≤ 8 := by
    simp only [List.mem_cons, List.not_mem_nil, or_false] at hdepth
    omega
  have hdepth' : h.bitCount ∈ [1, 4, 8, 16, 24, 32] := List.mem_append_left [16, 24, 32] hdepth
  refine ⟨⟨?_, fun hbits => ?_⟩, fun image himage x hx y hy => ?_⟩
  · rintro ⟨image, himage⟩
    exact (Header.accepts_of_ofBits himage).bits
  · exact ⟨_, Header.ofBits_of_accepts ⟨hcolumns, hrows, hdepth', fun _ => hpalette, hbits⟩⟩
  · have hok := Header.accepts_of_ofBits himage
    rw [Header.ofBits_of_accepts hok] at himage
    obtain rfl := Except.ok.inj himage
    obtain ⟨stored, hsample, _, hopaque⟩ := Header.pixel?_of_accepts hok hx hy
    rw [Header.sample?, sample?_of_index hsmall, Option.map_eq_some_iff] at hsample
    obtain ⟨k, hk, rfl⟩ := hsample
    -- no sample of eight bits or fewer has an opacity
    have halpha : ¬h.HasAlpha p.bits := fun halpha => by
      have hdeep := halpha.1
      omega
    exact ⟨k, hk, hopaque halpha⟩

/-- A bitmap of indices has an image exactly if all of its indices are there. Its pixels are then
painted in the colours of their indices. -/
theorem image_indexed (hcolumns : 1 ≤ h.columns ∧ h.columns ≤ 4096)
    (hrows : 1 ≤ h.rows ∧ h.rows ≤ 4096) (hdepth : h.bitCount ∈ [1, 4, 8])
    (hstored : h.compression ∈ [.none, .runs8, .runs4])
    (hpalette : p.palette h given = .ok palette) (hcolors : palette ≠ #[]) :
    ((∃ image, p.image h given = .ok image) ↔ p.HasIndices h) ∧
    ∀ image, p.image h given = .ok image → ∀ x < h.columns, ∀ y < h.rows,
      ∃ k, p.index? h x y = some k ∧
        image.pixel? x y = some (.opaqueColor (palette.color k)) := by
  unfold HasIndices index?
  simp only [List.mem_cons, List.not_mem_nil, or_false] at hstored
  rcases hstored with hstored | hstored | hstored
  · simp only [image_of_plain hstored hpalette, hstored, mapError_eq_ok]
    exact ofBits_indexed hcolumns hrows hdepth hcolors
  · simp only [image_of_runs8 hstored hpalette, hstored, mapError_eq_ok]
    exact runImage_indexed .eight hcolors
  · simp only [image_of_runs4 hstored hpalette, hstored, mapError_eq_ok]
    exact runImage_indexed .four hcolors

end Picture

/-! ### Colours of the table -/

/-- Where the header gives no number, there are as many colours as the depth can tell apart, but
not more than pixels. -/
theorem Header.colorCount_of_unused {h : Header} (hdepth : h.bitCount ∈ [1, 4, 8])
    (hstored : h.compression ∈ [.none, .runs8, .runs4]) (hused : h.colorsUsed = 0) :
    h.colorCount = min (2 ^ h.bitCount) (h.columns * h.rows) := by
  have hlimit : h.paletteLimit = 2 ^ h.bitCount := by
    simp only [List.mem_cons, List.not_mem_nil, or_false] at hdepth
    unfold paletteLimit
    rcases hdepth with hdepth | hdepth | hdepth <;> rw [hdepth] <;> rfl
  simp only [List.mem_cons, List.not_mem_nil, or_false] at hstored
  unfold colorCount
  rcases hstored with hstored | hstored | hstored <;> simp [hstored, hused, hlimit]

/-- Take an indexed bitmap whose dimensions can be shown, without a number of colours in its
header and with a whole colour table behind it. Its palette is read, and there is an image exactly
if all indices are there. A pixel is painted in the colour of the table that its index names, if
there are more pixels than that; the other indices are painted black, and so are those behind the
table. -/
theorem Picture.image_paletted (p : Picture) (h : Header)
    (hcolumns : 1 ≤ h.columns ∧ h.columns ≤ 4096) (hrows : 1 ≤ h.rows ∧ h.rows ≤ 4096)
    (hdepth : h.bitCount ∈ [1, 4, 8]) (hstored : h.compression ∈ [.none, .runs8, .runs4])
    (hused : h.colorsUsed = 0)
    (htable : Palette.tableStart h + 4 * 2 ^ h.bitCount ≤ p.header.length) :
    ((∃ image, p.image h none = .ok image) ↔ p.HasIndices h) ∧
    ∀ image, p.image h none = .ok image → ∀ x < h.columns, ∀ y < h.rows,
      ∃ k color, p.index? h x y = some k ∧ image.pixel? x y = some (.opaqueColor color) ∧
        (k < 2 ^ h.bitCount → k < h.columns * h.rows →
          Palette.quad? (p.header.drop (Palette.tableStart h)) k = some color) ∧
        (2 ^ h.bitCount ≤ k ∨ h.columns * h.rows ≤ k → color = .black) := by
  -- the table has an entry for each index, as far as there are pixels
  have hcount := Header.colorCount_of_unused hdepth hstored hused
  have hpos : 0 < h.columns * h.rows := Nat.mul_pos hcolumns.1 hrows.1
  have hfits : Palette.tableStart h + 4 * h.colorCount ≤ p.header.length := by omega
  obtain ⟨palette, hread, hsize, hcolor⟩ := Palette.ofBytes_of_fits hfits
  have hpalette : p.palette h none = .ok palette := by
    show (Palette.ofBytes p.header h).mapError Fault.asUndecodable = _
    rw [hread]
    rfl
  -- a table of one colour or more is not empty
  have hcolors : palette ≠ #[] := by
    rintro rfl
    have hone : 0 < 2 ^ h.bitCount := Nat.two_pow_pos _
    simp only [List.size_toArray, List.length_nil] at hsize
    omega
  obtain ⟨hexists, hpixels⟩ := p.image_indexed hcolumns hrows hdepth hstored hpalette hcolors
  refine ⟨hexists, fun image himage x hx y hy => ?_⟩
  obtain ⟨k, hindex, hpixel⟩ := hpixels image himage x hx y hy
  refine ⟨k, palette.color k, hindex, hpixel, fun hdeep harea => ?_, fun hpast => ?_⟩
  · have hlt : k < palette.size := by omega
    rw [← hcolor k (by omega), Palette.color, Array.getElem?_eq_getElem hlt]
    rfl
  · -- an index past the table is black
    rw [Palette.color, Array.getElem?_eq_none (by omega)]
    rfl

/-- Six pixels of 4 bits: the colour of index 5 is that of the table, and index 6 is painted black
although the table has a colour for it. -/
theorem Picture.image_paletted_six :
    let h : Header := ⟨40, 3, 2, 1, 4, 0, 0, 0, 0, 0, 0⟩
    let table : Bytes := (List.range 16).flatMap fun k => [UInt8.ofNat k, 0, 200, 0]
    let p : Picture := ⟨List.replicate 40 0 ++ table, [0x01, 0x20, 0, 0, 0x56, 0x70, 0, 0]⟩
    ∃ image, p.image h none = .ok image ∧ image.pixel? 0 0 = some (.opaqueColor ⟨200, 0, 5⟩) ∧
      Palette.quad? table 6 = some ⟨200, 0, 6⟩ ∧
      image.pixel? 1 0 = some (.opaqueColor .black) := by
  intro h table p
  obtain ⟨hexists, hpixels⟩ := p.image_paletted h (by decide) (by decide) (by decide) (by decide)
    rfl (by decide)
  obtain ⟨image, himage⟩ := hexists.2 (show stride 3 4 * 2 ≤ 8 by decide)
  obtain ⟨k, color, hk, hpixel, hcolor, _⟩ := hpixels image himage 0 (by decide) 0 (by decide)
  obtain ⟨k', color', hk', hpixel', _, hblack⟩ := hpixels image himage 1 (by decide) 0 (by decide)
  obtain rfl : k = 5 := Option.some.inj (hk.symm.trans (by decide))
  obtain rfl : k' = 6 := Option.some.inj (hk'.symm.trans (by decide))
  obtain rfl : color = ⟨200, 0, 5⟩ :=
    Option.some.inj ((hcolor (by decide) (by decide)).symm.trans (by decide))
  obtain rfl : color' = .black := hblack (Or.inr (by decide))
  exact ⟨image, himage, hpixel, by decide, hpixel'⟩

/-- One pixel of one bit, with a table of black and white: its index 1 is white in the table, and
yet it is painted black. -/
theorem Picture.second_color_of_one_pixel :
    let p : Picture :=
      ⟨[40, 0, 0, 0, 1, 0, 0, 0, 1, 0, 0, 0, 1, 0, 1, 0] ++ List.replicate 24 0 ++
        [0, 0, 0, 0, 255, 255, 255, 0], [0x80, 0, 0, 0]⟩
    ∃ h image, p.readHeader = .ok h ∧ h.columns = 1 ∧ h.rows = 1 ∧ h.bitCount = 1 ∧
      h.compression = .none ∧ h.colorsUsed = 0 ∧
      Palette.tableStart h + 4 * 2 ^ h.bitCount = p.header.length ∧
      p.image h none = .ok image ∧ p.index? h 0 0 = some 1 ∧
      Palette.quad? (p.header.drop (Palette.tableStart h)) 1 = some .white ∧
      image.pixel? 0 0 = some (.opaqueColor .black) := by
  intro p
  refine ⟨⟨40, 1, 1, 1, 1, 0, 0, 0, 0, 0, 0⟩, ⟨1, 1, [0, 0, 0, 255]⟩, ?_⟩
  have hread : p.readHeader = .ok ⟨40, 1, 1, 1, 1, 0, 0, 0, 0, 0, 0⟩ := by decide +kernel
  have himage : p.image ⟨40, 1, 1, 1, 1, 0, 0, 0, 0, 0, 0⟩ none = .ok ⟨1, 1, [0, 0, 0, 255]⟩ := by
    decide +kernel
  exact ⟨hread, rfl, rfl, rfl, rfl, rfl, rfl, himage, rfl, rfl, rfl⟩

end Bitmap

end Metafile
