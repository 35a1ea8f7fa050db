import Mathlib.Order.Bounds.Basic
import Metafile.Proofs.Bitmap.Consistent
import Metafile.Proofs.Bytes.Bits

/-!
# `Metafile.Proofs.Bitmap.Samples`: which bits of an uncompressed bitmap make which pixel

`Header.sample?` says what a pixel is without rows and without bytes: the number that so many bits
from a place on stand for, looked up in the palette, or the colour parts that lie there. It is
undefined where a bit does not exist.

Each pixel of a row is its sample (`sample?_row`), because a pixel of less than eight bits lies
within one byte, and all of them lie before the padding. `Image.ofBits_pixels` is the result: when
there is an image, that each of its pixels is its sample, and that no other bits count.
-/

set_option autoImplicit false

namespace Metafile.Bitmap

open Bytes (bit? number? number?_byte number?_congr number?_of_byte)

/-! ### The pixels of an image -/

/-- The pixel in a column and a row of an image, if all of its bytes exist. -/
def Image.pixel? (image : Image) (x y : Nat) : Option Pixel := do
  let place := 4 * (image.width * y + x)
  let red ← image.rgba[place]?
  let green ← image.rgba[place + 1]?
  let blue ← image.rgba[place + 2]?
  let alpha ← image.rgba[place + 3]?
  return ⟨⟨red, green, blue⟩, alpha⟩

/-- A place in equally long lists that stand one after the other. -/
theorem getElem?_flatMap_const {α β : Type} {f : α → List β} {n : Nat} {xs : List α}
    (h : ∀ x ∈ xs, (f x).length = n) {i j : Nat} (hj : j < n) {x : α} (hx : xs[i]? = some x) :
    (xs.flatMap f)[n * i + j]? = (f x)[j]? := by
  -- each list in front takes its length off the index
  induction xs generalizing i with
  | nil => simp at hx
  | cons first rest ih =>
      obtain ⟨hfirst, hrest⟩ := List.forall_mem_cons.1 h
      rw [List.flatMap_cons]
      cases i with
      | zero =>
          obtain rfl : first = x := by simpa using hx
          rw [Nat.mul_zero, Nat.zero_add, List.getElem?_append_left (by omega)]
      | succ i =>
          have hpast : n * (i + 1) + j - (f first).length = n * i + j := by
            rw [hfirst, Nat.mul_succ]
            omega
          have hbehind : (f first).length ≤ n * (i + 1) + j := by
            rw [hfirst, Nat.mul_succ]
            omega
          rw [List.getElem?_append_right hbehind, hpast]
          exact ih hrest (by simpa using hx)

/-- The pixels of an image are those of its rows. -/
theorem Grid.pixel? {width height x y : Nat} {rows : List (List Pixel)} {row : List Pixel}
    {p : Pixel} (h : Grid width height rows) (hrow : rows[y]? = some row)
    (hp : row[x]? = some p) :
    (Image.ofRows width height rows).pixel? x y = some p := by
  have hmem : row ∈ rows := List.mem_of_getElem? hrow
  have hx : x < width := by
    have hlt := (List.getElem?_eq_some_iff.1 hp).1
    rwa [h.width row hmem] at hlt
  have hlength : ∀ row ∈ rows, (row.flatMap Pixel.bytes).length = 4 * width := by
    intro row hmem
    rw [← h.width row hmem]
    exact length_flatMap_const fun _ _ => rfl
  -- a pixel is four bytes, and a row so many times four
  have hbyte : ∀ j < 4, (rows.flatMap fun row => row.flatMap Pixel.bytes)[
      4 * (width * y + x) + j]? = p.bytes[j]? := by
    intro j hj
    have hplace : 4 * (width * y + x) + j = 4 * width * y + (4 * x + j) := by
      rw [Nat.mul_add, Nat.mul_assoc, Nat.add_assoc]
    rw [hplace, getElem?_flatMap_const hlength (by omega) hrow,
      getElem?_flatMap_const (f := Pixel.bytes) (fun _ _ => rfl) hj hp]
  have hred := hbyte 0 (by decide)
  rw [Nat.add_zero] at hred
  simp only [Image.pixel?, Image.ofRows, hred, hbyte 1 (by decide), hbyte 2 (by decide),
    hbyte 3 (by decide)]
  rfl

/-- The rows of an image from the top. -/
theorem getElem?_rowOrder {topDown : Bool} {rows y : Nat} (hy : y < rows) :
    (rowOrder topDown rows)[y]? = some (if topDown then y else rows - 1 - y) := by
  cases topDown with
  | true => simp [rowOrder, hy]
  | false => simp [rowOrder, hy]

/-! ### Samples -/

/-- A colour part of five bits on the scale of eight, rounded down. -/
def scaled (part : Nat) : UInt8 := UInt8.ofNat (part * 255 / 31)

/-- The pixel whose bits start at an offset. Up to eight bits are the index of a colour. Of 16
bits, the lower byte comes first, and red, green and blue have five bits each. Of 24 and of 32
bits, blue comes first, then green, red and the opacity. -/
def sample? (palette : Palette) (bitCount : Nat) (bits : Bytes) (offset : Nat) : Option Pixel :=
  match bitCount with
  | 16 => do
    let low ← number? bits offset 8
    let high ← number? bits (offset + 8) 8
    let value := low + 256 * high
    return .opaqueColor
      ⟨scaled (value / 1024 % 32), scaled (value / 32 % 32), scaled (value % 32)⟩
  | 24 => do
    let blue ← number? bits offset 8
    let green ← number? bits (offset + 8) 8
    let red ← number? bits (offset + 16) 8
    return .opaqueColor ⟨UInt8.ofNat red, UInt8.ofNat green, UInt8.ofNat blue⟩
  | 32 => do
    let blue ← number? bits offset 8
    let green ← number? bits (offset + 8) 8
    let red ← number? bits (offset + 16) 8
    let alpha ← number? bits (offset + 24) 8
    return ⟨⟨UInt8.ofNat red, UInt8.ofNat green, UInt8.ofNat blue⟩, UInt8.ofNat alpha⟩
  | _ => do
    let index ← number? bits offset bitCount
    return .opaqueColor (palette.color index)

namespace Header

variable {h : Header} {palette : Palette} {bits bits' : Bytes} {x y k : Nat}

/-- The row of the data that is shown in a row from the top. -/
def storedRow (h : Header) (y : Nat) : Nat :=
  if h.height < 0 then y else h.rows - 1 - y

/-- The bit at which a pixel starts. -/
def place (h : Header) (x y : Nat) : Nat :=
  8 * (stride h.columns h.bitCount * h.storedRow y) + x * h.bitCount

/-- The pixel that the data has for a column and a row from the top. -/
def sample? (h : Header) (palette : Palette) (bits : Bytes) (x y : Nat) : Option Pixel :=
  Bitmap.sample? palette h.bitCount bits (h.place x y)

/-- Some pixel of 32 bits is not fully transparent. -/
def HasAlpha (h : Header) (bits : Bytes) : Prop :=
  h.bitCount = 32 ∧ ∃ x < h.columns, ∃ y < h.rows, ∃ alpha,
    number? bits (h.place x y + 24) 8 = some alpha ∧ alpha ≠ 0

/-- What is needed for an image: dimensions and a depth that can be shown, colours for indices,
and all rows. -/
structure Accepts (h : Header) (palette : Palette) (bits : Bytes) : Prop where
  columns : 1 ≤ h.columns ∧ h.columns ≤ 4096
  rows : 1 ≤ h.rows ∧ h.rows ≤ 4096
  depth : h.bitCount ∈ [1, 4, 8, 16, 24, 32]
  palette : h.bitCount ≤ 8 → palette ≠ #[]
  bits : stride h.columns h.bitCount * h.rows ≤ bits.length

/-- A row of the data as pixels. -/
def row (h : Header) (palette : Palette) (bits : Bytes) (k : Nat) : List Pixel :=
  let width := stride h.columns h.bitCount
  (List.range h.columns).map
    (pixelAt palette h.bitCount (bits.toArray.extract (k * width) (k * width + width)))

/-- The rows of the image before the opacity is looked at. -/
def imageRows (h : Header) (palette : Palette) (bits : Bytes) : List (List Pixel) :=
  (rowOrder h.isTopDown h.rows).map (h.row palette bits)

/-- What is checked, one after the other, and what comes out in the end. -/
theorem ofBits_eq (h : Header) (palette : Palette) (bits : Bytes) :
    Image.ofBits h palette bits =
      if fits h.columns h.rows = false then .error (.dimensions h.columns h.rows)
      else if (h.bitCount ≤ 8 && palette.isEmpty) = true then
        .error (.depthWithoutPalette h.bitCount)
      else if supportedDepths.contains h.bitCount = false then
        .error (.unsupportedDepth h.bitCount)
      else if bits.length < stride h.columns h.bitCount * h.rows then
        .error (.tooFewBytes bits.length (stride h.columns h.bitCount * h.rows))
      else
        .ok (Image.ofRows h.columns h.rows
          (resolveAlpha h.bitCount (h.imageRows palette bits))) := by
  -- the checks of the dimensions, the palette, the depth and the size, in their order
  unfold Image.ofBits checkDimensions
  cases fits h.columns h.rows with
  | false => rfl
  | true =>
      cases (h.bitCount ≤ 8 && palette.isEmpty : Bool) with
      | true => rfl
      | false =>
          cases supportedDepths.contains h.bitCount with
          | false => rfl
          | true =>
              by_cases hsize : bits.length < stride h.columns h.bitCount * h.rows
              · simp only [if_pos hsize]
                rfl
              · simp only [if_neg hsize]
                rfl

/-- An image is made exactly if nothing is wrong with what is checked. -/
theorem accepts_iff :
    h.Accepts palette bits ↔ fits h.columns h.rows = true ∧
      (h.bitCount ≤ 8 && palette.isEmpty : Bool) = false ∧
      supportedDepths.contains h.bitCount = true ∧
      ¬bits.length < stride h.columns h.bitCount * h.rows := by
  have hfits : fits h.columns h.rows = true ↔
      (1 ≤ h.columns ∧ h.columns ≤ 4096) ∧ 1 ≤ h.rows ∧ h.rows ≤ 4096 := by
    simp only [fits, Bool.and_eq_true, bne_iff_ne, ne_eq, decide_eq_true_eq]
    unfold limit
    omega
  have hpalette : (h.bitCount ≤ 8 && palette.isEmpty : Bool) = false ↔
      (h.bitCount ≤ 8 → palette ≠ #[]) := by
    simp [Array.isEmpty_eq_false_iff]
  have hdepth : supportedDepths.contains h.bitCount = true ↔
      h.bitCount ∈ [1, 4, 8, 16, 24, 32] := List.contains_iff_mem
  rw [hfits, hpalette, hdepth, Nat.not_lt]
  constructor
  · rintro ⟨hcolumns, hrows, hdepth, hpalette, hbits⟩
    exact ⟨⟨hcolumns, hrows⟩, hpalette, hdepth, hbits⟩
  · rintro ⟨⟨hcolumns, hrows⟩, hpalette, hdepth, hbits⟩
    exact ⟨hcolumns, hrows, hdepth, hpalette, hbits⟩

/-- Bits that are accepted give the image of their rows, with the opacity settled at the end. -/
theorem ofBits_of_accepts (hok : h.Accepts palette bits) :
    Image.ofBits h palette bits = .ok (Image.ofRows h.columns h.rows
      (resolveAlpha h.bitCount (h.imageRows palette bits))) := by
  obtain ⟨hfits, hpalette, hdepth, hbits⟩ := accepts_iff.1 hok
  rw [ofBits_eq, hfits, hpalette, hdepth, if_neg hbits]
  rfl

/-- Only bits that are accepted give an image. -/
theorem accepts_of_ofBits {image : Image} (hok : Image.ofBits h palette bits = .ok image) :
    h.Accepts palette bits := by
  rw [ofBits_eq] at hok
  split at hok
  · cases hok
  · split at hok
    · cases hok
    · split at hok
      · cases hok
      · split at hok
        · cases hok
        · rename_i hfits hpalette hdepth hbits
          exact accepts_iff.2 ⟨Bool.of_not_eq_false hfits, Bool.of_not_eq_true hpalette,
            Bool.of_not_eq_false hdepth, hbits⟩

end Header

/-! ### Pixels of a row -/

section Row

variable {palette : Palette} {bits : Bytes} {bitCount start width x : Nat}

/-- Up to eight bits are the index of a colour. -/
theorem sample?_of_index {offset : Nat} (h : bitCount ≤ 8) :
    sample? palette bitCount bits offset =
      (number? bits offset bitCount).map fun index => .opaqueColor (palette.color index) := by
  unfold sample?
  split
  · omega
  · omega
  · omega
  · cases number? bits offset bitCount <;> rfl

/-- A sample depends on its own bits only. -/
theorem sample?_congr {bits' : Bytes} {offset : Nat}
    (h : ∀ i < bitCount, bit? bits' (offset + i) = bit? bits (offset + i)) :
    sample? palette bitCount bits' offset = sample? palette bitCount bits offset := by
  have hpart (start count : Nat) (hinside : start + count ≤ bitCount) :
      number? bits' (offset + start) count = number? bits (offset + start) count :=
    number?_congr fun i hi => by
      rw [Nat.add_assoc]
      exact h _ (by omega)
  have hfirst (count : Nat) (hinside : count ≤ bitCount) :
      number? bits' offset count = number? bits offset count :=
    number?_congr fun i hi => h i (by omega)
  unfold sample?
  split
  · rw [hfirst 8 (by decide), hpart 8 8 (by decide)]
  · rw [hfirst 8 (by decide), hpart 8 8 (by decide), hpart 16 8 (by decide)]
  · rw [hfirst 8 (by decide), hpart 8 8 (by decide), hpart 16 8 (by decide),
      hpart 24 8 (by decide)]
  · rw [hfirst bitCount (Nat.le_refl _)]

/-- The upper half of a byte as a number. -/
theorem toNat_upper (b : UInt8) : (Runs.upper b).toNat = b.toNat / 2 ^ 4 % 2 ^ 4 := by
  have hlt := b.toNat_lt
  rw [Runs.upper, UInt8.toNat_div]
  show b.toNat / 16 = b.toNat / 16 % 16
  omega

/-- The lower half of a byte as a number. -/
theorem toNat_lower (b : UInt8) : (Runs.lower b).toNat = b.toNat % 2 ^ 4 := by
  rw [Runs.lower, UInt8.toNat_mod]
  rfl

/-- A byte of a row is one of the data. -/
theorem getElem?_rowByte {i : Nat} (hi : i < width) (hrow : start + width ≤ bits.length) :
    bits[start + i]? = some ((bits.toArray.extract start (start + width)).getD i 0) := by
  have hlt : start + i < bits.length := by omega
  have hbyte : (bits.toArray.extract start (start + width))[i]? = bits[start + i]? := by
    rw [Array.getElem?_extract, if_pos (by simp only [List.size_toArray]; omega),
      List.getElem?_toArray]
  rw [Array.getD_eq_getD_getElem?, hbyte, List.getElem?_eq_getElem hlt]
  rfl

/-- Eight bits at the beginning of a byte of a row. -/
theorem number?_rowByte {i offset : Nat} (hi : i < width) (hrow : start + width ≤ bits.length)
    (hoffset : offset = 8 * start + 8 * i) :
    number? bits offset 8 =
      some ((bits.toArray.extract start (start + width)).getD i 0).toNat := by
  rw [hoffset, ← Nat.mul_add, number?_byte, getElem?_rowByte hi hrow]
  rfl

/-- A pixel of a row that lies within one byte. -/
theorem number?_rowIndex (hx : (x + 1) * bitCount ≤ 8 * width)
    (hrow : start + width ≤ bits.length) (hsmall : x * bitCount % 8 + bitCount ≤ 8)
    (hpos : 0 < bitCount) :
    number? bits (8 * start + x * bitCount) bitCount =
      some (((bits.toArray.extract start (start + width)).getD (x * bitCount / 8) 0).toNat /
        2 ^ (8 - (x * bitCount % 8 + bitCount)) % 2 ^ bitCount) := by
  have hplace : (8 * start + x * bitCount) / 8 = start + x * bitCount / 8 := by omega
  have hshift : (8 * start + x * bitCount) % 8 = x * bitCount % 8 := by omega
  rw [Nat.succ_mul] at hx
  rw [number?_of_byte (by rw [hplace, getElem?_rowByte (by omega) hrow]) (by omega), hshift]

/-- Each pixel of a row is its sample: all of its bits exist. -/
theorem sample?_row (hdepth : bitCount ∈ [1, 4, 8, 16, 24, 32])
    (hx : (x + 1) * bitCount ≤ 8 * width) (hrow : start + width ≤ bits.length) :
    sample? palette bitCount bits (8 * start + x * bitCount) =
      some (pixelAt palette bitCount (bits.toArray.extract start (start + width)) x) := by
  have hindex := number?_rowIndex hx hrow
  -- the bytes of a larger pixel lie side by side
  have hpart (i : Nat) (hi : i < width) (offset : Nat) (hoffset : offset = 8 * start + 8 * i) :=
    number?_rowByte hi hrow hoffset
  simp only [List.mem_cons, List.not_mem_nil, or_false] at hdepth
  rcases hdepth with rfl | rfl | rfl | rfl | rfl | rfl
  · have hshift : 8 - (x * 1 % 8 + 1) = 7 - x % 8 := by omega
    rw [sample?_of_index (by decide), hindex (by omega) (by decide), hshift, Nat.mul_one]
    rfl
  · rw [sample?_of_index (by decide), hindex (by omega) (by decide)]
    have hbyte : x * 4 / 8 = x / 2 := by omega
    rw [hbyte]
    show some (Pixel.opaqueColor (palette.color _)) = some (.opaqueColor (palette.color _))
    by_cases heven : x % 2 = 0
    · have hshift : 8 - (x * 4 % 8 + 4) = 4 := by omega
      rw [if_pos heven, hshift, toNat_upper]
    · have hshift : 8 - (x * 4 % 8 + 4) = 0 := by omega
      rw [if_neg heven, hshift, Nat.pow_zero, Nat.div_one, toNat_lower]
  · have hshift : 8 - (x * 8 % 8 + 8) = 0 := by omega
    have hbyte : x * 8 / 8 = x := by omega
    rw [sample?_of_index (by decide), hindex (by omega) (by decide), hshift, hbyte, Nat.pow_zero,
      Nat.div_one, Nat.mod_eq_of_lt (UInt8.toNat_lt _)]
    rfl
  · rw [sample?, hpart (x * 2) (by omega) _ (by omega), hpart (x * 2 + 1) (by omega) _ (by omega)]
    rfl
  · rw [sample?, hpart (x * 3) (by omega) _ (by omega), hpart (x * 3 + 1) (by omega) _ (by omega),
      hpart (x * 3 + 2) (by omega) _ (by omega)]
    simp only [Option.bind_eq_bind, Option.bind_some, UInt8.ofNat_toNat]
    rfl
  · rw [sample?, hpart (x * 4) (by omega) _ (by omega), hpart (x * 4 + 1) (by omega) _ (by omega),
      hpart (x * 4 + 2) (by omega) _ (by omega), hpart (x * 4 + 3) (by omega) _ (by omega)]
    simp only [Option.bind_eq_bind, Option.bind_some, UInt8.ofNat_toNat]
    rfl

end Row

/-- A row takes the least number of whole words of 32 bits that holds its pixels. -/
theorem stride_isLeast (columns bitCount : Nat) :
    IsLeast {n | 4 ∣ n ∧ columns * bitCount ≤ 8 * n} (stride columns bitCount) := by
  unfold stride
  constructor
  · exact ⟨Nat.dvd_mul_left 4 _, by omega⟩
  · rintro n ⟨⟨words, rfl⟩, hfits⟩
    omega

/-! ### Opacity -/

section Alpha

variable {palette : Palette} {bits : Bytes} {bitCount offset : Nat} {p : Pixel}

/-- Only 32 bits can be fully transparent. -/
theorem resolveAlpha_of_ne (h : bitCount ≠ 32) (rows : List (List Pixel)) :
    resolveAlpha bitCount rows = rows := by
  unfold resolveAlpha
  rw [if_neg (by simp [h])]

/-- Only 32 bits have an opacity of their own. -/
theorem opaque_of_sample? (hdepth : bitCount ≠ 32)
    (h : sample? palette bitCount bits offset = some p) : p = .opaqueColor p.color := by
  unfold sample? at h
  split at h
  · simp only [Option.bind_eq_bind, Option.bind_eq_some_iff, Option.pure_def,
      Option.some.injEq] at h
    obtain ⟨_, _, _, _, rfl⟩ := h
    rfl
  · simp only [Option.bind_eq_bind, Option.bind_eq_some_iff, Option.pure_def,
      Option.some.injEq] at h
    obtain ⟨_, _, _, _, _, _, rfl⟩ := h
    rfl
  · exact absurd rfl hdepth
  · simp only [Option.bind_eq_bind, Option.bind_eq_some_iff, Option.pure_def,
      Option.some.injEq] at h
    obtain ⟨_, _, rfl⟩ := h
    rfl

/-- Of 32 bits, the opacity is the last part. -/
theorem alpha_of_sample? (h : sample? palette 32 bits offset = some p) :
    ∃ alpha, number? bits (offset + 24) 8 = some alpha ∧ (p.alpha = 0 ↔ alpha = 0) := by
  unfold sample? at h
  simp only [Option.bind_eq_bind, Option.bind_eq_some_iff, Option.pure_def,
    Option.some.injEq] at h
  obtain ⟨_, _, _, _, _, _, alpha, halpha, rfl⟩ := h
  have hnat : (UInt8.ofNat alpha).toNat = alpha :=
    UInt8.toNat_ofNat_of_lt (Bytes.number?_lt halpha)
  refine ⟨alpha, halpha, ?_⟩
  show UInt8.ofNat alpha = 0 ↔ alpha = 0
  rw [← UInt8.toNat_inj, hnat]
  rfl

end Alpha

/-! ### The whole image -/

namespace Header

variable {h : Header} {palette : Palette} {bits bits' : Bytes} {x y k : Nat}

/-- Each row of the image is stored in one of the rows of the bitmap. -/
theorem storedRow_lt (hy : y < h.rows) : h.storedRow y < h.rows := by
  unfold storedRow
  split <;> omega

/-- Turning the order of the rows round twice changes nothing. -/
theorem storedRow_storedRow (hy : y < h.rows) : h.storedRow (h.storedRow y) = y := by
  unfold storedRow
  split <;> omega

/-- A row has a pixel for each column. -/
theorem length_row : (h.row palette bits k).length = h.columns := by
  rw [row, List.length_map, List.length_range]

/-- The samples of a bitmap are the pixels of its rows. -/
theorem sample?_eq (hok : h.Accepts palette bits) (hx : x < h.columns) (hy : y < h.rows) :
    h.sample? palette bits x y = (h.row palette bits (h.storedRow y))[x]? := by
  have hfits : (x + 1) * h.bitCount ≤ 8 * stride h.columns h.bitCount :=
    Nat.le_trans (Nat.mul_le_mul_right _ hx) (stride_isLeast h.columns h.bitCount).1.2
  have hrow : stride h.columns h.bitCount * h.storedRow y + stride h.columns h.bitCount ≤
      bits.length := by
    rw [← Nat.mul_succ]
    exact Nat.le_trans (Nat.mul_le_mul_left _ (storedRow_lt hy)) hok.bits
  rw [sample?, place, sample?_row hok.depth hfits hrow, row, List.getElem?_map,
    List.getElem?_range hx, Nat.mul_comm (h.storedRow y)]
  rfl

/-- A row of the image is the row in which it is stored. -/
theorem getElem?_imageRows (hy : y < h.rows) :
    (h.imageRows palette bits)[y]? = some (h.row palette bits (h.storedRow y)) := by
  rw [imageRows, List.getElem?_map, getElem?_rowOrder hy, storedRow, isTopDown]
  simp only [decide_eq_true_eq, Option.map_some]

/-- The rows of the image are as many and as long as the header says. -/
theorem grid_imageRows (h : Header) (palette : Palette) (bits : Bytes) :
    Grid h.columns h.rows (h.imageRows palette bits) :=
  .of_order h.isTopDown _ fun _ _ => length_row

/-- The pixels of the rows are the samples. -/
theorem mem_imageRows (hok : h.Accepts palette bits) {row : List Pixel} {p : Pixel}
    (hrow : row ∈ h.imageRows palette bits) (hp : p ∈ row) :
    ∃ x < h.columns, ∃ y < h.rows, h.sample? palette bits x y = some p := by
  obtain ⟨y, hrow⟩ := List.mem_iff_getElem?.1 hrow
  have hy : y < h.rows := by
    have hlt := (List.getElem?_eq_some_iff.1 hrow).1
    rwa [(grid_imageRows h palette bits).height] at hlt
  rw [getElem?_imageRows hy] at hrow
  obtain rfl := Option.some.inj hrow
  obtain ⟨x, hp⟩ := List.mem_iff_getElem?.1 hp
  have hx : x < h.columns := by
    have hlt := (List.getElem?_eq_some_iff.1 hp).1
    rwa [length_row] at hlt
  exact ⟨x, hx, y, hy, (sample?_eq hok hx hy).trans hp⟩

/-- With a pixel that is not fully transparent, the opacity of all of them counts. -/
theorem resolveAlpha_of_hasAlpha (hok : h.Accepts palette bits) (halpha : h.HasAlpha bits) :
    resolveAlpha h.bitCount (h.imageRows palette bits) = h.imageRows palette bits := by
  obtain ⟨hdepth, x, hx, y, hy, alpha, hnumber, hne⟩ := halpha
  unfold resolveAlpha
  rw [if_neg]
  intro hclear
  simp only [Bool.and_eq_true, List.all_eq_true, beq_iff_eq] at hclear
  have hsample := sample?_eq hok hx hy
  have hlt : x < (h.row palette bits (h.storedRow y)).length := length_row.symm ▸ hx
  rw [List.getElem?_eq_getElem hlt, sample?, hdepth] at hsample
  obtain ⟨alpha', hnumber', hzero⟩ := alpha_of_sample? hsample
  rw [hnumber] at hnumber'
  obtain rfl := Option.some.inj hnumber'
  exact hne (hzero.1 (hclear.2 _ (List.mem_of_getElem? (getElem?_imageRows hy)) _
    (List.getElem_mem hlt)))

/-- Without one, all pixels hide what is behind them. -/
theorem resolveAlpha_of_not_hasAlpha (hok : h.Accepts palette bits) (halpha : ¬h.HasAlpha bits) :
    resolveAlpha h.bitCount (h.imageRows palette bits) =
      (h.imageRows palette bits).map fun row => row.map fun p => .opaqueColor p.color := by
  by_cases hdepth : h.bitCount = 32
  · -- every pixel is fully transparent
    unfold resolveAlpha
    rw [if_pos]
    simp only [Bool.and_eq_true, List.all_eq_true, beq_iff_eq, decide_eq_true_eq]
    refine ⟨hdepth, fun row hrow p hp => ?_⟩
    obtain ⟨x, hx, y, hy, hsample⟩ := mem_imageRows hok hrow hp
    rw [sample?, hdepth] at hsample
    obtain ⟨alpha, hnumber, hzero⟩ := alpha_of_sample? hsample
    by_contra hne
    exact halpha ⟨hdepth, x, hx, y, hy, alpha, hnumber, fun h0 => hne (hzero.2 h0)⟩
  · -- the pixels have no opacity of their own
    rw [resolveAlpha_of_ne hdepth]
    symm
    refine (List.map_congr_left (g := id) fun row hrow => ?_).trans (List.map_id _)
    refine (List.map_congr_left (g := id) fun p hp => ?_).trans (List.map_id _)
    obtain ⟨x, _, y, _, hsample⟩ := mem_imageRows hok hrow hp
    exact (opaque_of_sample? hdepth hsample).symm

/-- A pixel of the image is its sample, with the opacity that counts. -/
theorem pixel?_of_accepts (hok : h.Accepts palette bits) (hx : x < h.columns) (hy : y < h.rows) :
    ∃ stored, h.sample? palette bits x y = some stored ∧
      (h.HasAlpha bits → (Image.ofRows h.columns h.rows
        (resolveAlpha h.bitCount (h.imageRows palette bits))).pixel? x y = some stored) ∧
      (¬h.HasAlpha bits → (Image.ofRows h.columns h.rows
        (resolveAlpha h.bitCount (h.imageRows palette bits))).pixel? x y =
          some (.opaqueColor stored.color)) := by
  have hlt : x < (h.row palette bits (h.storedRow y)).length := length_row.symm ▸ hx
  have hstored := List.getElem?_eq_getElem hlt
  have hgrid := (grid_imageRows h palette bits).resolveAlpha h.bitCount
  -- one pixel with an opacity makes all of them keep theirs
  refine ⟨_, (sample?_eq hok hx hy).trans hstored, fun halpha => ?_, fun halpha => ?_⟩
  · rw [resolveAlpha_of_hasAlpha hok halpha]
    exact (grid_imageRows h palette bits).pixel? (getElem?_imageRows hy) hstored
  · have hrow : (resolveAlpha h.bitCount (h.imageRows palette bits))[y]? =
        some ((h.row palette bits (h.storedRow y)).map fun p => .opaqueColor p.color) := by
      rw [resolveAlpha_of_not_hasAlpha hok halpha, List.getElem?_map, getElem?_imageRows hy]
      rfl
    refine hgrid.pixel? hrow ?_
    rw [List.getElem?_map, hstored]
    rfl

/-- Only the bits of the samples count. -/
theorem sample?_congr
    (hbits : ∀ k < h.rows, ∀ i < h.columns * h.bitCount,
      bit? bits' (8 * (stride h.columns h.bitCount * k) + i) =
        bit? bits (8 * (stride h.columns h.bitCount * k) + i))
    (hx : x < h.columns) (hy : y < h.rows) :
    h.sample? palette bits' x y = h.sample? palette bits x y := by
  refine Bitmap.sample?_congr fun i hi => ?_
  have hinside : x * h.bitCount + i < h.columns * h.bitCount := by
    have hnext : (x + 1) * h.bitCount ≤ h.columns * h.bitCount := Nat.mul_le_mul_right _ hx
    rw [Nat.succ_mul] at hnext
    omega
  rw [place, Nat.add_assoc]
  exact hbits _ (storedRow_lt hy) _ hinside

/-- Data with the same samples has the same rows. -/
theorem imageRows_congr (hok : h.Accepts palette bits) (hok' : h.Accepts palette bits')
    (hbits : ∀ k < h.rows, ∀ i < h.columns * h.bitCount,
      bit? bits' (8 * (stride h.columns h.bitCount * k) + i) =
        bit? bits (8 * (stride h.columns h.bitCount * k) + i)) :
    h.imageRows palette bits' = h.imageRows palette bits := by
  refine List.ext_getElem? fun y => ?_
  by_cases hy : y < h.rows
  · rw [getElem?_imageRows hy, getElem?_imageRows hy]
    refine congrArg some (List.ext_getElem? fun x => ?_)
    by_cases hx : x < h.columns
    · rw [← sample?_eq hok' hx hy, ← sample?_eq hok hx hy, sample?_congr hbits hx hy]
    · rw [List.getElem?_eq_none (length_row.symm ▸ Nat.le_of_not_lt hx),
        List.getElem?_eq_none (length_row.symm ▸ Nat.le_of_not_lt hx)]
  · have hout {bits : Bytes} : (h.imageRows palette bits)[y]? = none :=
      List.getElem?_eq_none ((grid_imageRows h palette bits).height.symm ▸ Nat.le_of_not_lt hy)
    rw [hout, hout]

end Header

/-- A bitmap without compression has an image exactly if its dimensions and its depth can be
shown, its indices have colours, and all of its rows are there; a row takes the least number of
whole words of 32 bits. Then each pixel is the sample that lies at its place, and all of its bits
exist. The opacity of the data counts if some pixel of 32 bits is not fully transparent, and
otherwise every pixel is opaque. No other bits count: neither those behind a row nor those behind
the last one. -/
theorem Image.ofBits_pixels (h : Header) (palette : Palette) (bits : Bytes) :
    IsLeast {n | 4 ∣ n ∧ h.columns * h.bitCount ≤ 8 * n} (stride h.columns h.bitCount) ∧
    ((∃ image, Image.ofBits h palette bits = .ok image) ↔ h.Accepts palette bits) ∧
    (∀ image, Image.ofBits h palette bits = .ok image →
      image.width = h.columns ∧ image.height = h.rows ∧
        image.rgba.length = 4 * h.columns * h.rows ∧
        ∀ x < h.columns, ∀ y < h.rows, ∃ stored, h.sample? palette bits x y = some stored ∧
          (h.HasAlpha bits → image.pixel? x y = some stored) ∧
          (¬h.HasAlpha bits → image.pixel? x y = some (.opaqueColor stored.color))) ∧
    ∀ bits', stride h.columns h.bitCount * h.rows ≤ bits.length →
      stride h.columns h.bitCount * h.rows ≤ bits'.length →
      (∀ k < h.rows, ∀ i < h.columns * h.bitCount,
        bit? bits' (8 * (stride h.columns h.bitCount * k) + i) =
          bit? bits (8 * (stride h.columns h.bitCount * k) + i)) →
      Image.ofBits h palette bits' = Image.ofBits h palette bits := by
  refine ⟨stride_isLeast _ _, ⟨?_, fun hok => ⟨_, Header.ofBits_of_accepts hok⟩⟩,
    fun image himage => ?_, fun bits' henough henough' hbits => ?_⟩
  · rintro ⟨image, himage⟩
    exact Header.accepts_of_ofBits himage
  · have hok := Header.accepts_of_ofBits himage
    rw [Header.ofBits_of_accepts hok] at himage
    obtain rfl := Except.ok.inj himage
    have hgrid := (Header.grid_imageRows h palette bits).resolveAlpha h.bitCount
    exact ⟨rfl, rfl, hgrid.length_rgba, fun x hx y hy => Header.pixel?_of_accepts hok hx hy⟩
  · rw [Header.ofBits_eq, Header.ofBits_eq, if_neg (Nat.not_lt.2 henough),
      if_neg (Nat.not_lt.2 henough')]
    -- the header and the palette are refused for the same reason, whatever the bits are
    cases hfits : Header.fits h.columns h.rows with
    | false => rfl
    | true =>
        cases hpalette : (h.bitCount ≤ 8 && palette.isEmpty : Bool) with
        | true => rfl
        | false =>
            cases hdepth : supportedDepths.contains h.bitCount with
            | false => rfl
            | true =>
                have hok := Header.accepts_iff.2 ⟨hfits, hpalette, hdepth, Nat.not_lt.2 henough⟩
                have hok' := Header.accepts_iff.2 ⟨hfits, hpalette, hdepth, Nat.not_lt.2 henough'⟩
                rw [Header.imageRows_congr hok hok' hbits]

/-- Three columns of 4 bits, the bottom row first: the top row ends in half of a byte, and neither
the other half nor the bytes behind it count. -/
theorem Image.ofBits_pixels_halves :
    let h : Header := ⟨40, 3, 2, 1, 4, 0, 0, 0, 0, 0, 0⟩
    let palette : Palette := #[.black, .white, ⟨255, 0, 0⟩]
    let bits : Bytes := [0x01, 0x00, 0, 0, 0x10, 0x20, 0, 0]
    let bits' : Bytes := [0x01, 0x0F, 9, 9, 0x10, 0x2F, 9, 9, 9]
    h.Accepts palette bits ∧ ¬h.HasAlpha bits ∧
      (∃ image, Image.ofBits h palette bits = .ok image ∧
        image.pixel? 2 0 = some (.opaqueColor ⟨255, 0, 0⟩)) ∧
      Image.ofBits h palette bits' = Image.ofBits h palette bits := by
  intro h palette bits bits'
  have hok : h.Accepts palette bits :=
    ⟨by decide, by decide, by decide, by decide, by decide⟩
  have halpha : ¬h.HasAlpha bits := fun halpha => absurd halpha.1 (by decide)
  obtain ⟨_, haccepts, hpixels, hcongr⟩ := Image.ofBits_pixels h palette bits
  obtain ⟨image, himage⟩ := haccepts.2 hok
  obtain ⟨stored, hstored, _, hopaque⟩ := (hpixels image himage).2.2.2 2 (by decide) 0 (by decide)
  obtain rfl : stored = .opaqueColor ⟨255, 0, 0⟩ :=
    Option.some.inj (hstored.symm.trans (by decide))
  exact ⟨hok, halpha, ⟨image, himage, hopaque halpha⟩,
    hcongr bits' (by decide) (by decide) (by decide)⟩

end Metafile.Bitmap
