import Metafile.Bitmap.Runs

/-!
# `Metafile.Bitmap.Pixels`: the pixels of a bitmap

A decoded bitmap has its pixels in rows, the top row first, four bytes for each pixel: red, green,
blue and opacity. Uncompressed bitmaps store rows that are padded to whole words of 32 bits, and
most of them store the bottom row first.
-/

set_option autoImplicit false

namespace Metafile.Bitmap

/-- A decoded bitmap. -/
structure Image where
  width : Nat
  height : Nat
  /-- Four bytes for each pixel, row by row from the top. -/
  rgba : Bytes
deriving DecidableEq, Repr, Inhabited

/-- The colour and the opacity of a pixel. -/
structure Pixel where
  color : Color
  alpha : UInt8
deriving DecidableEq, Repr, Inhabited

namespace Pixel

/-- A pixel that hides what is behind it. -/
def opaqueColor (c : Color) : Pixel := ⟨c, 255⟩

/-- The four bytes of a pixel. -/
def bytes (p : Pixel) : Bytes := [p.color.red, p.color.green, p.color.blue, p.alpha]

end Pixel

/-- The image of rows of pixels. -/
def Image.ofRows (width height : Nat) (rows : List (List Pixel)) : Image :=
  ⟨width, height, rows.flatMap fun row => row.flatMap Pixel.bytes⟩

/-- The rows of a bitmap in the order in which an image has them. -/
def rowOrder (topDown : Bool) (rows : Nat) : List Nat :=
  if topDown then List.range rows else (List.range rows).reverse

/-- The image of palette indices that are given row by row from the bottom. -/
def Image.ofIndices (indices : Array UInt8) (width height : Nat) (palette : Palette) :
    Except Undecodable Image :=
  if palette.isEmpty then .error .noPalette
  else if indices.size < width * height then .error .tooFewIndices
  else
    let row (k : Nat) : List Pixel :=
      (indices.extract (k * width) (k * width + width)).toList.map fun index =>
        .opaqueColor (palette.color index.toNat)
    .ok (Image.ofRows width height ((rowOrder false height).map row))

/-- The number of bytes of a row: the least multiple of four that holds all its bits. -/
def stride (width bitCount : Nat) : Nat :=
  (width * bitCount + 31) / 32 * 4

/-- A colour part of five bits, scaled to eight. -/
def five (n : Nat) : UInt8 := UInt8.ofNat (n % 32 * 255 / 31)

/-- The pixel at a column of a row of bytes. -/
def pixelAt (palette : Palette) (bitCount : Nat) (row : Array UInt8) (x : Nat) : Pixel :=
  let byteAt (i : Nat) : UInt8 := row.getD i 0
  match bitCount with
  | 1 => .opaqueColor (palette.color ((byteAt (x / 8)).toNat / Nat.pow 2 (7 - x % 8) % 2))
  | 4 =>
    let byte := byteAt (x / 2)
    .opaqueColor (palette.color (if x % 2 = 0 then Runs.upper byte else Runs.lower byte).toNat)
  | 8 => .opaqueColor (palette.color (byteAt x).toNat)
  | 16 =>
    let v := (byteAt (x * 2)).toNat + 256 * (byteAt (x * 2 + 1)).toNat
    .opaqueColor ⟨five (v / 1024), five (v / 32), five v⟩
  | 24 => .opaqueColor ⟨byteAt (x * 3 + 2), byteAt (x * 3 + 1), byteAt (x * 3)⟩
  | _ => ⟨⟨byteAt (x * 4 + 2), byteAt (x * 4 + 1), byteAt (x * 4)⟩, byteAt (x * 4 + 3)⟩

/-- The number of bits per pixel that can be shown. -/
def supportedDepths : List Nat := [1, 4, 8, 16, 24, 32]

/-- Rows in which opacity counts. A bitmap of 32 bits whose pixels are all fully transparent was
made without opacity in mind, so it is shown opaque. -/
def resolveAlpha (bitCount : Nat) (rows : List (List Pixel)) : List (List Pixel) :=
  if bitCount = 32 && rows.all (fun row => row.all fun p => p.alpha == 0) then
    rows.map fun row => row.map fun p => .opaqueColor p.color
  else rows

/-- The image of an uncompressed bitmap. -/
def Image.ofBits (h : Header) (palette : Palette) (bits : Bytes) : Except Undecodable Image := do
  h.checkDimensions
  if h.bitCount ≤ 8 && palette.isEmpty then
    throw (.depthWithoutPalette h.bitCount)
  if !supportedDepths.contains h.bitCount then
    throw (.unsupportedDepth h.bitCount)
  let width := stride h.columns h.bitCount
  if bits.length < width * h.rows then
    throw (.tooFewBytes bits.length (width * h.rows))
  let cells := bits.toArray
  let row (k : Nat) : List Pixel :=
    let bytes := cells.extract (k * width) (k * width + width)
    (List.range h.columns).map (pixelAt palette h.bitCount bytes)
  return Image.ofRows h.columns h.rows
    (resolveAlpha h.bitCount ((rowOrder h.isTopDown h.rows).map row))

end Metafile.Bitmap
