import Metafile.Color
import Metafile.Bytes.Cursor

/-!
# `Metafile.Bitmap.Header`: the header and the palette of a device-independent bitmap

A bitmap starts with a header of 40 bytes or more. A negative height means that the top row comes
first. Colours of a palette follow the header, four bytes each, blue first.

A bitmap may have from 1 to `limit` columns and rows. `Header.checkDimensions_iff` says so.
-/

set_option autoImplicit false

namespace Metafile.Bitmap

/-- A bitmap as it lies in a record: the bytes of its header and palette, and its pixel bytes. -/
structure Picture where
  header : Bytes
  bits : Bytes
deriving DecidableEq, Repr, Inhabited

/-- How the pixels of a bitmap are stored. -/
inductive Compression
  | none | runs8 | runs4 | masks | jpeg | png | other
deriving DecidableEq, Repr, Inhabited

/-- The compression with this number. -/
def Compression.ofCode : Nat → Compression
  | 0 => .none
  | 1 => .runs8
  | 2 => .runs4
  | 3 => .masks
  | 4 => .jpeg
  | 5 => .png
  | _ => .other

/-- The fields of a bitmap header. -/
structure Header where
  size : Nat
  width : Int
  height : Int
  planes : Nat
  bitCount : Nat
  compressionCode : Nat
  imageSize : Nat
  horizontalResolution : Int
  verticalResolution : Int
  colorsUsed : Nat
  colorsImportant : Nat
deriving DecidableEq, Repr, Inhabited

/-- The highest number of columns and of rows. -/
def limit : Nat := 4096

namespace Header

/-- The number of bytes of the fields of a header. -/
def fieldBytes : Nat := 40

/-- Takes a header. -/
def decode : Decode Header := do
  Cursor.require fieldBytes
  let size ← Cursor.u32
  let width ← Cursor.i32
  let height ← Cursor.i32
  let planes ← Cursor.u16
  let bitCount ← Cursor.u16
  let compressionCode ← Cursor.u32
  let imageSize ← Cursor.u32
  let horizontalResolution ← Cursor.i32
  let verticalResolution ← Cursor.i32
  let colorsUsed ← Cursor.u32
  let colorsImportant ← Cursor.u32
  return { size, width, height, planes, bitCount, compressionCode, imageSize,
           horizontalResolution, verticalResolution, colorsUsed, colorsImportant }

/-- The header at the beginning of some bytes. -/
def ofBytes (data : Bytes) : Except Fault Header :=
  decode.first data

/-- How the pixels are stored. -/
def compression (h : Header) : Compression := .ofCode h.compressionCode

/-- The number of columns. -/
def columns (h : Header) : Nat := h.width.natAbs

/-- The number of rows. -/
def rows (h : Header) : Nat := h.height.natAbs

/-- Whether the top row comes first. -/
def isTopDown (h : Header) : Bool := h.height < 0

/-- The number of colours that the depth of a bitmap can tell apart, if it has a palette. -/
def paletteLimit (h : Header) : Nat :=
  match h.bitCount with
  | 1 => 2
  | 4 => 16
  | 8 => 256
  | _ => 0

/-- The number of colours in the palette. Where the header gives none, a palette is as large as
the depth allows, but not larger than the number of pixels. -/
def colorCount (h : Header) : Nat :=
  match h.compression with
  | .none | .runs8 | .runs4 =>
    if h.colorsUsed ≠ 0 then h.colorsUsed else min h.paletteLimit (h.columns * h.rows)
  | _ => 0

/-- Whether a number of columns and rows can be shown. -/
def fits (columns rows : Nat) : Bool :=
  columns != 0 && rows != 0 && columns ≤ limit && rows ≤ limit

/-- Refuses a bitmap that has too few or too many columns or rows. -/
def checkDimensions (h : Header) : Except Undecodable Unit :=
  if fits h.columns h.rows then .ok ()
  else .error (.dimensions h.columns h.rows)

/-- A bitmap is refused exactly when one of its dimensions is outside of `1 … limit`. -/
theorem checkDimensions_iff (h : Header) :
    h.checkDimensions = .ok () ↔
      (1 ≤ h.columns ∧ h.columns ≤ limit) ∧ (1 ≤ h.rows ∧ h.rows ≤ limit) := by
  unfold checkDimensions fits
  split
  · rename_i hf
    simp only [Bool.and_eq_true, bne_iff_ne, ne_eq, decide_eq_true_eq] at hf
    simp only [true_iff]
    omega
  · rename_i hf
    simp only [Bool.and_eq_true, bne_iff_ne, ne_eq, decide_eq_true_eq] at hf
    simp only [reduceCtorEq, false_iff]
    omega

end Header

/-- A list of colours that pixels refer to by index. -/
abbrev Palette := Array Color

namespace Palette

/-- The colour of an index. An index past the end is black. -/
def color (p : Palette) (index : Nat) : Color :=
  p[index]?.getD .black

/-- Takes a colour of a palette: blue, green, red and a byte without meaning. -/
def entry : Decode Color := do
  let blue ← Cursor.u8
  let green ← Cursor.u8
  let red ← Cursor.u8
  let _ ← Cursor.u8
  return ⟨UInt8.ofNat red, UInt8.ofNat green, UInt8.ofNat blue⟩

/-- Takes a palette of so many colours, after making sure that they all exist. -/
def decode (count : Nat) : Decode Palette := do
  Cursor.require (count * 4)
  return (← Cursor.many count entry).toArray

/-- The palette that follows a header. -/
def ofBytes (data : Bytes) (h : Header) : Except Fault Palette :=
  (decode h.colorCount).from data (max h.size Header.fieldBytes)

end Palette

end Metafile.Bitmap
