import Metafile.Bitmap.Pixels
import Metafile.Text.Base64

/-!
# `Metafile.Bitmap.Png`: bitmaps as data

Bitmaps are embedded in a document as data URIs. What makes the bytes of a picture is an
`Encoder`, any function that may refuse. `Png.head` gives the first two parts of a PNG file, the
signature and the header chunk, with its check value. A bitmap that cannot be shown gets the
`placeholder`.
-/

set_option autoImplicit false

namespace Metafile.Bitmap

/-- What makes the bytes of a picture file. -/
abbrev Encoder := Image → Except Fault Bytes

/-- Bytes as a data URI. -/
def dataUri (mime : String) (bytes : Bytes) : String :=
  "data:" ++ mime ++ ";base64," ++ Text.Base64.encode bytes

/-- A transparent picture of five by five pixels. -/
def placeholder : String :=
  "data:image/png;base64,iVBORw0KGgoAAAANSUhEUgAAAAUAAAAFCAYAAACNbyblAAAABGdBTUEAALGPC/xhBQAA" ++
  "AAZiS0dEAP8A/wD/oL2nkwAAAAlwSFlzAAALEwAACxMBAJqcGAAAAAd0SU1FB+ABFREtOJX7FAkAAAAIdEVYdENv" ++
  "bW1lbnQA9syWvwAAAAxJREFUCNdjYKATAAAAaQABwB3y+AAAAABJRU5ErkJggg=="

namespace Png

/-- The polynomial of the check value, its bits in reverse order. -/
def polynomial : UInt32 := 0xEDB88320

/-- One bit of the check value. -/
def checkBit (crc : UInt32) : UInt32 :=
  if crc % 2 = 1 then (crc >>> 1) ^^^ polynomial else crc >>> 1

/-- One byte of the check value. -/
def checkByte (crc : UInt32) (b : UInt8) : UInt32 :=
  (List.range 8).foldl (fun c _ => checkBit c) (crc ^^^ b.toUInt32)

/-- The check value of a sequence of bytes. -/
def check (bytes : Bytes) : UInt32 :=
  bytes.foldl checkByte 0xFFFFFFFF ^^^ 0xFFFFFFFF

/-- A number of 32 bits, the most significant byte first. -/
def word (n : Nat) : Bytes := (Bytes.ofNat 4 n).reverse

/-- A chunk: its length, its name, its content, and the check value of name and content. -/
def chunk (name : String) (content : Bytes) : Bytes :=
  let body := name.toUTF8.toList ++ content
  word content.length ++ body ++ word (check body).toNat

/-- The eight bytes at the beginning of every PNG file. -/
def signature : Bytes := [0x89, 0x50, 0x4E, 0x47, 0x0D, 0x0A, 0x1A, 0x0A]

/-- The header chunk of a picture with eight bits for each of red, green, blue and opacity. -/
def headerChunk (width height : Nat) : Bytes :=
  chunk "IHDR" (word width ++ word height ++ [8, 6, 0, 0, 0])

/-- The beginning of the PNG file of an image. An image with fewer bytes than its pixels need has
none, and neither has one without pixels. -/
def head : Encoder := fun image =>
  if image.rgba.length < image.width * image.height * 4 then
    .error (.undecodable (.shortBuffer image.width image.height))
  else if image.width = 0 then .error (.undecodable .zeroWidth)
  else if image.height = 0 then .error (.undecodable .zeroHeight)
  else .ok (signature ++ headerChunk image.width image.height)

end Png

end Metafile.Bitmap
