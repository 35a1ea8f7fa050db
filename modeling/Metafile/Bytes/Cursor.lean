import Metafile.Bytes.Single
import Metafile.Fault
import Metafile.Text.Utf16

/-!
# `Metafile.Bytes.Cursor`: checked reading of little-endian values

A `Cursor` is a place in a span of bytes. Every read goes through it, and no read leaves the span:
a read that does not fit fails with a cause and gives no new cursor, so the old place is still the
place. `Decode` chains reads.

The bulk reads (`seek`, `skip`, `require`, `bytes`, `points`, `utf16`) check the whole amount
before they read anything.
-/

set_option autoImplicit false

namespace Metafile

/-- A span of bytes, such as a metafile, one record or the bits of a picture. -/
abbrev Bytes := List UInt8

namespace Bytes

/-- The number that the bytes stand for, the least significant byte first. -/
def toNat : Bytes → Nat
  | [] => 0
  | b :: rest => b.toNat + 256 * toNat rest

/-- The `width` lowest bytes of a number, the least significant byte first. -/
def ofNat : Nat → Nat → Bytes
  | 0, _ => []
  | width + 1, n => UInt8.ofNat (n % 256) :: ofNat width (n / 256)

/-- Whether `length` bytes at `offset` lie inside a span of `size` bytes. -/
def checkSpan (size offset length : Nat) : Except Fault Unit :=
  if offset + length ≤ size then .ok ()
  else .error (.outOfBounds (.span size offset length))

/-- The `length` bytes at `offset`, if they all exist. -/
def slice (data : Bytes) (offset length : Nat) : Except Fault Bytes := do
  checkSpan data.length offset length
  return (data.drop offset).take length

end Bytes

/-- The signed number that has the given unsigned reading in `bits` bits. -/
def signed (bits n : Nat) : Int :=
  Int.bmod n (Nat.pow 2 bits)

/-- A place in a span of bytes. The bytes from the place on are kept beside it, so that reading on
does not walk through the bytes before it. -/
structure Cursor where
  data : Bytes
  position : Nat
  rest : Bytes
  position_le : position ≤ data.length
  rest_eq : rest = data.drop position

/-- A reading procedure: it takes a cursor to a value and a later cursor, or fails. -/
abbrev Decode (α : Type) := StateT Cursor (Except Fault) α

namespace Cursor

/-- The beginning of a span. -/
def start (data : Bytes) : Cursor :=
  ⟨data, 0, data, Nat.zero_le _, rfl⟩

/-- The number of bytes from the place on. -/
def remaining (c : Cursor) : Nat :=
  c.data.length - c.position

/-- The place `count` bytes further on. -/
def advance (c : Cursor) (count : Nat) (h : c.position + count ≤ c.data.length) : Cursor :=
  ⟨c.data, c.position + count, c.rest.drop count, h, by rw [c.rest_eq, List.drop_drop]⟩

/-- Moves to an absolute offset. The end of the span is a legal place. -/
def seek (offset : Nat) : Decode Unit := fun c =>
  if h : offset ≤ c.data.length then
    .ok ((), ⟨c.data, offset, c.data.drop offset, h, rfl⟩)
  else .error (.outOfBounds (.span c.data.length offset 0))

/-- Passes over `count` bytes. -/
def skip (count : Nat) : Decode Unit := fun c =>
  if h : c.position + count ≤ c.data.length then .ok ((), c.advance count h)
  else .error (.outOfBounds (.span c.data.length c.position count))

/-- Makes sure that `count` more bytes exist, and stays. -/
def require (count : Nat) : Decode Unit := fun c => do
  Bytes.checkSpan c.data.length c.position count
  return ((), c)

/-- Takes the next `count` bytes. -/
def bytes (count : Nat) : Decode Bytes := fun c =>
  if h : c.position + count ≤ c.data.length then .ok (c.rest.take count, c.advance count h)
  else .error (.outOfBounds (.span c.data.length c.position count))

/-- Gives the `length` bytes at an absolute offset, and stays. -/
def slice (offset length : Nat) : Decode Bytes := fun c => do
  return (← Bytes.slice c.data offset length, c)

/-- Takes an unsigned number of `width` bytes. -/
def word (width : Nat) : Decode Nat := fun c =>
  if h : (c.rest.take width).length = width then
    .ok (Bytes.toNat (c.rest.take width), c.advance width (by
      have hp := c.position_le
      rw [c.rest_eq, List.length_take, List.length_drop] at h
      omega))
  else .error (.outOfBounds .shortRead)

/-- Takes an unsigned number of 8 bits. -/
def u8 : Decode Nat := word 1

/-- Takes an unsigned number of 16 bits. -/
def u16 : Decode Nat := word 2

/-- Takes an unsigned number of 32 bits. -/
def u32 : Decode Nat := word 4

/-- Takes a signed number of 16 bits. -/
def i16 : Decode Int := return signed 16 (← u16)

/-- Takes a signed number of 32 bits. -/
def i32 : Decode Int := return signed 32 (← u32)

/-- Takes a floating-point number of 32 bits, widened to 64. -/
def f32 : Decode Float :=
  return Single.toFloat (← u32)

/-- Takes `count` values, one after the other. -/
def many {α : Type} (count : Nat) (one : Decode α) : Decode (List α) :=
  match count with
  | 0 => return []
  | n + 1 => do
    let first ← one
    return first :: (← many n one)

/-- The number of bytes that can be addressed at all. A byte count from here on is refused before
it is compared with anything. -/
def addressSpace : Nat := UInt64.size

/-- Takes `count` code units of UTF-16 and decodes those before the first zero. -/
def utf16 (count : Nat) : Decode String := do
  if addressSpace ≤ count * 2 then throw (.outOfBounds .stringLength)
  require (count * 2)
  let units ← many count u16
  return Text.Utf16.decode (units.takeWhile (· != 0))

end Cursor

/-- Reads from the first byte on and gives the value that is read. -/
def Decode.first {α : Type} (d : Decode α) (data : Bytes) : Except Fault α := do
  let (value, _) ← d (Cursor.start data)
  return value

/-- Reads from an offset on and gives the value that is read. -/
def Decode.from {α : Type} (d : Decode α) (data : Bytes) (offset : Nat) : Except Fault α := do
  let ((), c) ← Cursor.seek offset (Cursor.start data)
  let (value, _) ← d c
  return value

end Metafile
