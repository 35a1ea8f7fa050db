import Metafile.Bitmap.Header

/-!
# `Metafile.Bitmap.Runs`: run-length bitmaps

A run-length bitmap is drawn by commands on a canvas, from the bottom row up. A command draws
equal pixels or given pixels, goes to the next line, jumps, or ends the bitmap. In the form for 8
bits every pixel is a byte. In the form for 4 bits a byte holds two pixels, and equal pixels
alternate between its halves.

`next` reads one command. `drawFrom` draws commands until the bitmap ends, the canvas is full or
the bytes are used up. Pixels past the right edge are dropped. Pixels that no command draws are 0.
-/

set_option autoImplicit false

namespace Metafile.Bitmap.Runs

/-- The two forms of run-length data. -/
inductive Form
  | eight | four
deriving DecidableEq, Repr, Inhabited

/-- A drawing command. -/
inductive Command
  /-- So many pixels of one byte. -/
  | run (count : Nat) (value : UInt8)
  /-- Given pixels. -/
  | absolute (pixels : List UInt8)
  | endOfLine
  | endOfBitmap
  /-- A jump to the right and up. -/
  | delta (dx dy : Nat)
deriving DecidableEq, Repr, Inhabited

/-- The upper half of a byte. -/
def upper (b : UInt8) : UInt8 := b / 16

/-- The lower half of a byte. -/
def lower (b : UInt8) : UInt8 := b % 16

namespace Form

/-- The pixels that a run draws. -/
def runPixels : Form → Nat → UInt8 → List UInt8
  | .eight, count, value => List.replicate count value
  | .four, count, value =>
    (List.range count).map fun i => if i % 2 = 0 then upper value else lower value

/-- The number of bytes that hold so many given pixels. -/
def absoluteBytes : Form → Nat → Nat
  | .eight, count => count
  | .four, count => (count + 1) / 2

/-- So many pixels out of the bytes that hold them. -/
def unpack : Form → Nat → Bytes → List UInt8
  | .eight, count, bytes => bytes.take count
  | .four, count, bytes => (bytes.flatMap fun b => [upper b, lower b]).take count

end Form

/-- What stands at the beginning of run-length data. -/
inductive Next
  /-- A command and the bytes after it. -/
  | command (c : Command) (rest : Bytes)
  /-- Fewer bytes than a command needs to begin. -/
  | exhausted
  /-- A command that is cut short. -/
  | truncated

/-- Reads one command. Given pixels are followed by a byte without meaning if they fill an odd
number of bytes; at the end of the data that byte may be missing. -/
def next (form : Form) : Bytes → Next
  | a :: b :: rest =>
    if a ≠ 0 then .command (.run a.toNat b) rest
    else if b = 0 then .command .endOfLine rest
    else if b = 1 then .command .endOfBitmap rest
    else if b = 2 then
      match rest with
      | dx :: dy :: rest => .command (.delta dx.toNat dy.toNat) rest
      | _ => .truncated
    else
      let bytes := form.absoluteBytes b.toNat
      if rest.length < bytes then .truncated
      else .command (.absolute (form.unpack b.toNat (rest.take bytes)))
        (rest.drop (bytes + bytes % 2))
  | _ => .exhausted

/-- A command takes bytes away. -/
theorem next_shorter {form : Form} {data rest : Bytes} {c : Command}
    (h : next form data = .command c rest) : rest.length < data.length := by
  unfold next at h
  split at h
  · split at h
    · cases h; simp only [List.length_cons]; omega
    · split at h
      · cases h; simp only [List.length_cons]; omega
      · split at h
        · cases h; simp only [List.length_cons]; omega
        · split at h
          · split at h
            · cases h; simp only [List.length_cons]; omega
            · cases h
          · simp only at h
            split at h
            · cases h
            · cases h
              simp only [List.length_drop, List.length_cons]
              omega
  · cases h

/-- The pixels drawn so far, the bottom row first, and the place of the next one. -/
structure Canvas where
  width : Nat
  height : Nat
  x : Nat
  y : Nat
  cells : Array UInt8
deriving Repr, Inhabited

namespace Canvas

/-- A canvas on which nothing is drawn. -/
def blank (width height : Nat) : Canvas :=
  ⟨width, height, 0, 0, Array.replicate (width * height) 0⟩

/-- Whether all rows are passed. -/
def isFull (c : Canvas) : Bool := c.height ≤ c.y

/-- Draws a pixel and goes one place to the right. Outside of the canvas nothing is drawn. -/
def put (c : Canvas) (value : UInt8) : Canvas :=
  let cells :=
    if c.x < c.width && c.y < c.height then
      c.cells.setIfInBounds (c.y * c.width + c.x) value
    else c.cells
  { c with cells, x := c.x + 1 }

/-- Draws pixels one after the other. -/
def putAll (c : Canvas) (values : List UInt8) : Canvas :=
  values.foldl put c

/-- Does what a command says. -/
def draw (form : Form) (c : Canvas) : Command → Canvas
  | .run count value => c.putAll (form.runPixels count value)
  | .absolute pixels => c.putAll pixels
  | .endOfLine => { c with x := 0, y := c.y + 1 }
  | .endOfBitmap => c
  | .delta dx dy => { c with x := c.x + dx, y := c.y + dy }

end Canvas

/-- Draws the commands of run-length data on a canvas. -/
def drawFrom (form : Form) (data : Bytes) (c : Canvas) : Except Undecodable Canvas :=
  if c.isFull then .ok c
  else
    match _h : next form data with
    | .exhausted => .ok c
    | .truncated => .error .truncatedRuns
    | .command .endOfBitmap _ => .ok c
    | .command command rest => drawFrom form rest (c.draw form command)
termination_by data.length
decreasing_by exact next_shorter _h

/-- The palette indices of run-length data, row by row from the bottom. -/
def decode (form : Form) (data : Bytes) (width height : Nat) :
    Except Undecodable (Array UInt8) := do
  if !Header.fits width height then
    throw (.runDimensions width height)
  return (← drawFrom form data (Canvas.blank width height)).cells

end Metafile.Bitmap.Runs
