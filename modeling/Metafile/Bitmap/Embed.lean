import Metafile.Bitmap.Png

/-!
# `Metafile.Bitmap.Embed`: pictures inside a document

A bitmap of a record becomes a data URI. Compressed pictures are taken as they are, all others are
decoded and given to the encoder. A bitmap that cannot be shown gets the placeholder, but keeps
the size that its header declares: so what is drawn around it does not depend on the encoder.
-/

set_option autoImplicit false

namespace Metafile.Bitmap

/-- A picture that can stand in a document. -/
structure Embedded where
  uri : String
  columns : Nat
  rows : Nat
  /-- Why the placeholder stands there, if it does. -/
  fault : Option Fault
deriving Repr, Inhabited

namespace Picture

/-- The palette of a picture: the one that is given, or else its own. -/
def palette (p : Picture) (h : Header) (given : Option Palette) : Except Fault Palette :=
  match given with
  | some palette => .ok palette
  | none => (Palette.ofBytes p.header h).mapError Fault.asUndecodable

/-- The pixels of a picture that its form of run-length data describes. -/
def runImage (p : Picture) (h : Header) (form : Runs.Form) (palette : Palette) :
    Except Undecodable Image := do
  let indices ← Runs.decode form p.bits h.columns h.rows
  Image.ofIndices indices h.columns h.rows palette

/-- The pixels of a picture. -/
def image (p : Picture) (h : Header) (given : Option Palette) : Except Fault Image := do
  let palette ← p.palette h given
  match h.compression with
  | .runs8 => (p.runImage h .eight palette).mapError .undecodable
  | .runs4 => (p.runImage h .four palette).mapError .undecodable
  | _ => (Image.ofBits h palette p.bits).mapError .undecodable

/-- The header of a picture. -/
def readHeader (p : Picture) : Except Fault Header :=
  (Header.ofBytes p.header).mapError Fault.asUndecodable

/-- The data URI of a picture with a header. -/
def uri (encode : Encoder) (p : Picture) (h : Header) (given : Option Palette) :
    Except Fault String := do
  match h.compression with
  | .jpeg => return dataUri "image/jpeg" p.bits
  | .png => return dataUri "image/png" p.bits
  | _ => return dataUri "image/png" (← encode (← p.image h given))

/-- A picture as it stands in a document. -/
def embed (encode : Encoder) (p : Picture) (given : Option Palette) : Embedded :=
  match p.readHeader with
  | .error fault => ⟨placeholder, 1, 1, some fault⟩
  | .ok h =>
    match p.uri encode h given with
    | .ok uri => ⟨uri, h.columns, h.rows, none⟩
    | .error fault => ⟨placeholder, h.columns, h.rows, some fault⟩

/-- The number of columns and of rows that a picture is shown with. -/
def extent (p : Picture) : Nat × Nat :=
  match p.readHeader with
  | .error _ => (1, 1)
  | .ok h => (h.columns, h.rows)

/-- A picture has the size that its header declares, whatever its colours and the encoder are. -/
theorem embed_extent (encode : Encoder) (p : Picture) (given : Option Palette) :
    ((p.embed encode given).columns, (p.embed encode given).rows) = p.extent := by
  unfold embed extent
  cases p.readHeader with
  | error fault => rfl
  | ok h =>
      dsimp only
      cases p.uri encode h given <;> rfl

end Picture

end Metafile.Bitmap
