import Metafile.Record.Kind

/-!
# `Metafile.Fault`: what can go wrong, and how it is told

A `Fault` is a cause, sorted by what it does to a conversion:

* `structural`: the stream is not cut into records. Nothing is drawn.
* `outOfBounds`: a count, an offset or a handle points outside what the record or the table holds.
  The drawing stops there and what was drawn before is kept.
* `undecodable`: a bitmap cannot be shown. A placeholder takes its place.
* `badOptions`: the options text is not understood.
* `io`: something outside of the program failed, which only an encoder can say.

All that reads or plays records can answer any of them. That most of the sorts never occur there
is proved of the functions, and not part of their types.

Every cause has its wording in the `text` of its type, and nowhere else. `Fault.message` puts the
sort before it.
-/

set_option autoImplicit false

namespace Metafile

/-- A count, an offset or a handle that points outside of what is there. -/
inductive OutOfBounds
  /-- A span of `length` bytes at `offset` does not fit into `size` bytes. -/
  | span (size offset length : Nat)
  /-- The bytes end inside a value. -/
  | shortRead
  /-- The byte count of an array of points exceeds the address space. -/
  | pointCount
  /-- The byte count of a string exceeds the address space. -/
  | stringLength
  /-- The point counts of the polygons add up to more points than the record declares. -/
  | polygonCounts
  /-- An object handle lies past the end of the object table. -/
  | objectIndex (tableSize index : Nat)
  /-- A restore asks for a context that was never saved. -/
  | savedContext (relative : Int) (depth : Nat)
  /-- A path record has no path bracket to belong to. -/
  | unmatchedPath
  /-- An EMF+ object of a type that the format does not define. -/
  | objectType (type : Nat)
  /-- An EMF+ brush of a type that the format does not define. -/
  | brushType (type : Nat)
  /-- A run of no point types at all. -/
  | emptyRun
deriving DecidableEq, Repr

/-- The wording of what is exceeded. -/
def OutOfBounds.text : OutOfBounds → String
  | .span size offset length => s!"{length} bytes at offset {offset} exceed buffer of {size}"
  | .shortRead => "read past end of record: failed to fill whole buffer"
  | .pointCount => "point count overflow"
  | .stringLength => "string length overflow"
  | .polygonCounts => "polygon counts exceed the point count"
  | .objectIndex tableSize index => s!"object index {index} outside table of {tableSize}"
  | .savedContext relative depth => s!"RESTOREDC {relative} with {depth} saved contexts"
  | .unmatchedPath => "path record without a matching BEGINPATH"
  | .objectType type => s!"unknown EMF+ object type {type}"
  | .brushType type => s!"unknown EMF+ brush type {type}"
  | .emptyRun => "empty run in EMF+ point types"

/-- The message about what is exceeded: its sort, then its cause. -/
def OutOfBounds.message (cause : OutOfBounds) : String :=
  "Out of bounds: " ++ cause.text

/-- A stream that is not a sequence of records from a header to an end. -/
inductive Structural
  /-- The bytes are used up and no end record came. -/
  | noEnd
  /-- The first record is not a header. -/
  | noHeader
  /-- A header stands after the first record. -/
  | secondHeader
  /-- A record claims to be smaller than its own header. -/
  | undersized (code offset size : Nat)
  /-- A record claims more bytes than are left. -/
  | oversized (code offset size : Nat)
  /-- A record that must be read to find its place cannot be read, for some reason. -/
  | unreadable (reason : String)
deriving DecidableEq, Repr

/-- The wording of a broken stream. -/
def Structural.text : Structural → String
  | .noEnd => "record stream ends without an EOF record"
  | .noHeader => "metafile does not begin with an EMR_HEADER record"
  | .secondHeader => "metafile contains more than one EMR_HEADER record"
  | .undersized code offset size =>
    let name := Record.nameOfCode code
    s!"record {name} at offset {offset} is smaller than its header ({size} bytes)"
  | .oversized code offset size =>
    let name := Record.nameOfCode code
    s!"record {name} at offset {offset} claims {size} bytes past the end of the buffer"
  | .unreadable reason => reason

/-- A bitmap that cannot be shown. -/
inductive Undecodable
  /-- A dimension is zero or above the limit. -/
  | dimensions (width height : Nat)
  /-- A dimension of run-length data is zero or above the limit. -/
  | runDimensions (width height : Nat)
  /-- Run-length data ends inside a command. -/
  | truncatedRuns
  /-- Palette indices come without a palette. -/
  | noPalette
  /-- There are fewer palette indices than pixels. -/
  | tooFewIndices
  /-- An uncompressed bitmap of palette indices comes without a palette. -/
  | depthWithoutPalette (depth : Nat)
  /-- The number of bits per pixel is not supported. -/
  | unsupportedDepth (depth : Nat)
  /-- There are fewer bytes than the rows of the bitmap need. -/
  | tooFewBytes (present needed : Nat)
  /-- The pixel buffer is too short for the dimensions. -/
  | shortBuffer (width height : Nat)
  /-- An image of no width cannot be encoded. -/
  | zeroWidth
  /-- An image of no height cannot be encoded. -/
  | zeroHeight
  /-- The bitmap header or its palette is cut short. -/
  | outOfBounds (cause : OutOfBounds)
  /-- An encoder gives a reason of its own. -/
  | refused (reason : String)
deriving DecidableEq, Repr

/-- The wording of a bitmap that cannot be shown. -/
def Undecodable.text : Undecodable → String
  | .dimensions width height => s!"unsupported bitmap dimensions {width}x{height}"
  | .runDimensions width height => s!"unsupported RLE bitmap dimensions {width}x{height}"
  | .truncatedRuns => "truncated RLE data"
  | .noPalette => "indexed bitmap without palette"
  | .tooFewIndices => "indexed bitmap too short"
  | .depthWithoutPalette depth => s!"{depth}-bit bitmap without palette"
  | .unsupportedDepth depth => s!"unsupported bit depth {depth}"
  | .tooFewBytes present needed => s!"bitmap data holds {present} bytes, {needed} needed"
  | .shortBuffer width height => s!"pixel buffer does not match {width}x{height}"
  | .zeroWidth => "Zero width not allowed"
  | .zeroHeight => "Zero height not allowed"
  | .outOfBounds cause => cause.text
  | .refused reason => reason

/-- What can go wrong in a conversion. -/
inductive Fault
  | structural (cause : Structural)
  | outOfBounds (cause : OutOfBounds)
  | undecodable (cause : Undecodable)
  | badOptions
  /-- Something outside of the program failed. -/
  | io (reason : String)
deriving DecidableEq, Repr

/-- The whole message of a fault: its sort, then its cause. -/
def Fault.message : Fault → String
  | .structural cause => "Structural error: " ++ cause.text
  | .outOfBounds cause => cause.message
  | .undecodable cause => "Image decode error: " ++ cause.text
  | .badOptions => "Invalid options"
  | .io reason => "IO error: " ++ reason

/-- What a fault counts as where the framing of a stream is read: whatever it is, the stream is
broken there. -/
def Fault.framing (f : Fault) : Fault :=
  .structural (.unreadable f.message)

/-- What a fault counts as where a bitmap is read: a bitmap that is cut short cannot be shown. -/
def Fault.asUndecodable : Fault → Fault
  | .outOfBounds cause => .undecodable (.outOfBounds cause)
  | f => f

/-- What faults count as does not matter where there is a value. -/
theorem mapError_eq_ok {ε ε' α : Type} {f : ε → ε'} {r : Except ε α} {v : α} :
    r.mapError f = .ok v ↔ r = .ok v := by
  cases r with
  | ok w => exact ⟨fun h => congrArg _ (Except.ok.inj h), fun h => congrArg _ (Except.ok.inj h)⟩
  | error cause => exact ⟨nofun, nofun⟩

/-- A chain that gives something has a value of its first step, and goes on with it. -/
theorem of_bind_eq_ok {ε α β : Type} {first : Except ε α} {next : α → Except ε β} {w : β}
    (h : (first >>= next) = .ok w) : ∃ v, first = .ok v ∧ next v = .ok w := by
  cases first with
  | error broken => cases h
  | ok v => exact ⟨v, rfl, h⟩

/-- A chain that fails does so at its first step, or with the value of that step at what follows.
-/
theorem of_bind_eq_error {ε α β : Type} {first : Except ε α} {next : α → Except ε β} {fault : ε}
    (h : (first >>= next) = .error fault) :
    first = .error fault ∨ ∃ v, first = .ok v ∧ next v = .error fault := by
  cases first with
  | error broken => exact .inl (congrArg _ (Except.error.inj h))
  | ok v => exact .inr ⟨v, rfl, h⟩

end Metafile
