import Metafile.Log
import Metafile.Record.Entry
import Metafile.Record.Transform

/-!
# `Metafile.Record.Survey`: the first walk over a stream

A stream is walked once before anything is drawn. The walk goes over its records, from the header
to the end record, and gathers what must be known early:

* for every path bracket, whether and where it is filled, stroked, flattened, widened, selected as
clip region or aborted. Those records come after the bracket, but the path is written at its end.
* the changes of the world transform inside a bracket. Those before the first drawing record take
  effect before the path, the others after it.
* whether any comment holds EMF+ records.

A stream that is not cut into records from a header to an end is refused here, and nowhere later.
-/

set_option autoImplicit false

namespace Metafile.Record

/-- What the records of a stream say about one path bracket. The offsets are those of the records
that use the path. -/
structure PathUse where
  fill : Option Nat
  stroke : Option Nat
  strokeAndFill : Option Nat
  flatten : Option Nat
  widen : Option Nat
  selectClip : Option Nat
  abort : Option Nat
  /-- The changes of the world transform before the path is drawn. -/
  before : List TransformChange
  /-- The changes of the world transform after the path began to be drawn. -/
  after : List TransformChange
deriving Repr, Inhabited

namespace PathUse

/-- A bracket about which nothing is known yet. -/
def unused : PathUse := ⟨none, none, none, none, none, none, none, [], []⟩

/-- Whether the path is filled. -/
def isFilled (p : PathUse) : Bool := p.fill.isSome || p.strokeAndFill.isSome

/-- Whether the path is stroked. -/
def isStroked (p : PathUse) : Bool := p.stroke.isSome || p.strokeAndFill.isSome

/-- Notes a record that uses the path. Records of other kinds change nothing. -/
def note (offset : Nat) (kind : Kind) (p : PathUse) : PathUse :=
  match kind with
  | .fillPath => { p with fill := some offset }
  | .strokePath => { p with stroke := some offset }
  | .strokeAndFillPath => { p with strokeAndFill := some offset }
  | .flattenPath => { p with flatten := some offset }
  | .widenPath => { p with widen := some offset }
  | .selectClipPath => { p with selectClip := some offset }
  | .abortPath => { p with abort := some offset }
  | _ => p

/-- Notes a change of the world transform inside the bracket. -/
def defer (drawn : Bool) (t : TransformChange) (p : PathUse) : PathUse :=
  if drawn then { p with after := p.after ++ [t] } else { p with before := p.before ++ [t] }

end PathUse

/-- The records of a stream and what is known about its paths. -/
structure Survey where
  entries : List Entry
  /-- One for each record that begins a path, in the order of those records. -/
  paths : List PathUse
  hasPlus : Bool
deriving Repr, Inhabited

/-- The number that marks a comment with EMF+ records. -/
def plusIdentifier : Nat := 0x2B464D45

/-- The number of data bytes that a comment declares, and its identifier. -/
def commentHeader : Decode (Nat × Nat) := do
  let size ← Cursor.u32
  let identifier ← Cursor.u32
  return (size, identifier)

/-- Whether a comment holds EMF+ records. The declared size counts the identifier. -/
def isPlusComment (body : Bytes) : Bool :=
  match commentHeader.from body headerBytes with
  | .ok (size, identifier) => 4 ≤ size && identifier == plusIdentifier
  | .error _ => false

/-- Takes the change of the world transform of a record that sets or modifies it. -/
def transformChange (kind : Kind) : Decode TransformChange := do
  let map ← Cursor.affine
  if kind = .setWorldTransform then return ⟨TransformChange.setMode, map⟩
  return ⟨← Cursor.u32, map⟩

/-- The change of the world transform that a record in a bracket brings. A fault of its fields
breaks the framing of the stream. A fault of the place behind the record header is passed on as it
is. -/
def deferredChange (kind : Kind) (body : Bytes) : Except Fault TransformChange := do
  let ((), c) ← Cursor.seek headerBytes (Cursor.start body)
  let (t, _) ← (transformChange kind c).mapError Fault.framing
  return t

/-- What is known after some records. -/
structure Walk where
  /-- Whether any record was seen. -/
  begun : Bool
  /-- The path brackets so far, the last one first. -/
  paths : List PathUse
  hasPlus : Bool
  /-- Whether a bracket is open. -/
  inPath : Bool
  /-- Whether the open bracket has drawn anything. -/
  drawn : Bool
deriving Repr, Inhabited

namespace Walk

/-- What is known before the first record. -/
def start : Walk := ⟨false, [], false, false, false⟩

/-- Changes what is known about the last bracket, if there is one. -/
def amend (f : PathUse → PathUse) (w : Walk) : Walk :=
  match w.paths with
  | [] => w
  | p :: rest => { w with paths := f p :: rest }

/-- Refuses a stream that does not begin with a header or that has a second one. -/
def checkHeader (w : Walk) (e : Entry) : Except Fault Unit :=
  match w.begun, decide (e.kind? = some .header) with
  | false, false => .error (.structural .noHeader)
  | true, true => .error (.structural .secondHeader)
  | _, _ => .ok ()

/-- Notes what a record says. -/
def note (w : Walk) (e : Entry) : Except Fault Walk :=
  match e.kind? with
  | none => .ok w
  | some .beginPath =>
    .ok { w with paths := .unused :: w.paths, inPath := true, drawn := false }
  | some .endPath => .ok { w with inPath := false, drawn := false }
  | some .comment => .ok { w with hasPlus := w.hasPlus || isPlusComment e.body }
  | some kind =>
    if w.inPath && (kind == .setWorldTransform || kind == .modifyWorldTransform) then
      match deferredChange kind e.body with
      | .ok t => .ok (w.amend (·.defer w.drawn t))
      | .error fault => .error fault
    else if w.inPath && kind.drawsGeometry then .ok { w with drawn := true }
    else .ok (w.amend (·.note e.offset kind))

/-- Walks over one record. -/
def observe (w : Walk) (e : Entry) : Except Fault Walk := do
  w.checkHeader e
  { w with begun := true }.note e

/-- What is known after all the records of a list. -/
def ofEntries (entries : List Entry) : Except Fault Walk :=
  entries.foldlM observe start

end Walk

namespace Survey

/-- Cuts a whole stream into records and walks over them. A record at which the walk stops comes
before the place where the stream is broken, so its fault is the one that counts. -/
def ofBytes (stream : Bytes) : Except Fault Survey := do
  let (entries, broken) := Entry.cut 0 stream
  let walk ← Walk.ofEntries entries
  match broken with
  | some fault => .error fault
  | none => .ok ⟨entries, walk.paths.reverse, walk.hasPlus⟩

/-- The message about a finished walk. -/
def message (s : Survey) : Message :=
  ⟨.debug, s!"analysed {s.entries.length} records, {s.paths.length} paths, emf+: {s.hasPlus}"⟩

end Survey

end Metafile.Record
