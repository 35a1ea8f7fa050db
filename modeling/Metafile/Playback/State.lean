import Metafile.Bitmap.Png
import Metafile.Clip
import Metafile.Device.ImageLibrary
import Metafile.Device.ObjectTable
import Metafile.Device.Paint
import Metafile.Geometry.Trail
import Metafile.Options.Basic
import Metafile.Plus.Player
import Metafile.Record.Survey

/-!
# `Metafile.Playback.State`: what records leave behind

A metafile is played record by record. A `State` is everything that a record may change: the
context and the tools, the pieces of the document, and the path bracket, if one is open.

While a bracket is open its path is unfinished, so no other piece can be written. What is drawn
meanwhile is held back and follows the path. `State.emit` is the only place that decides between
writing and holding.
-/

set_option autoImplicit false

namespace Metafile.Playback

open Metafile.Markup (Attribute Document Piece Sink)

/-- What is the same for all records of a conversion: the options, the way clip regions combine,
and the way pictures are encoded. -/
structure Setup where
  options : Options
  combine : Clip.Combiner
  encode : Bitmap.Encoder
deriving Inhabited

/-- An open path bracket: the clip region in which it was opened, and what was drawn since. -/
structure Bracket where
  clip : List Attribute
  drawn : Trail Float
deriving Repr, Inhabited

/-- What records leave behind. -/
structure State where
  page : Page Float
  context : Device.Context
  saved : Device.Saved
  objects : Device.ObjectTable
  images : Device.ImageLibrary
  player : Plus.Player
  /-- The path that was drawn last or is being drawn. A record may take it as clip region. -/
  trail : Trail Float
  bracket : Option Bracket
  /-- The number of brackets that were opened so far. -/
  brackets : Nat
  /-- The current position in logical units. -/
  position : Point Float
  /-- Whether a group for the world transform is open. -/
  wrapped : Bool
  /-- The number of clip regions that were defined so far. -/
  clips : Nat
  /-- Whether text runs from right to left. -/
  rightToLeft : Bool
  /-- Whether a record could not be done. -/
  failed : Bool
  written : Document
  /-- What is drawn while a bracket is open. -/
  held : Document
  log : Log
deriving Inhabited

namespace State

/-- The state before the first record. -/
def initial : State where
  page := Page.initial
  context := .initial
  saved := []
  objects := .empty
  images := #[]
  player := .initial
  trail := .empty
  bracket := none
  brackets := 0
  position := Point.zero
  wrapped := false
  clips := 0
  rightToLeft := false
  failed := false
  written := #[]
  held := #[]
  log := #[]

/-- Whether a path bracket is open. -/
def inPath (s : State) : Bool := s.bracket.isSome

/-- Leaves a message. -/
def note (level : Level) (text : String) (s : State) : State :=
  { s with log := s.log.push ⟨level, text⟩ }

/-- Leaves a warning and marks the picture as incomplete. -/
def fail (text : String) (s : State) : State :=
  { s.note .warn text with failed := true }

/-- Changes the context. -/
def update (f : Device.Context → Device.Context) (s : State) : State :=
  { s with context := f s.context }

/-- Adds pieces to the document, or holds them back while a bracket is open. -/
def emit (pieces : Document) (s : State) : State :=
  if s.inPath then { s with held := s.held ++ pieces }
  else { s with written := s.written ++ pieces }

/-! ### From logical units to the page -/

/-- A logical point on the page. -/
def point (s : State) (p : Point Float) : Point Float :=
  s.context.mapping.point s.page p

/-- A pair of logical lengths on the page. -/
def lengths (s : State) (v : Point Float) : Point Float :=
  s.context.mapping.lengths s.page v

/-- A logical outline on the page. -/
def place (s : State) (o : Outline Float) : Outline Float :=
  Outline.map s.point s.lengths o

/-- The stroke that the context gives to an element. -/
def strokeAttributes (s : State) : List Attribute :=
  s.context.strokeAttributes s.page

/-! ### The document as text -/

/-- The text of the path of an open bracket as far as it goes. -/
def unfinished (qualifier : String) (b : Bracket) : String :=
  (((Sink.empty qualifier).tag "path" b.clip).raw
    ("d=\"" ++ String.ofList (Outline.chars b.drawn.outline))).text

/-- The document as far as it is written. What is held back is not part of it. -/
def text (qualifier : String) (s : State) : String :=
  Document.text qualifier s.written ++ s.bracket.elim "" (unfinished qualifier)

end State

end Metafile.Playback
