import Metafile.Geometry.Fit
import Metafile.Playback.Bracket
import Metafile.Record.Command

/-!
# `Metafile.Playback.Frame`: the beginning and the end of a document

The header of a metafile decides the size of the page. The document begins with a declaration and
a root element, unless only a fragment is wanted, and with a group that moves the bounds to the
origin. The end record closes whatever is open.
-/

set_option autoImplicit false

namespace Metafile.Playback

open Metafile.Markup (Attribute Document Piece)
open Metafile.Record (Header)

/-- The namespace of all elements. -/
def documentNamespace : String := "http://www.w3.org/2000/svg"

/-- The namespace of references to pictures. -/
def linkNamespace : String := "http://www.w3.org/1999/xlink"

/-! ### The page -/

/-- The signed size of a box. -/
def boxSize (b : Box) : Point Float := ⟨b.width, b.height⟩

/-- The size of the page without what is added to it. -/
def pageSize (o : Options) (h : Header) : Point Float :=
  fitSize (boxSize h.bounds) ⟨o.width, o.height⟩

/-- The page that a header describes. -/
def pageOf (o : Options) (h : Header) : Page Float where
  scale := fitScale (pageSize o h).x h.bounds.width
  perMillimeter :=
    if h.millimeters = 0 then 1.0 else Float.ofInt h.deviceWidth / Float.ofInt h.millimeters

/-- Whether bounds reach over the horizontal axis. The bounds of such a picture stay where they
are. -/
def crossesAxis (b : Box) : Bool :=
  decide (b.top < 0) != decide (b.bottom < 0) && b.top != 0 && b.bottom != 0

/-- The size of the document. One that stays where it is gets a unit more on each axis. -/
def documentSize (o : Options) (h : Header) : Point Float :=
  let size := pageSize o h
  if crossesAxis h.bounds then ⟨size.x + 1, size.y + 1⟩ else size

/-- The point of the bounds that becomes the origin. -/
def originOf (b : Box) : Point Float :=
  if crossesAxis b then Point.zero else .ofInt ⟨b.left, b.top⟩

/-! ### Pieces -/

/-- The attributes of the root element. -/
def rootAttributes (o : Options) (h : Header) : List Attribute :=
  let size := documentSize o h
  [("version", "1.1"), ("xmlns", documentNamespace), ("xmlns:xlink", linkNamespace)] ++
    o.namespaceName.elim [] (fun name => [("xmlns:" ++ name, documentNamespace)]) ++
    [("width", Decimal.Fixed.text size.x), ("height", Decimal.Fixed.text size.y)]

/-- What begins a document around its pieces. -/
def head (o : Options) (h : Header) : Document :=
  if o.delimited then #[.declaration, .opening "svg" (rootAttributes o h)] else #[]

/-- What ends a document around its pieces. -/
def tail (o : Options) : Document :=
  if o.delimited then #[.ending "svg"] else #[]

/-- The start tag of the group that moves the bounds to the origin. -/
def originPiece (o : Options) (h : Header) : Piece :=
  let scale := (pageOf o h).scale
  let p := originOf h.bounds
  let parts := [-p.x * scale, -p.y * scale].map Decimal.Fixed.text
  .opening "g" [("transform", "translate(" ++ ", ".intercalate parts ++ ")")]

/-- The sides of a box as a message shows them. -/
def boxText (b : Box) : String :=
  let side (name : String) (v : Int) : String := name ++ ": " ++ toString v
  "RectL \x7b " ++ ", ".intercalate [side "left" b.left, side "top" b.top, side "right" b.right,
    side "bottom" b.bottom] ++ " \x7d"

/-- The message about a header. -/
def headerText (o : Options) (h : Header) : String :=
  let page := pageOf o h
  s!"header: {h.handles} handles, bounds " ++ boxText h.bounds ++
    ", scaling " ++ Decimal.Shortest.text page.scale ++
    ", px/mm " ++ Decimal.Shortest.text page.perMillimeter

namespace State

/-- Begins the document. -/
def beginDocument (o : Options) (h : Header) (s : State) : State :=
  let s := { s with objects := .ofHandles h.handles, page := pageOf o h }
  (s.note .debug (headerText o h)).emit ((head o h).push (originPiece o h))

/-- Plays EMF+ records or ends their playing, and takes over what they draw and say. -/
def runPlus (act : Plus.Stage → Plus.Stage) (s : State) : State :=
  let stage := act ⟨s.player, #[], #[]⟩
  { s with player := stage.player, log := s.log ++ stage.log }.emit stage.drawn

/-- Ends the document. -/
def endDocument (o : Options) (s : State) : State :=
  let s := s.abandon
  -- an object whose last piece never came is read as far as it goes
  let s := if o.plus then s.runPlus (·.finish) else s
  let ended : Document := if s.wrapped then #[.ending "g"] else #[]
  { s.emit (ended.push (.ending "g") ++ tail o) with wrapped := false }

end State

end Metafile.Playback
