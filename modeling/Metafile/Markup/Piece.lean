import Metafile.Markup.Sink
import Metafile.Text.Cdata

/-!
# `Metafile.Markup.Piece`: the pieces of a document

A document is written record by record, so it is a sequence of pieces and not one tree: a record
may open a group that a later record closes. A piece is a whole number of lines, and every tag in
it is complete. `Piece.text` is the only place where a piece becomes text.

The names of elements are kept without a qualifier: a document has the same pieces in every
namespace. `Document.text_append` states that the text of a document can be made piece by piece.
-/

set_option autoImplicit false

namespace Metafile.Markup

/-- One piece of a document. -/
inductive Piece where
  /-- The line that declares the document. -/
  | declaration
  /-- A start tag whose end tag is a later piece. -/
  | opening (name : String) (attributes : List Attribute)
  /-- An end tag. -/
  | ending (name : String)
  /-- A tag without content, its attributes in the order given. -/
  | shape (name : String) (attributes : List Attribute)
  /-- A text element. -/
  | label (attributes : List Attribute) (content : String)
  /-- A self-contained element. -/
  | element (e : Element)
deriving Repr, Inhabited

/-- The line that declares a document. -/
def declarationText : String :=
  "<?xml version=\"1.0\"  encoding=\"UTF-8\" standalone=\"no\"?>\n"

namespace Piece

/-- Writes a piece. -/
def write : Piece → Sink → Sink
  | declaration, s => s.raw declarationText
  | opening name attributes, s => (s.tag name attributes).trim.raw ">\n"
  | ending name, s => (s.closeTag name).raw "\n"
  | shape name attributes, s => (s.tag name attributes).raw "/>\n"
  | label attributes content, s =>
    (((s.tag "text" attributes).trim.raw ">").raw (Text.Cdata.enclose content)).closeTag "text"
      |>.raw "\n"
  | element e, s => s.element e

/-- The text of a piece. -/
def text (qualifier : String) (p : Piece) : String :=
  (p.write (Sink.empty qualifier)).text

end Piece

/-- Pieces in the order in which they are written. -/
abbrev Document := Array Piece

namespace Document

/-- A text followed by the pieces of a document. -/
def textAfter (qualifier before : String) (pieces : List Piece) : String :=
  pieces.foldl (fun t p => t ++ p.text qualifier) before

/-- The text of a document. -/
def text (qualifier : String) (d : Document) : String :=
  textAfter qualifier "" d.toList

/-- What stands before the pieces stays before their text. -/
theorem textAfter_eq (qualifier before : String) (pieces : List Piece) :
    textAfter qualifier before pieces = before ++ textAfter qualifier "" pieces := by
  induction pieces generalizing before with
  | nil => simp [textAfter]
  | cons p rest ih =>
    simp only [textAfter, List.foldl_cons] at ih ⊢
    rw [ih (before ++ p.text qualifier), ih ("" ++ p.text qualifier)]
    simp [String.append_assoc]

/-- The text of a document can be made piece by piece. -/
theorem text_append (qualifier : String) (a b : Document) :
    text qualifier (a ++ b) = text qualifier a ++ text qualifier b := by
  have h : textAfter qualifier "" (a ++ b).toList =
      textAfter qualifier (textAfter qualifier "" a.toList) b.toList := by
    simp [textAfter]
  rw [text, h, textAfter_eq]
  rfl

end Document

end Metafile.Markup
