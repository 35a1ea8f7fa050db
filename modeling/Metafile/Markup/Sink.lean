import Metafile.Geometry.Outline
import Metafile.Markup.Element

/-!
# `Metafile.Markup.Sink`: markup text in the making

A `Sink` is the text written so far and the qualifier that goes before the names of elements. Tags
are written in parts: the name, one attribute after the other, then the end of the tag. A blank
follows the name and every attribute. `trim` takes blanks away from the end again.

Nothing written is checked: a sink writes what it is told. Which texts come together to markup is
decided in `Markup.Piece`.
-/

set_option autoImplicit false

namespace Metafile.Markup

/-- Text in the making, with the qualifier of its element names. -/
structure Sink where
  qualifier : String
  text : String
deriving DecidableEq, Repr, Inhabited

namespace Sink

/-- A sink with nothing written. -/
def empty (qualifier : String) : Sink := ⟨qualifier, ""⟩

/-- Writes a text as it is. -/
def raw (t : String) (s : Sink) : Sink :=
  { s with text := s.text ++ t }

/-- Writes the start of a tag up to the blank after its name. -/
def openTag (name : String) (s : Sink) : Sink :=
  s.raw ("<" ++ s.qualifier ++ name ++ " ")

/-- Writes an end tag. -/
def closeTag (name : String) (s : Sink) : Sink :=
  s.raw ("</" ++ s.qualifier ++ name ++ ">")

/-- Writes an attribute and a blank. -/
def attr (name value : String) (s : Sink) : Sink :=
  s.raw (name ++ "=\"" ++ value ++ "\" ")

/-- Writes an attribute that is a number with at most four decimals. -/
def number (name : String) (value : Float) (s : Sink) : Sink :=
  s.attr name (Decimal.Fixed.text value)

/-- Writes a point of path data. -/
def point (p : Point Float) (s : Sink) : Sink :=
  s.raw (String.ofList p.chars)

/-- Takes away the blanks at the end. -/
def trim (s : Sink) : Sink :=
  { s with text := String.ofList (Outline.trimBlanks s.text.toList) }

/-- Takes everything away. -/
def clear (s : Sink) : Sink :=
  { s with text := "" }

/-- Writes an element and a line end. -/
def element (e : Element) (s : Sink) : Sink :=
  s.raw (e.text s.qualifier ++ "\n")

/-- Writes an element inside of definitions. -/
def definition (e : Element) (s : Sink) : Sink :=
  s.element ((Element.named "defs").push e)

/-- Writes the start of a tag and its attributes. -/
def tag (name : String) (attributes : List Attribute) (s : Sink) : Sink :=
  attributes.foldl (fun s a => s.attr a.1 a.2) (s.openTag name)

end Sink

end Metafile.Markup
