import Metafile.Markup.Element

/-!
# `Metafile.Markup.Lettering`: what all text elements share

Texts come from records of two formats, and both become the same text elements: blanks are kept as
they are, lines run along a text in the same way, and the base line lies at the same depth.
-/

set_option autoImplicit false

namespace Metafile.Markup.Lettering

/-- The distance from the top of a text to its base line, in font sizes. -/
def ascent : Float := 0.9

/-- The style in which a text keeps its blanks. -/
def keepBlanks : Attribute := ("style", "white-space:pre;")

/-- The lines along a text. -/
def decoration (underline strikeout : Bool) : List Attribute :=
  match underline, strikeout with
  | true, true => [("text-decoration", "underline line-through")]
  | true, false => [("text-decoration", "underline")]
  | false, true => [("text-decoration", "line-through")]
  | false, false => []

end Metafile.Markup.Lettering
