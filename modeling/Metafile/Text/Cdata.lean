/-!
# `Metafile.Text.Cdata`: text inside markup

Text of a picture is written in CDATA sections, where only the terminator `]]>` has a meaning. A
terminator inside the text is split over two sections, so no text can end its own section early.
-/

set_option autoImplicit false

namespace Metafile.Text.Cdata

/-- What begins a section. -/
def opening : List Char := "<![CDATA[".toList

/-- What ends a section. -/
def closing : List Char := "]]>".toList

/-- The text with each terminator, taken from the left, divided between two sections. -/
def split : List Char → List Char
  | ']' :: ']' :: '>' :: rest => "]]]]><![CDATA[>".toList ++ split rest
  | c :: rest => c :: split rest
  | [] => []

/-- The sections that hold a text. -/
def enclose (text : String) : String :=
  String.ofList (opening ++ split text.toList ++ closing)

end Metafile.Text.Cdata
