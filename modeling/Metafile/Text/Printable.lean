/-!
# `Metafile.Text.Printable`: the part of a string that is shown

A string field may be longer than its text: the text ends at the first NUL. Control characters
have no place in a document, so each becomes a blank, except tab, line feed and vertical tab.
-/

set_option autoImplicit false

namespace Metafile.Text.Printable

/-- A character as it is shown. -/
def shown (c : Char) : Char :=
  if c == '\t' || c == '\n' || c == '\x0B' then c
  else if c.toNat < 0x20 then ' '
  else c

/-- The characters before the first NUL, as they are shown. -/
def clean (cs : List Char) : List Char :=
  (cs.takeWhile (· != '\x00')).map shown

/-- The text of narrow characters that belong to no known code page: only ASCII is shown. -/
def ofAscii (bytes : List UInt8) : String :=
  String.ofList (clean (bytes.map fun b => if b > 0x7F then ' ' else Char.ofNat b.toNat))

/-- The text of narrow characters that are the first 256 code points. -/
def ofLatin (bytes : List UInt8) : String :=
  String.ofList (clean (bytes.map fun b => Char.ofNat b.toNat))

/-- The text of a string of any characters. -/
def ofString (s : String) : String :=
  String.ofList (clean s.toList)

end Metafile.Text.Printable
