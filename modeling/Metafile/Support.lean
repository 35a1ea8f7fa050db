/-!
# `Metafile.Support`: how completely a kind of record is drawn

Every record kind, of the stream itself and of EMF+, belongs to one of four classes. The classes
never change what is drawn. They are shown when records are listed.
-/

set_option autoImplicit false

namespace Metafile

/-- How completely records of one kind are drawn. -/
inductive Support
  /-- Everything the record asks for is drawn. -/
  | supported
  /-- The main effect is drawn and some of its attributes are not. -/
  | limited
  /-- The record asks for something visible and is passed over. -/
  | ignored
  /-- The record has nothing to draw. -/
  | unused
deriving DecidableEq, Repr, Inhabited

/-- The name of a support class as listings show it. -/
def Support.name : Support → String
  | .supported => "Supported"
  | .limited => "Partial"
  | .ignored => "Ignored"
  | .unused => "Unused"

end Metafile
