/-!
# `Metafile.Markup.Reference`: the names of definitions

Clip regions and pictures are defined once and referred to by name. The names of each sort are
numbered from one on, so this module is the only place that spells them.
-/

set_option autoImplicit false

namespace Metafile.Markup.Reference

/-- The name of a clip region. -/
def clip (id : Nat) : String := "clip-" ++ id.repr

/-- The name of a picture. -/
def image (id : Nat) : String := "img-" ++ id.repr

/-- The name of the tile that shows a picture in a pattern. -/
def tile (id : Nat) : String := "img-" ++ id.repr ++ "-ign"

/-- The name of the pattern that repeats a picture. -/
def pattern (id : Nat) : String := "img-" ++ id.repr ++ "-ref"

/-- A reference to a name, as paint or as clip region. -/
def url (name : String) : String := "url(#" ++ name ++ ")"

end Metafile.Markup.Reference
