import Metafile.Bytes.Cursor

/-!
# `Metafile.Plus.Gather`: objects that arrive in pieces

The content of an object may be spread over several records. At most one object is pending. A
piece for another object does not fit to it, and then the pending one is given up as it is.
-/

set_option autoImplicit false

namespace Metafile.Plus

/-- An object whose content is still arriving. -/
structure Pending where
  type : Nat
  id : Nat
  /-- The number of bytes that were announced. -/
  total : Nat
  content : Bytes
deriving DecidableEq, Repr, Inhabited

namespace Pending

/-- The pending object with a piece added, if the piece belongs to it. -/
def append? (p : Pending) (type id : Nat) (piece : Bytes) : Option Pending :=
  if p.type = type ∧ p.id = id then some { p with content := p.content ++ piece } else none

/-- Whether all announced bytes are there. -/
def isComplete (p : Pending) : Bool := p.total ≤ p.content.length

end Pending

/-- The pending object, if there is one. -/
abbrev Gather := Option Pending

namespace Gather

/-- Adds a piece to the pending object, if it belongs to one. -/
def append? (g : Gather) (type id : Nat) (piece : Bytes) : Option Pending :=
  g.bind (·.append? type id piece)

/-- Whether the pending object is complete. -/
def isComplete (g : Gather) : Bool := g.any Pending.isComplete

end Gather

end Metafile.Plus
