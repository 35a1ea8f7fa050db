import Metafile.Geometry.Flatten

/-!
# `Metafile.Clip`: combining clip regions

A clip region is an outline. How two regions combine is left to a `Combiner`, which is any
function of the current region, the new one and the operation. `Combiner.apply` takes the curves
out of the new region first, so a combiner that makes no curves never meets one.
-/

set_option autoImplicit false

namespace Metafile.Clip

/-- How a new region changes the current one. -/
inductive Operation
  | intersect | unite | exclusive | subtract | replace
deriving DecidableEq, Repr, Inhabited

namespace Operation

/-- The operation with this number. -/
def ofCode? : Nat → Option Operation
  | 1 => some .intersect
  | 2 => some .unite
  | 3 => some .exclusive
  | 4 => some .subtract
  | 5 => some .replace
  | _ => none

/-- The operation that a record asks for. An unknown number means a replacement. -/
def ofCode (code : Nat) : Operation :=
  (ofCode? code).getD .replace

/-- The short name of an operation. -/
def name : Operation → String
  | .intersect => "And"
  | .unite => "Or"
  | .exclusive => "Xor"
  | .subtract => "Diff"
  | .replace => "Copy"

end Operation

/-- A way to combine the current region, if there is one, with a new region. -/
abbrev Combiner := Option (Outline Float) → Outline Float → Operation → Outline Float

namespace Combiner

/-- The plainest combiner: every operation installs the new region. -/
def replacing : Combiner := fun _ incoming _ => incoming

/-- The combined region, where the new region is flattened before it is handed over. -/
def apply (combine : Combiner) (current : Option (Outline Float)) (incoming : Outline Float)
    (op : Operation) : Outline Float :=
  combine current incoming.flatten op

end Combiner

end Metafile.Clip
