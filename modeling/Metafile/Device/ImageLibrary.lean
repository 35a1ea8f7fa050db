import Metafile.Bitmap.Header

/-!
# `Metafile.Device.ImageLibrary`: pictures that brushes repeat

A picture that a brush repeats is defined once. The library remembers which header and bits got
which number, so a second brush of the same picture refers to the first definition.

`find?_add` states that a picture is found after it was added.
-/

set_option autoImplicit false

namespace Metafile.Device

open Metafile.Bitmap (Picture)

/-- The pictures that are defined, in the order of their numbers from one on. -/
abbrev ImageLibrary := Array Picture

namespace ImageLibrary

/-- The number of a picture, if it is defined. The first of equal pictures counts. -/
def find? (l : ImageLibrary) (p : Picture) : Option Nat :=
  (l.idxOf? p).map (· + 1)

/-- The library with a picture added, which gets the next number. -/
def add (l : ImageLibrary) (p : Picture) : ImageLibrary × Nat :=
  (l.push p, l.size + 1)

/-- A picture is found after it was added. -/
theorem find?_add (l : ImageLibrary) (p : Picture) : (find? (l.add p).1 p).isSome := by
  simp [find?, add]

/-- The number of a picture is that of its place. -/
theorem find?_eq_some {l : ImageLibrary} {p : Picture} {id : Nat} (h : l.find? p = some id) :
    0 < id ∧ id ≤ l.size ∧ l[id - 1]? = some p := by
  unfold find? Array.idxOf? at h
  simp only [Option.map_eq_some_iff] at h
  obtain ⟨_, ⟨k, hk, rfl⟩, rfl⟩ := h
  refine ⟨Nat.succ_pos _, k.2, ?_⟩
  rw [Nat.add_sub_cancel, Array.getElem?_eq_getElem k.2]
  exact congrArg some (Array.finIdxOf?_eq_some_iff.1 hk).1

end ImageLibrary

end Metafile.Device
