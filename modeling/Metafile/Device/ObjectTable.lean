import Metafile.Device.Context

/-!
# `Metafile.Device.ObjectTable`: slots for drawing tools

A metafile declares how many handles it uses. Records put a tool into the slot of a handle, select
it and delete it. A handle past the end of the table is a fault. Slot zero exists and is reserved.

`get_set` states that a slot gives back what was put into it.
-/

set_option autoImplicit false

namespace Metafile.Device

/-- Slots for tools, addressed by handle. -/
structure ObjectTable where
  slots : Array (Option Tool)
deriving Repr, Inhabited

namespace ObjectTable

/-- The table before the header is read: it has no slots. -/
def empty : ObjectTable := ⟨#[]⟩

/-- A table of empty slots for so many handles, and slot zero. -/
def ofHandles (handles : Nat) : ObjectTable := ⟨Array.replicate (handles + 1) none⟩

/-- The highest handle of the table. -/
def size (t : ObjectTable) : Nat := t.slots.size - 1

/-- Refuses a handle past the end of a table. -/
def checkIndex (size index : Nat) : Except Fault Unit :=
  if index ≤ size then .ok () else .error (.outOfBounds (.objectIndex size index))

/-- The tool of a handle, if its slot holds one. -/
def get (t : ObjectTable) (index : Nat) : Except Fault (Option Tool) := do
  checkIndex t.size index
  return (t.slots[index]?).join

/-- Puts something into the slot of a handle. -/
def set (t : ObjectTable) (index : Nat) (tool : Option Tool) : Except Fault ObjectTable := do
  checkIndex t.size index
  return ⟨t.slots.setIfInBounds index tool⟩

/-- Empties the slot of a handle. -/
def delete (t : ObjectTable) (index : Nat) : Except Fault ObjectTable :=
  t.set index none

/-- The context with the tool of a handle selected. An empty slot selects nothing. -/
def select (t : ObjectTable) (index : Nat) (c : Context) : Except Fault Context := do
  return (← t.get index).elim c c.select

/-- Putting something into a slot adds no slot. -/
theorem size_set {t u : ObjectTable} {index : Nat} {tool : Option Tool}
    (h : t.set index tool = .ok u) : u.slots.size = t.slots.size := by
  unfold set checkIndex at h
  split at h
  · rw [← Except.ok.inj h]
    exact Array.size_setIfInBounds
  · cases h

/-- Every handle up to the highest can be given a tool. -/
theorem set_of_le {t : ObjectTable} {index : Nat} (h : index ≤ t.size) (tool : Option Tool) :
    ∃ u, t.set index tool = .ok u :=
  ⟨⟨t.slots.setIfInBounds index tool⟩, by unfold set checkIndex; rw [if_pos h]; rfl⟩

/-- In a table with slots, a slot gives back what was put into it. -/
theorem get_set (t u : ObjectTable) (index : Nat) (tool : Option Tool)
    (hslots : 0 < t.slots.size) (h : t.set index tool = .ok u) : u.get index = .ok tool := by
  unfold set checkIndex at h
  split at h
  · rename_i hle
    obtain rfl : (⟨t.slots.setIfInBounds index tool⟩ : ObjectTable) = u := Except.ok.inj h
    have hlt : index < t.slots.size := by unfold size at hle; omega
    have hle' : index ≤ (ObjectTable.mk (t.slots.setIfInBounds index tool)).size := by
      simpa [size] using hle
    unfold get checkIndex
    rw [if_pos hle']
    simp [bind, Except.bind, pure, Except.pure, hlt]
  · exact absurd h (by simp [bind, Except.bind])

end ObjectTable

end Metafile.Device
