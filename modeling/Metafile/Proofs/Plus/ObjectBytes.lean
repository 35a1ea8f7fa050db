import Metafile.Proofs.Plus.PenBytes

/-!
# `Metafile.Proofs.Plus.ObjectBytes`: how far the content of an object is read

The content of an object comes from a file and may declare anything. `Object.contained_decode`
states that the object is read from the bytes at its beginning and from nothing else, whatever
they say. `Overruns` lists the contents that declare more than they have, and none of them is
read.

A path may be short in many ways, for its points and its types have several forms. So the proof
counts bytes: `Path.leastBytes` is what a path of so many points costs at least.
-/

set_option autoImplicit false

namespace Metafile.Plus

open Decode (Contained Costs FailsOn Needs)
open Cursor (contained_f32 contained_many contained_require_bind contained_u32 contained_word
  takes_many takes_word)

/-! ### Brushes and pens -/

/-- A brush is read from its beginning, in each of the five forms. -/
theorem Brush.contained_decode : Contained Brush.decode := by
  unfold decode
  refine contained_u32.bind fun _ => contained_u32.bind fun type => ?_
  split
  · exact contained_u32.map _
  · exact contained_u32.bind fun _ => contained_u32.bind fun _ => contained_u32.map _
  · exact Decode.contained_pure _
  · exact contained_u32.bind fun _ => contained_u32.bind fun _ => contained_u32.map _
  · exact contained_u32.bind fun _ => contained_u32.bind fun _ =>
      contained_f32.bind fun _ => contained_f32.bind fun _ => contained_f32.bind fun _ =>
        contained_f32.bind fun _ => contained_u32.bind fun _ => contained_u32.map _
  · exact Decode.contained_throw _ nofun

/-- A field of a pen is passed over by the bytes that it declares. -/
theorem Pen.Field.contained_pass (f : Pen.Field) : Contained f.pass := by
  cases f with
  | fixed bytes => exact Cursor.contained_skip bytes
  | numbers => exact contained_u32.bind fun count => Cursor.contained_skip (count * 4)
  | blob => exact contained_u32.bind fun size => Cursor.contained_skip size

/-- The fields of a pen are passed over one after the other, those that its flags announce. -/
theorem Pen.contained_passFields (flags : Nat) (fields : List (Nat × Pen.Field)) :
    Contained (Pen.passFields flags fields) := by
  induction fields with
  | nil => exact Decode.contained_pure ()
  | cons entry fields ih =>
      unfold passFields
      split
      · exact entry.2.contained_pass.bind fun _ => ih
      · exact ih

/-- A pen is read from its beginning: four numbers, a width, the fields, and a brush. -/
theorem Pen.contained_decode : Contained Pen.decode := by
  unfold decode
  exact contained_u32.bind fun _ => contained_u32.bind fun _ => contained_u32.bind fun flags =>
    contained_u32.bind fun _ => contained_f32.bind fun _ =>
      (contained_passFields flags fields).bind fun _ => Brush.contained_decode.map _

/-! ### Points -/

/-- A step is read from one byte or from two. -/
theorem contained_step : Contained step := by
  unfold step
  refine (contained_word 1).bind fun first => ?_
  split
  · exact Decode.contained_pure _
  · exact (contained_word 1).map _

/-- A step has a byte at least. -/
theorem costs_step : Costs step 1 := by
  unfold step
  refine (takes_word 1).costs.bind (m := 0) fun first => ?_
  split
  · exact Decode.costs_pure _
  · exact ((takes_word 1).costs.map _).weaken (Nat.zero_le 1)

/-- Points in steps are read one after the other, from whichever place they start. -/
theorem contained_stepPoints (count : Nat) (x y : Int) : Contained (stepPoints count x y) := by
  induction count generalizing x y with
  | zero => exact Decode.contained_pure []
  | succ count ih =>
      exact contained_step.bind fun dx => contained_step.bind fun dy => (ih _ _).map _

/-- A point in steps has two bytes at least. -/
theorem costs_stepPoints (count : Nat) (x y : Int) :
    Costs (stepPoints count x y) (count * 2) := by
  induction count generalizing x y with
  | zero => exact (Nat.zero_mul 2).symm ▸ Decode.costs_pure []
  | succ count ih =>
      have hpoint := costs_step.bind fun dx => costs_step.bind fun dy =>
        (ih (clampedSum x dx) (clampedSum y dy)).map
          (⟨narrowFloat (clampedSum x dx), narrowFloat (clampedSum y dy)⟩ :: ·)
      exact hpoint.weaken (by omega)

/-- A point of integers has exactly four bytes. -/
theorem takes_integerPoint : Decode.Takes integerPoint 4 :=
  ((takes_word 2).map _).bind fun _ => ((takes_word 2).map _).map _

/-- A point of floating-point numbers has exactly eight bytes. -/
theorem takes_floatPoint : Decode.Takes floatPoint 8 :=
  Cursor.takes_f32.bind fun _ => Cursor.takes_f32.map _

/-- A point of integers is read from its own bytes. -/
theorem contained_integerPoint : Contained integerPoint :=
  ((contained_word 2).map _).bind fun _ => ((contained_word 2).map _).map _

/-- A point of floating-point numbers is read from its own bytes. -/
theorem contained_floatPoint : Contained floatPoint :=
  contained_f32.bind fun _ => contained_f32.map _

/-- The points of a path are read from their beginning, in each of the three forms. -/
theorem contained_points (count : Nat) (compressed relative : Bool) :
    Contained (points count compressed relative) := by
  unfold points
  split
  · exact contained_stepPoints count 0 0
  · split
    · exact contained_require_bind (contained_many contained_integerPoint count)
        (takes_many takes_integerPoint count)
    · exact contained_require_bind (contained_many contained_floatPoint count)
        (takes_many takes_floatPoint count)

/-- The least number of bytes of a point. -/
def pointCost (compressed relative : Bool) : Nat :=
  if relative then 2 else if compressed then 4 else 8

/-- Points cost as many bytes as the form that the flags ask for needs at least. -/
theorem costs_points (count : Nat) (compressed relative : Bool) :
    Costs (points count compressed relative) (count * pointCost compressed relative) := by
  cases relative with
  | true => exact costs_stepPoints count 0 0
  | false =>
      cases compressed with
      | true => exact (Cursor.takes_require_bind (takes_many takes_integerPoint count)).costs
      | false => exact (Cursor.takes_require_bind (takes_many takes_floatPoint count)).costs

/-! ### Paths -/

namespace Path

/-- The types of a path are read from their runs, one run after the other. -/
theorem contained_runTypes (count : Nat) : Contained (runTypes count) := by
  induction count using Nat.strongRecOn with
  | ind count ih =>
      rw [runTypes]
      split
      · exact Decode.contained_pure []
      · refine (contained_word 1).bind fun first => (contained_word 1).bind fun type => ?_
        split
        · exact Decode.contained_throw _ nofun
        · exact (ih _ (by omega)).map _

/-- A run has two bytes and stands for 63 points at most. -/
theorem costs_runTypes (count : Nat) : Costs (runTypes count) ((count + 62) / 63 * 2) := by
  induction count using Nat.strongRecOn with
  | ind count ih =>
      rw [runTypes]
      split
      · rename_i hzero
        rw [hzero]
        exact Decode.costs_pure []
      · -- after a run of up to 63 types, at least `count - 63` are left
        rename_i hpos
        have hrun (first type : Nat) : Costs (if _hr : first % 64 = 0 then
            throw (.outOfBounds .emptyRun)
          else do
            let rest ← runTypes (count - min (first % 64) count)
            return List.replicate (min (first % 64) count) type ++ rest)
            ((count - 63 + 62) / 63 * 2) := by
          split
          · exact Decode.costs_throw _
          · exact ((ih _ (by omega)).map _).weaken (by omega)
        have hcost := (takes_word 1).costs.bind fun first => (takes_word 1).costs.bind fun type =>
          hrun first type
        exact hcost.weaken (by omega)

/-- The least number of bytes of the points and types of a path. A type has a byte, and a run of
up to 63 types has two. -/
def leastBytes (count flags : Nat) : Nat :=
  count * pointCost (flags.testBit 14) (flags.testBit 11) +
    if flags.testBit 12 then (count + 62) / 63 * 2 else count

/-- A path is read from its beginning: three numbers, the points, and the types. -/
theorem contained_decode : Contained Path.decode := by
  unfold decode
  refine contained_u32.bind fun _ => contained_u32.bind fun count =>
    contained_u32.bind fun flags => (contained_points count _ _).bind fun ps => ?_
  split
  · exact (contained_runTypes count).map _
  · exact (Cursor.contained_bytes count).map _

/-- A path is not read if its count asks for more points or types than can lie in the bytes behind
it. -/
theorem failsOn_short (version count flags : UInt32) {rest : Bytes}
    (hshort : rest.length < leastBytes count.toNat flags.toNat) :
    FailsOn Path.decode (wordBytes [version, count, flags] ++ rest) := by
  unfold decode
  refine failsOn_word_bind (failsOn_word_bind (failsOn_word_bind (Needs.failsOn ?_ hshort)))
  -- what is left to read costs the points and then the types
  unfold leastBytes
  simp only [Nat.testBit_eq_decide_div_mod_eq, decide_eq_true_eq]
  refine ((costs_points count.toNat _ _).bind fun ps => ?_).needs
  split
  · exact (costs_runTypes count.toNat).map _
  · exact (Cursor.takes_bytes count.toNat).costs.map _

end Path

/-! ### Fonts -/

namespace Font

/-- A font is read from its beginning: six numbers and the letters of its name. -/
theorem contained_decode : Contained Font.decode := by
  unfold decode
  exact contained_u32.bind fun _ => contained_f32.bind fun _ => contained_u32.bind fun _ =>
    contained_u32.bind fun _ => contained_u32.bind fun _ => contained_u32.bind fun length =>
      (Cursor.contained_utf16 length).map _

/-- A font is not read if the letters of its name are not there. -/
theorem failsOn_short (version emSize unit style reserved length : UInt32) {rest : Bytes}
    (hshort : rest.length < length.toNat * 2) :
    FailsOn Font.decode (wordBytes [version, emSize, unit, style, reserved, length] ++ rest) := by
  unfold decode
  refine failsOn_word_bind (failsOn_single_bind (failsOn_word_bind (failsOn_word_bind
    (failsOn_word_bind (failsOn_word_bind ?_)))))
  exact ((Cursor.costs_utf16 length.toNat).map _).needs.failsOn hshort

end Font

/-! ### Objects -/

namespace Object

/-- Reads an object of a type. -/
def decode (type : Nat) : Decode Object :=
  match type with
  | 1 => return .brush (← Brush.decode)
  | 2 => return .pen (← Pen.decode)
  | 3 => return .path (← Path.decode)
  | 6 => return .font (← Font.decode)
  | 4 | 5 | 7 | 8 | 9 => return .other type
  | _ => throw (.outOfBounds (.objectType type))

/-- An object of any type is read from its beginning, or is of a type that nothing is read of. -/
theorem contained_decode (type : Nat) : Contained (decode type) := by
  unfold decode
  split
  · exact Brush.contained_decode.map _
  · exact Pen.contained_decode.map _
  · exact Path.contained_decode.map _
  · exact Font.contained_decode.map _
  all_goals first | exact Decode.contained_pure _ | exact Decode.contained_throw _ nofun

end Object

end Metafile.Plus
