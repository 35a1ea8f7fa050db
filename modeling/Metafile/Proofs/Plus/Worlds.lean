import Mathlib.Data.List.DropRight
import Mathlib.Tactic.LinearCombination
import Metafile.Proofs.Bytes.Offsets
import Metafile.Proofs.Geometry.Exact
import Metafile.Proofs.Plus.SavedStates

/-!
# `Metafile.Proofs.Plus.Worlds`: the world transform as a composition of maps

Records replace the world transform, or multiply it by a map that acts before or after what is
there. The player keeps one matrix, and the matrix grows on both sides. What it should do to a
point is known from the records alone: `WorldRecord.actions` lists the maps that they name, in the
order in which they act. Those that act before stand in front, the latest of them first, and those
that act after stand behind in the order of the records. A record that replaces what is there
begins anew.

`WorldRecord.apply_worldAfter` says that the matrix does what these maps do one after the other,
by induction on the records from the last one on. `containerMap_corner` says the same of a
container by its corners. Both are exact arithmetic. `Stage.playCues_world` ties them to the
player: its world transform is the same function of the same records, at floating-point numbers
that stand in the bytes of the records.
-/

set_option autoImplicit false

namespace Metafile

/-- A corner of a rectangle: the one that is stored, or one that lies a side or two further on. -/
def Rect.corner (r : Rect Rat) (right bottom : Bool) : Point Rat :=
  ⟨if right then r.x + r.width else r.x, if bottom then r.y + r.height else r.y⟩

namespace Plus

/-! ### Records by their numbers -/

/-- A map of the plane, with the numbers by which a record names it. -/
inductive Motion (α : Type) where
  | affine (m : Affine α)
  | translation (v : Point α)
  | scaling (k : Point α)
  /-- A turn by the angle that has this sine and this cosine. -/
  | rotation (sin cos : α)

/-- The matrix of a map. -/
def Motion.map {α : Type} [Scalar α] : Motion α → Affine α
  | .affine m => m
  | .translation v => .translation v.x v.y
  | .scaling k => .scaling k.x k.y
  | .rotation sin cos => .rotation sin cos

/-- Where a map takes a point. Angles grow from the first axis to the second one. -/
def Motion.move : Motion Rat → Point Rat → Point Rat
  | .affine m, p => m.apply p
  | .translation v, p => p.shift v
  | .scaling k, p => ⟨p.x * k.x, p.y * k.y⟩
  | .rotation sin cos, p => ⟨p.x * cos - p.y * sin, p.x * sin + p.y * cos⟩

/-- A matrix does what its map does. -/
theorem Motion.apply_map (motion : Motion Rat) (p : Point Rat) :
    motion.map.apply p = motion.move p := by
  cases motion with
  | affine m => rfl
  | translation v => exact Affine.apply_translation v.x v.y p
  | scaling k => exact Affine.apply_scaling k.x k.y p
  | rotation sin cos => exact Affine.apply_rotation sin cos p

/-- What a record says about the world transform. -/
inductive WorldRecord (α : Type) where
  | set (m : Affine α)
  | reset
  /-- A map that acts after what is there, or before it. -/
  | multiply (after : Bool) (motion : Motion α)

namespace WorldRecord

section

variable {α : Type} [Scalar α]

/-- The change that a record asks for. -/
def change : WorldRecord α → WorldChange α
  | .set m => .set m
  | .reset => .reset
  | .multiply after motion => .multiply after motion.map

/-- The world transform after some records. -/
def worldAfter (world : Affine α) (records : List (WorldRecord α)) : Affine α :=
  records.foldl (fun world r => r.change.onto world) world

/-- The last record changes what the others have made. -/
theorem worldAfter_concat (world : Affine α) (records : List (WorldRecord α))
    (r : WorldRecord α) :
    worldAfter world (records ++ [r]) = r.change.onto (worldAfter world records) :=
  List.foldl_concat ..

end

/-! ### The maps in the order in which they act -/

/-- Whether a record replaces what is there. -/
def replaces {α : Type} : WorldRecord α → Bool
  | .multiply .. => false
  | _ => true

/-- Whether a record names a map that acts after what is there. -/
def isAfter {α : Type} : WorldRecord α → Bool
  | .multiply after _ => after
  | _ => false

/-- Where the map that a record names takes a point. -/
def move : WorldRecord Rat → Point Rat → Point Rat
  | .set m => m.apply
  | .reset => id
  | .multiply _ motion => motion.move

/-- The maps that act on a point after some records, the first to act first. In the middle stands
the last record that replaces what was there, or what was there before all records. Around it
stand the records since then. -/
def actions (world : Affine Rat) (records : List (WorldRecord Rat)) :
    List (Point Rat → Point Rat) :=
  let middle := ((records.filter replaces).getLast?.map move).getD world.apply
  let since := records.rtakeWhile (!·.replaces)
  (since.filter (!·.isAfter)).reverse.map move ++ middle :: (since.filter isAfter).map move

section

variable (world : Affine Rat) (records : List (WorldRecord Rat))

/-- A record that replaces what is there is the only one to act. -/
theorem actions_replaced {r : WorldRecord Rat} (h : r.replaces = true) :
    actions world (records ++ [r]) = [r.move] := by
  have hsince : (records ++ [r]).rtakeWhile (!·.replaces) = [] :=
    List.rtakeWhile_concat_neg _ _ _ (by simp [h])
  have hmiddle : ((records ++ [r]).filter replaces).getLast? = some r := by
    simp [List.filter_append, h]
  simp only [actions, hsince, hmiddle]
  rfl

/-- A record since then changes what stands around the middle, and not the middle. -/
theorem actions_multiplied (after : Bool) (motion : Motion Rat) :
    actions world (records ++ [.multiply after motion]) =
      if after then actions world records ++ [motion.move]
      else motion.move :: actions world records := by
  have hsince : (records ++ [multiply after motion]).rtakeWhile (!·.replaces) =
      records.rtakeWhile (!·.replaces) ++ [multiply after motion] :=
    List.rtakeWhile_concat_pos _ _ _ rfl
  have hmiddle :
      (records ++ [multiply after motion]).filter replaces = records.filter replaces := by
    simp [List.filter_append, replaces]
  simp only [actions, hsince, hmiddle, List.filter_append]
  cases after with
  | true => simp [List.filter_singleton, isAfter, move]
  | false => simp [isAfter, move]

/-- The world transform does to a point what the maps of the records do, one after the other. -/
theorem apply_worldAfter (p : Point Rat) :
    (worldAfter world records).apply p =
      (actions world records).foldl (fun q act => act q) p := by
  -- on the left the last record stands outside, on the right it may stand at either end
  induction records using List.reverseRecOn generalizing p with
  | nil => rfl
  | append_singleton records r ih =>
      rw [worldAfter_concat]
      cases r with
      | set m =>
          rw [actions_replaced world records rfl]
          rfl
      | reset =>
          rw [actions_replaced world records rfl]
          exact Affine.apply_identity p
      | multiply after motion =>
          rw [actions_multiplied]
          cases after with
          | true =>
              show ((worldAfter world records).followedBy motion.map).apply p = _
              rw [Affine.apply_followedBy, Motion.apply_map, ih, if_pos rfl, List.foldl_concat]
          | false =>
              show (motion.map.followedBy (worldAfter world records)).apply p = _
              rw [Affine.apply_followedBy, Motion.apply_map, ih]
              rfl

end

end WorldRecord

/-- Of the maps that act before, the one that comes last is the first to act. -/
example (world : Affine Rat) (a b c : Motion Rat) :
    WorldRecord.actions world [.multiply false a, .multiply true c, .multiply false b] =
      [b.move, a.move, world.apply, c.move] :=
  rfl

/-! ### Containers by their corners -/

/-- Along one axis: an end of a source that has a length goes to that end of the target. -/
theorem fit_end {source : Rat} (h : source ≠ 0) (start target start' : Rat) (far : Bool) :
    (if far then start + source else start) * fit target source +
        (start' - start * fit target source) =
      if far then start' + target else start' := by
  have hlength : source * fit target source = target := by
    rw [fit, Scalar.isZero_of_ne h]
    exact mul_div_cancel₀ target h
  cases far with
  | true =>
      show (start + source) * fit target source + (start' - start * fit target source) =
        start' + target
      linear_combination hlength
  | false => exact add_sub_cancel (start * fit target source) start'

/-- The map of a container takes every corner of the source to that corner of the target. -/
theorem containerMap_corner (target : Rect Rat) {source : Rect Rat} (hwidth : source.width ≠ 0)
    (hheight : source.height ≠ 0) (right bottom : Bool) :
    (containerMap target source).apply (source.corner right bottom) =
      target.corner right bottom := by
  simp only [containerMap, Affine.apply, Rect.corner, Scalar.zero_rat, mul_zero,
    add_zero, zero_add, fit_end hwidth, fit_end hheight]

/-- Inside of a container, the corners of the source lie where those of the target lay before. -/
theorem enterContainer_corner (world : Affine Rat) (target : Rect Rat) {source : Rect Rat}
    (hwidth : source.width ≠ 0) (hheight : source.height ≠ 0) (right bottom : Bool) :
    (enterContainer target source world).apply (source.corner right bottom) =
      world.apply (target.corner right bottom) := by
  rw [enterContainer, Affine.apply_followedBy, containerMap_corner target hwidth hheight]

/-! ### Records by their bytes -/

/-- The rectangle of four floating-point numbers at an offset. -/
def rectAt (data : Bytes) (offset : Nat) : Rect Float where
  x := data.floatAt offset
  y := data.floatAt (offset + 4)
  width := data.floatAt (offset + 8)
  height := data.floatAt (offset + 12)

/-- A rectangle is four floating-point numbers: its corner, its width and its height. -/
theorem gets_floatRect : Decode.Gets floatRect 16 rectAt :=
  Cursor.gets_f32.bind fun x => Cursor.gets_f32.bind fun y => Cursor.gets_f32.bind fun width =>
    Cursor.gets_f32.map fun height => (⟨x, y, width, height⟩ : Rect Float)

/-- Two floating-point numbers, one behind the other. -/
theorem gets_floatPair :
    Decode.Gets floatPair 8 fun data offset => (data.floatAt offset, data.floatAt (offset + 4)) :=
  Cursor.gets_f32.bind fun a => Cursor.gets_f32.map fun b => (a, b)

/-- A container has the rectangle on the page, the one that is mapped to it, and the index of the
state. -/
theorem gets_containerCommand :
    Decode.Gets containerCommand 36 fun data offset =>
      .container (rectAt data offset) (rectAt data (offset + 16)) (data.wordAt (offset + 32) 4) :=
  gets_floatRect.bind fun target => gets_floatRect.bind fun source =>
    Cursor.gets_u32.map fun index => Command.container target source index

/-- The change of the world transform that a command asks for. A container acts before what is
there. -/
def Command.worldChange? : Command → Option (WorldChange Float)
  | .world change => some change
  | .container target source _ => some (.multiply false (containerMap target source))
  | _ => none

namespace Stage

namespace Cue

/-- What a record says, if its payload has as many bytes as that takes. -/
def whole (q : Cue) (width : Nat) (r : WorldRecord Float) : Option (WorldRecord Float) :=
  if width ≤ q.payload.length then some r else none

/-- What a record says about the world transform. A flag tells on which side a map is multiplied,
and the angle of a turn is given in degrees. A record that is cut short says nothing. -/
def worldRecord? (q : Cue) : Option (WorldRecord Float) :=
  let float (offset : Nat) : Float := q.payload.floatAt offset
  let after := hasFlag q.flags 0x2000
  match q.kind with
  | .setWorldTransform => q.whole 24 (.set (q.payload.affineAt 0))
  | .resetWorldTransform => q.whole 0 .reset
  | .multiplyWorldTransform => q.whole 24 (.multiply after (.affine (q.payload.affineAt 0)))
  | .translateWorldTransform => q.whole 8 (.multiply after (.translation ⟨float 0, float 4⟩))
  | .scaleWorldTransform => q.whole 8 (.multiply after (.scaling ⟨float 0, float 4⟩))
  | .rotateWorldTransform =>
    let angle := Angle.radians (float 0)
    q.whole 4 (.multiply after (.rotation angle.sin angle.cos))
  | .beginContainer =>
    let map := containerMap (rectAt q.payload 0) (rectAt q.payload 16)
    q.whole 36 (.multiply false (.affine map))
  | _ => none

/-- What is read from a payload asks for the change that the record says, if all of it is there.
-/
theorem first_worldChange? (q : Cue) {d : Decode Command} {width : Nat}
    {c : Bytes → Nat → Command} {r : WorldRecord Float} (h : d.Gets width c)
    (hr : (c q.payload 0).worldChange? = some r.change) :
    (d.first q.payload).toOption.bind Command.worldChange? =
      (q.whole width r).map WorldRecord.change := by
  rw [h.first_toOption, whole]
  split
  · exact hr
  · rfl

/-- A record whose command asks for no change asks for none, whether or not it can be read. -/
theorem worldChange?_eq_none (q : Cue)
    (h : ∀ c, Command.ofRecord q.kind q.flags q.payload = .ok c → c.worldChange? = none) :
    (Command.ofRecord q.kind q.flags q.payload).toOption.bind Command.worldChange? = none := by
  cases hread : Command.ofRecord q.kind q.flags q.payload with
  | ok c => exact h c hread
  | error cause => rfl

/-- A record asks for the change of the world transform that it says, or for none. -/
theorem command_worldChange? (q : Cue) :
    (Command.ofRecord q.kind q.flags q.payload).toOption.bind Command.worldChange? =
      q.worldRecord?.map WorldRecord.change := by
  obtain ⟨scale, kind, flags, payload⟩ := q
  let q : Cue := ⟨scale, kind, flags, payload⟩
  cases kind with
  | setWorldTransform =>
      exact q.first_worldChange? (Cursor.gets_affine.map fun m => Command.world (.set m)) rfl
  | resetWorldTransform =>
      exact q.first_worldChange? (Decode.gets_pure (Command.world .reset)) rfl
  | multiplyWorldTransform =>
      exact q.first_worldChange? (Cursor.gets_affine.map (multiply flags)) rfl
  | translateWorldTransform =>
      exact q.first_worldChange?
        (gets_floatPair.map fun v => multiply flags (.translation v.1 v.2)) rfl
  | scaleWorldTransform =>
      exact q.first_worldChange?
        (gets_floatPair.map fun k => multiply flags (.scaling k.1 k.2)) rfl
  | rotateWorldTransform =>
      exact q.first_worldChange? (Cursor.gets_f32.map fun degrees =>
        multiply flags (.rotation (Angle.radians degrees).sin (Angle.radians degrees).cos)) rfl
  | beginContainer => exact q.first_worldChange? gets_containerCommand rfl
  | save | beginContainerNoParams =>
      -- these are about saving as containers are, but the index is all that they say
      have hsave : (do return Command.save (← Cursor.u32) : Decode Command).Yields
          fun c => c.worldChange? = none :=
        Decode.yields_bind fun _ => Decode.yields_pure rfl
      exact q.worldChange?_eq_none fun _ => hsave.first
  | _ =>
      refine q.worldChange?_eq_none fun c hread => ?_
      have hconcern := Command.ofRecord_concern hread
      cases c with
      | world | container => cases hconcern
      | _ => rfl

end Cue

variable {s : Stage} {q : Cue}

/-- A command that does not return does to the world transform what it asks for. -/
theorem perform_world {scale : Float} {c : Command} (h : c.concern ≠ .returning) :
    (s.perform scale c).1.player.world =
      (c.worldChange?.map (·.onto s.player.world)).getD s.player.world := by
  cases c with
  | header dual resolution =>
      unfold perform header
      cases resolution <;> rfl
  | object type id fragment =>
      exact congrArg (·.world) (Collects.receive type id fragment s).player
  | restore => exact absurd rfl h
  | _ => rfl

/-- The arrival of a record leaves the world transform alone. -/
theorem Collects.world {t : Stage} (h : Collects s t) : t.player.world = s.player.world := by
  rw [h.player]

/-- A record that does not return does to the world transform what it says. -/
theorem playRecord_world (h : q.kind.concern ≠ .returning) :
    (s.playRecord q.scale q.kind q.flags q.payload).player.world =
      WorldRecord.worldAfter s.player.world q.worldRecord?.toList := by
  have hchange := q.command_worldChange?
  -- the arrival of a record leaves the world transform to its command
  have harrive := (Collects.arrive q.kind s).world
  rw [playRecord_eq, (report_alike _ _).player]
  cases hread : Command.ofRecord q.kind q.flags q.payload with
  | error cause =>
      rw [hread] at hchange
      rw [handle_of_error hread, Option.map_eq_none_iff.1 hchange.symm]
      exact harrive
  | ok c =>
      have hconcern : c.concern ≠ .returning := Command.ofRecord_concern hread ▸ h
      have hasks : c.worldChange? = q.worldRecord?.map WorldRecord.change := by
        rw [hread] at hchange
        exact hchange
      rw [handle_of_ok hread, perform_world hconcern, harrive, hasks]
      cases q.worldRecord? with
      | none => rfl
      | some r => rfl

/-- After records that do not return, the world transform is what those of them that are about it
say. -/
theorem playCues_world {cues : List Cue} (h : ∀ q ∈ cues, q.kind.concern ≠ .returning) :
    (s.playCues cues).player.world =
      WorldRecord.worldAfter s.player.world (cues.filterMap Cue.worldRecord?) := by
  induction cues generalizing s with
  | nil => rfl
  | cons q rest ih =>
      show ((s.playRecord q.scale q.kind q.flags q.payload).playCues rest).player.world = _
      rw [ih fun p hp => h p (List.mem_cons_of_mem q hp),
        playRecord_world (h q List.mem_cons_self)]
      cases hr : q.worldRecord? with
      | none => rw [List.filterMap_cons_none hr]; rfl
      | some r => rw [List.filterMap_cons_some hr]; rfl

/-- A container is entered by its rectangles, if its record holds them and an index. -/
theorem playRecord_container (h : q.kind = .beginContainer) (hlength : 36 ≤ q.payload.length) :
    (s.playRecord q.scale q.kind q.flags q.payload).player.world =
      enterContainer (rectAt q.payload 0) (rectAt q.payload 16) s.player.world := by
  let map : Affine Float := containerMap (rectAt q.payload 0) (rectAt q.payload 16)
  have hrecord : q.worldRecord? = q.whole 36 (.multiply false (.affine map)) := by
    rw [Cue.worldRecord?, h]
  rw [playRecord_world (h ▸ nofun), hrecord, Cue.whole, if_pos hlength]
  rfl

/-- The world transform composes the maps of the records. What the player holds after records that
do not return is a function of those that are about it. With exact arithmetic, it does to a point
what their maps do, in the order of `WorldRecord.actions`. In a container that a record begins,
the corners of the source lie where those of the target lay outside. -/
theorem world_composes (s : Stage) (world : Affine Rat) :
    (∀ cues : List Cue, (∀ q ∈ cues, q.kind.concern ≠ .returning) →
      (s.playCues cues).player.world =
        WorldRecord.worldAfter s.player.world (cues.filterMap Cue.worldRecord?)) ∧
    (∀ records p, (WorldRecord.worldAfter world records).apply p =
      (WorldRecord.actions world records).foldl (fun q act => act q) p) ∧
    (∀ q : Cue, q.kind = .beginContainer → 36 ≤ q.payload.length →
      (s.playRecord q.scale q.kind q.flags q.payload).player.world =
        enterContainer (rectAt q.payload 0) (rectAt q.payload 16) s.player.world) ∧
    ∀ target source : Rect Rat, source.width ≠ 0 → source.height ≠ 0 → ∀ right bottom,
      (enterContainer target source world).apply (source.corner right bottom) =
        world.apply (target.corner right bottom) :=
  ⟨fun _ => playCues_world, WorldRecord.apply_worldAfter world, fun _ => playRecord_container,
    fun target _ => enterContainer_corner world target⟩

/-- Some records, of which the first one is replaced. -/
def turned : List (WorldRecord Rat) :=
  [.multiply true (.translation ⟨1, 1⟩), .set ⟨2, 0, 0, 3, 5, 7⟩,
    .multiply false (.rotation (3 / 5) (4 / 5)), .multiply true (.scaling ⟨2, 1⟩),
    .multiply false (.translation ⟨10, 0⟩)]

/-- A point is moved by the last record first, then turned, then taken where the new transform
says, and scaled at the end. -/
theorem world_composes_turned :
    let s : Stage := ⟨.initial, #[], #[]⟩
    let scaling : Bytes := [0, 0, 0, 0x40, 0, 0, 0x80, 0x3f]
    let cues : List Cue :=
      [⟨1, .scaleWorldTransform, 0x2000, scaling⟩, ⟨1, .save, 0, [1, 0, 0, 0]⟩,
      ⟨1, .rotateWorldTransform, 0, [0, 0]⟩, ⟨1, .resetWorldTransform, 0x2000, []⟩]
    let container : Cue := ⟨1, .beginContainer, 0, List.replicate 36 0⟩
    let outside : Affine Rat := ⟨0, 1, 1, 0, 5, 5⟩
    (s.playCues cues).player.world = WorldRecord.worldAfter Affine.identity
      [.multiply true (.scaling ⟨scaling.floatAt 0, scaling.floatAt 4⟩), .reset] ∧
    (WorldRecord.worldAfter outside turned).apply ⟨0, 5⟩ = ⟨30, 37⟩ ∧
    (s.playRecord container.scale container.kind container.flags container.payload).player.world =
      enterContainer (rectAt container.payload 0) (rectAt container.payload 16) Affine.identity ∧
    (enterContainer ⟨10, 20, 30, 40⟩ ⟨1, 2, 3, -4⟩ outside).apply ⟨4, -2⟩ = ⟨65, 45⟩ := by
  intro s scaling cues container outside
  obtain ⟨hcues, hpoint, hbegins, hcorner⟩ := world_composes s outside
  have hmoved :
      (WorldRecord.actions outside turned).foldl (fun q act => act q) ⟨0, 5⟩ = ⟨30, 37⟩ := by
    decide +kernel
  have hsource : Rect.corner ⟨1, 2, 3, -4⟩ true true = ⟨4, -2⟩ := by decide +kernel
  have htarget : outside.apply (Rect.corner ⟨10, 20, 30, 40⟩ true true) = ⟨65, 45⟩ := by
    decide +kernel
  refine ⟨hcues cues (by decide +kernel), (hpoint turned _).trans hmoved,
    hbegins container rfl (by decide), ?_⟩
  rw [← hsource, ← htarget]
  exact hcorner _ _ (by decide +kernel) (by decide +kernel) true true

end Stage

end Plus

end Metafile
