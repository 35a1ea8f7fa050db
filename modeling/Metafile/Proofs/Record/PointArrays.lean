import Mathlib.Data.List.SplitLengths
import Metafile.Proofs.Bytes.Offsets
import Metafile.Proofs.Record.PointWidths

/-!
# `Metafile.Proofs.Record.PointArrays`: the arrays of a record of points

Records of points announce their points by a number, and the points of some of them come with
sizes of groups or with types. Here the arrays are found by their offsets in the bytes, for any
bytes: which records are read (`first_groups_eq_ok`, `first_typedPoints_eq_ok`) and what is read.

The points of several polylines are one array, from which the groups are taken one after the
other. `groups_partition` states when a record of them is drawn and that its groups are
neighbouring parts of this array, as long as the record says.
-/

set_option autoImplicit false

namespace Metafile.Record

open Bytes (pointsAt wordAt wordsAt)
open Cursor (addressSpace pointWidth)

/-! ### Groups -/

/-- How many points a record of several polylines announces. -/
def announcedTotal (record : Bytes) : Nat := wordAt record 28 4

/-- The sizes of the groups that a record of several polylines announces. -/
def groupSizes (record : Bytes) : List Nat := wordsAt record 32 4 (wordAt record 24 4)

/-- All points of a record of several polylines. They stand behind the sizes of the groups. -/
def groupedPoints (short : Bool) (record : Bytes) : List (Point Int) :=
  pointsAt short record (32 + wordAt record 24 4 * 4) (announcedTotal record)

/-- Which groups of points are read, and from which bytes. -/
theorem first_groups_eq_ok {short : Bool} {record : Bytes} {groups : List (List (Point Int))} :
    (Shape.groups short).first record = .ok groups ↔
      neededBytes .grouped short record ≤ record.length ∧
        (groupSizes record).foldl (· + ·) 0 ≤ announcedTotal record ∧
        splitCounts (groupSizes record) (groupedPoints short record) = groups := by
  have htotal : announcedTotal record < 4294967296 := Bytes.wordAt_lt record 28 4
  have hsizes := Cursor.gets_many Cursor.gets_u32 (wordAt record 24 4)
  have hpoints := (Cursor.gets_points short htotal).map (splitCounts (groupSizes record))
  calc (Shape.groups short).first record = .ok groups
    _ ↔ 28 ≤ record.length ∧ 32 ≤ record.length ∧
        32 + wordAt record 24 4 * 4 ≤ record.length ∧
        32 + wordAt record 24 4 * 4 ≤ record.length ∧
        ¬announcedTotal record < (groupSizes record).foldl (· + ·) 0 ∧
        32 + wordAt record 24 4 * 4 + announcedTotal record * pointWidth short ≤ record.length ∧
        splitCounts (groupSizes record) (groupedPoints short record) = groups := by
      unfold Shape.groups
      rw [Decode.first_seek_bind, Cursor.gets_u32.from_bind_eq_ok,
        Cursor.gets_u32.from_bind_eq_ok, Decode.from_require_bind_eq_ok]
      exact and_congr_right fun _ => and_congr_right fun _ => and_congr_right fun _ =>
        hsizes.from_bind_eq_ok.trans (and_congr_right fun _ => Decode.from_guard_eq_ok.trans
          (and_congr_right fun _ => hpoints.from_eq_ok))
    _ ↔ _ := by
      -- the last bound contains the others
      show _ ↔ 32 + (wordAt record 24 4 * 4 + announcedTotal record * pointWidth short) ≤ _ ∧ _
      constructor
      · rintro ⟨_, _, _, _, hsum, hfits, hgroups⟩
        exact ⟨by omega, Nat.le_of_not_lt hsum, hgroups⟩
      · rintro ⟨hfits, hsum, hgroups⟩
        exact ⟨by omega, by omega, by omega, by omega, Nat.not_lt.2 hsum, by omega, hgroups⟩

/-- Whether the groups of a kind are closed, for the kinds whose points come in groups. -/
def Kind.groupsClosed? : Kind → Option Bool
  | .polyPolyline | .polyPolyline16 => some false
  | .polyPolygon | .polyPolygon16 => some true
  | _ => none

/-- The groups that are read are what a record of a kind of groups draws. -/
theorem ofRecord_groups {kind : Kind} {closed : Bool} (h : kind.groupsClosed? = some closed)
    (plus : Bool) (body : Bytes) :
    Command.ofRecord plus kind body = ((Shape.groups kind.hasShortPoints).first body).map
      fun groups => .draw (.polylines groups closed) := by
  cases kind <;> cases h <;> exact first_draw _ _ body

/-- Groups are cut off a list by their lengths. -/
theorem splitCounts_eq {α : Type} (counts : List Nat) (xs : List α) :
    splitCounts counts xs = counts.splitLengths xs := by
  induction counts generalizing xs with
  | nil => rfl
  | cons n counts ih => rw [splitCounts, ih, List.splitLengths_cons]

/-- Groups are neighbouring parts of a list, from its beginning on. -/
theorem flatten_splitCounts {α : Type} (counts : List Nat) (xs : List α) :
    (splitCounts counts xs).flatten = xs.take (counts.foldl (· + ·) 0) := by
  rw [← List.sum_eq_foldl]
  induction counts generalizing xs with
  | nil => rw [splitCounts, List.flatten_nil, List.sum_nil, List.take_zero]
  | cons n counts ih => rw [splitCounts, List.flatten_cons, ih, List.sum_cons, List.take_add]

/-- The groups of a record are what it draws. They are read exactly if the sizes and all points
that the record announces fit into it and the sizes are, in sum, a number that exists and not more
than the points. Then each group is as long as its size says, and the groups one after the other
are the first points of the array. -/
theorem groups_partition {e : Entry} {kind : Kind} {closed : Bool} (plus : Bool)
    (hkind : e.kind? = some kind) (hgroups : kind.groupsClosed? = some closed) :
    let read := (Shape.groups kind.hasShortPoints).first e.body
    let sizes := groupSizes e.body
    let sum := sizes.foldl (· + ·) 0
    e.command plus = read.map (fun groups => .draw (.polylines groups closed)) ∧
    ((∃ groups, read = .ok groups) ↔
      neededBytes .grouped kind.hasShortPoints e.body ≤ e.body.length ∧
        sum < addressSpace ∧ sum ≤ announcedTotal e.body) ∧
    ∀ groups, read = .ok groups → groups.map List.length = sizes ∧
      groups.flatten = (groupedPoints kind.hasShortPoints e.body).take sum := by
  intro read sizes sum
  refine ⟨?_, ?_, fun groups h => ?_⟩
  · unfold Entry.command
    rw [hkind]
    exact ofRecord_groups hgroups plus e.body
  · have htotal : announcedTotal e.body < addressSpace :=
      Nat.lt_trans (Bytes.wordAt_lt e.body 28 4) (by decide)
    -- the announced number of points has 32 bits, so a sum up to it does not overflow
    constructor
    · rintro ⟨groups, h⟩
      obtain ⟨hfits, hsum, _⟩ := first_groups_eq_ok.1 h
      exact ⟨hfits, Nat.lt_of_le_of_lt hsum htotal, hsum⟩
    · rintro ⟨hfits, _, hsum⟩
      exact ⟨_, first_groups_eq_ok.2 ⟨hfits, hsum, rfl⟩⟩
  · obtain ⟨_, hsum, rfl⟩ := first_groups_eq_ok.1 h
    refine ⟨?_, flatten_splitCounts _ _⟩
    rw [← List.sum_eq_foldl] at hsum
    rw [splitCounts_eq]
    exact List.map_splitLengths_length _ _ ((Bytes.length_pointsAt _ _ _ _).symm ▸ hsum)

/-- A record of three closed groups, the second of which has no points. The fourth point is in no
group. -/
def gappedGroups : Entry :=
  ⟨88, 91, Kind.polyPolygon16.record (List.replicate 16 0 ++
    [3, 0, 0, 0, 4, 0, 0, 0, 2, 0, 0, 0, 0, 0, 0, 0, 1, 0, 0, 0] ++
    [1, 0, 2, 0, 3, 0, 4, 0, 255, 255, 6, 0, 7, 0, 8, 0])⟩

/-- The group after a group without points begins where the one before it ended. -/
theorem groups_partition_gapped :
    gappedGroups.kind? = some .polyPolygon16 ∧ groupSizes gappedGroups.body = [2, 0, 1] ∧
    ∃ groups, gappedGroups.command false = .ok (.draw (.polylines groups true)) ∧
      groups.map List.length = [2, 0, 1] ∧ groups.flatten = [⟨1, 2⟩, ⟨3, 4⟩, ⟨-1, 6⟩] := by
  have hkind : gappedGroups.kind? = some .polyPolygon16 := by decide
  have hsizes : groupSizes gappedGroups.body = [2, 0, 1] := by decide
  obtain ⟨hcommand, hreads, hparts⟩ := groups_partition false hkind rfl
  obtain ⟨groups, hread⟩ := hreads.2 ⟨by decide, by decide, by decide⟩
  obtain ⟨hlengths, hpoints⟩ := hparts groups hread
  rw [hread] at hcommand
  exact ⟨hkind, hsizes, groups, hcommand, hlengths.trans hsizes, hpoints.trans (by decide)⟩

/-! ### Points with types -/

/-- The points of a record of points with types. -/
def steppedPoints (short : Bool) (record : Bytes) : List (Point Int) :=
  pointsAt short record 28 (wordAt record 24 4)

/-- The types of a record of points with types. They stand behind the points. -/
def stepTypes (short : Bool) (record : Bytes) : List Nat :=
  wordsAt record (28 + wordAt record 24 4 * pointWidth short) 1 (wordAt record 24 4)

/-- Which points with types are read, and from which bytes. -/
theorem first_typedPoints_eq_ok {short : Bool} {record : Bytes} {steps : List (Point Int × Nat)} :
    (Shape.typedPoints short).first record = .ok steps ↔
      neededBytes .typed short record ≤ record.length ∧
        (steppedPoints short record).zip (stepTypes short record) = steps := by
  have hcount : wordAt record 24 4 < 4294967296 := Bytes.wordAt_lt record 24 4
  calc (Shape.typedPoints short).first record = .ok steps
    _ ↔ 28 ≤ record.length ∧ 28 + wordAt record 24 4 * pointWidth short ≤ record.length ∧
        28 + wordAt record 24 4 * pointWidth short + wordAt record 24 4 ≤ record.length ∧
        (steppedPoints short record).zip (((record.drop
          (28 + wordAt record 24 4 * pointWidth short)).take (wordAt record 24 4)).map
            UInt8.toNat) =
            steps := by
      unfold Shape.typedPoints
      rw [Decode.first_seek_bind, Cursor.gets_u32.from_bind_eq_ok]
      exact and_congr_right fun _ => (Cursor.gets_points short hcount).from_bind_eq_ok.trans
        (and_congr_right fun _ => ((Cursor.gets_bytes _).map fun types =>
          (steppedPoints short record).zip (types.map UInt8.toNat)).from_eq_ok)
    _ ↔ 28 + wordAt record 24 4 * pointWidth short + wordAt record 24 4 ≤ record.length ∧
        (steppedPoints short record).zip (stepTypes short record) = steps := by
      -- the earlier bounds follow from the last one
      constructor
      · rintro ⟨_, _, hfits, hsteps⟩
        rw [← Bytes.wordsAt_one hfits] at hsteps
        exact ⟨hfits, hsteps⟩
      · rintro ⟨hfits, hsteps⟩
        rw [stepTypes, Bytes.wordsAt_one hfits] at hsteps
        exact ⟨by omega, by omega, hfits, hsteps⟩
    _ ↔ _ := by
      rw [Nat.add_assoc]
      rfl

/-- There are as many points as the record counts. -/
theorem length_steppedPoints (short : Bool) (record : Bytes) :
    (steppedPoints short record).length = wordAt record 24 4 :=
  Bytes.length_pointsAt ..

/-- There are as many types as the record counts points. -/
theorem length_stepTypes (short : Bool) (record : Bytes) :
    (stepTypes short record).length = wordAt record 24 4 :=
  Bytes.length_wordsAt ..

end Metafile.Record
