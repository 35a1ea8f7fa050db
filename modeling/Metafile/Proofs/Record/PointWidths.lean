import Mathlib.Data.List.Forall2
import Metafile.Proofs.Bytes.Written
import Metafile.Proofs.Record.Counterparts

/-!
# `Metafile.Proofs.Record.PointWidths`: the two widths of points

Eight kinds of records hold points with coordinates of 32 bits, and each of them has a kind with
coordinates of 16 bits that means the same (`Kind.narrow?`). Their records are laid out in three
ways, and `PointContent` is what they hold.

A record is `Narrowed` if it is replaced by one of the kind with short points that holds the same
points, with the same counts and types. The bounds of the two records and what follows the points
may be anything. Records that hold fewer points than they announce have no content. They are never
drawn, in either width, so a record that is cut short is replaced by any that is cut short too.
`Narrowed.stands` states that a narrowed record says the same as the record it replaces.
-/

set_option autoImplicit false

namespace Metafile

namespace Record

open Cursor (FitsShort pointBytes pointWidth)

/-! ### Layouts -/

/-- How the points of a record are laid out: as they are, in groups, or with types. -/
inductive Layout
  | plain | grouped | typed
deriving DecidableEq, Repr

/-- The kind with short points that means the same as a kind with long ones, and the layout of the
records of both. -/
def Kind.narrow? : Kind → Option (Kind × Layout)
  | .polyBezier => some (.polyBezier16, .plain)
  | .polygon => some (.polygon16, .plain)
  | .polyline => some (.polyline16, .plain)
  | .polyBezierTo => some (.polyBezierTo16, .plain)
  | .polylineTo => some (.polylineTo16, .plain)
  | .polyPolyline => some (.polyPolyline16, .grouped)
  | .polyPolygon => some (.polyPolygon16, .grouped)
  | .polyDraw => some (.polyDraw16, .typed)
  | _ => none

/-- What a record of points holds: points, points with the sizes of the groups that they are cut
into, or points with their types. -/
inductive PointContent
  | plain (points : List (Point Int))
  | grouped (counts : List UInt32) (points : List (Point Int))
  | typed (points : List (Point Int × UInt8))

namespace PointContent

/-- The layout of the records that hold a content. -/
def layout : PointContent → Layout
  | .plain _ => .plain
  | .grouped .. => .grouped
  | .typed _ => .typed

/-- The points of a content. -/
def points : PointContent → List (Point Int)
  | .plain ps => ps
  | .grouped _ ps => ps
  | .typed ps => ps.map Prod.fst

/-- The fields that a content is written as, behind the bounds of a record. -/
def fields (short : Bool) : PointContent → Bytes
  | .plain ps => Bytes.ofNat 4 ps.length ++ ps.flatMap (pointBytes short)
  | .grouped counts ps =>
    Bytes.ofNat 4 counts.length ++ (Bytes.ofNat 4 ps.length ++
      (counts.flatMap (fun n => Bytes.ofNat 4 n.toNat) ++ ps.flatMap (pointBytes short)))
  | .typed ps =>
    Bytes.ofNat 4 ps.length ++
      ((ps.map Prod.fst).flatMap (pointBytes short) ++ ps.map Prod.snd)

end PointContent

/-- The number of bytes that a record needs for what it announces. -/
def neededBytes (layout : Layout) (short : Bool) (record : Bytes) : Nat :=
  let announced (offset : Nat) := Bytes.toNat ((record.drop offset).take 4)
  match layout with
  | .plain => 28 + announced 24 * pointWidth short
  | .grouped => 32 + (announced 24 * 4 + announced 28 * pointWidth short)
  | .typed => 28 + (announced 24 * pointWidth short + announced 24)

/-- A record and one with short points that says the same. -/
inductive Narrowed : Bytes → Bytes → Prop
  /-- Any record may stay as it is. -/
  | same (record : Bytes) : Narrowed record record
  | content {long short : Kind} (content : PointContent)
      (hkind : long.narrow? = some (short, content.layout))
      (hfits : ∀ p ∈ content.points, FitsShort p)
      {bounds bounds' : Bytes} (hbounds : bounds.length = 16) (hbounds' : bounds'.length = 16)
      (rest rest' : Bytes)
      (hsize : (short.record (bounds' ++ content.fields true ++ rest')).length < 4294967296) :
      Narrowed (long.record (bounds ++ content.fields false ++ rest))
        (short.record (bounds' ++ content.fields true ++ rest'))
  | cut {long short : Kind} {layout : Layout} (hkind : long.narrow? = some (short, layout))
      {fields fields' : Bytes}
      (hcut : (long.record fields).length < neededBytes layout false (long.record fields))
      (hcut' : (short.record fields').length < neededBytes layout true (short.record fields'))
      (hsize : (short.record fields').length < 4294967296) :
      Narrowed (long.record fields) (short.record fields')

/-! ### Reading the content -/

/-- Where the counts of a record lie, and what follows them. -/
theorem first_countOffset {α : Type} {d : Decode α} {data : Bytes}
    {answer : Except Fault α} (h : Decode.Gives d data answer) (kind : Kind)
    {bounds : Bytes} (hbounds : bounds.length = 16) (rest : Bytes) :
    (do Cursor.seek Shape.countOffset; d : Decode α).first
      (kind.record (bounds ++ data ++ rest)) = answer := by
  have hsplit : kind.record (bounds ++ data ++ rest) = Bytes.ofNat 4 kind.code ++
      Bytes.ofNat 4 (headerBytes + (bounds ++ data ++ rest).length) ++ bounds ++ data ++
        rest := by
    rw [Kind.record, ← List.append_assoc, ← List.append_assoc]
  have hbefore : (Bytes.ofNat 4 kind.code ++
      Bytes.ofNat 4 (headerBytes + (bounds ++ data ++ rest).length) ++ bounds).length =
        Shape.countOffset := by
    rw [List.length_append, List.length_append, Bytes.length_ofNat, Bytes.length_ofNat, hbounds]
    rfl
  rw [Decode.first_seek_bind, hsplit, ← hbefore]
  exact h.from_eq _ rest

/-- What the sizes of groups and the points of all of them are read as. -/
def groupsOf (counts : List Nat) (ps : List (Point Int)) :
    Except Fault (List (List (Point Int))) :=
  if ps.length < counts.foldl (· + ·) 0 then .error (.outOfBounds .polygonCounts)
  else .ok (splitCounts counts ps)

variable {ps : List (Point Int)}

/-- The points of a record are read in either width, behind the bounds and before whatever
follows. -/
theorem read_plain (short : Bool) (kind : Kind) {bounds : Bytes} (hbounds : bounds.length = 16)
    (rest : Bytes) (hfits : ∀ p ∈ ps, FitsShort p) (hcount : ps.length < 4294967296) :
    (Shape.points short).first
      (kind.record (bounds ++ (PointContent.plain ps).fields short ++ rest)) = .ok ps :=
  first_countOffset ((Cursor.reads_count hcount).bind
    (Cursor.reads_points short hfits hcount)).gives kind hbounds rest

/-- The points with their types are read in either width. The types follow all points. -/
theorem read_typed (short : Bool) (kind : Kind) {bounds : Bytes} (hbounds : bounds.length = 16)
    (rest : Bytes) {ps : List (Point Int × UInt8)} (hfits : ∀ p ∈ ps.map Prod.fst, FitsShort p)
    (hcount : ps.length < 4294967296) :
    (Shape.typedPoints short).first
      (kind.record (bounds ++ (PointContent.typed ps).fields short ++ rest)) =
        .ok ((ps.map Prod.fst).zip ((ps.map Prod.snd).map UInt8.toNat)) := by
  have hpoints := Cursor.reads_points short hfits (by rwa [List.length_map])
  have htypes := Cursor.reads_bytes (ps.map Prod.snd)
  rw [List.length_map] at hpoints htypes
  exact first_countOffset ((Cursor.reads_count hcount).bind (hpoints.bind
    (htypes.map fun types => (ps.map Prod.fst).zip (types.map UInt8.toNat)))).gives
    kind hbounds rest

/-- The groups of points are read in either width. Their counts stand before the points. -/
theorem read_grouped (short : Bool) (kind : Kind) {bounds : Bytes} (hbounds : bounds.length = 16)
    (rest : Bytes) {counts : List UInt32} (hfits : ∀ p ∈ ps, FitsShort p)
    (hcounts : counts.length < 4294967296) (hcount : ps.length < 4294967296) :
    (Shape.groups short).first
      (kind.record (bounds ++ (PointContent.grouped counts ps).fields short ++ rest)) =
        groupsOf (counts.map UInt32.toNat) ps := by
  have hsizes : Decode.Reads (Cursor.many (counts.map UInt32.toNat).length Cursor.u32)
      ((counts.map UInt32.toNat).flatMap (Bytes.ofNat 4)) (counts.map UInt32.toNat) := by
    refine Cursor.reads_many fun n hn => ?_
    obtain ⟨m, _, rfl⟩ := List.mem_map.1 hn
    exact Cursor.reads_u32 m
  rw [List.length_map, List.flatMap_map] at hsizes
  have hpoints :=
    (Cursor.reads_points short hfits hcount).map (splitCounts (counts.map UInt32.toNat))
  -- the sizes are looked at before the points are read
  have hchecked : Decode.Gives (do
      if ps.length < (counts.map UInt32.toNat).foldl (· + ·) 0 then
        throw (.outOfBounds .polygonCounts)
      return splitCounts (counts.map UInt32.toNat) (← Cursor.points ps.length short))
      (ps.flatMap (pointBytes short)) (groupsOf (counts.map UInt32.toNat) ps) := by
    unfold groupsOf
    split
    · intro c rest _
      rfl
    · exact hpoints.gives
  have hwidth : counts.length * 4 ≤ (counts.flatMap (fun n => Bytes.ofNat 4 n.toNat) ++
      ps.flatMap (pointBytes short)).length := by
    rw [List.length_append, Bytes.length_flatMap fun n : UInt32 => Bytes.length_ofNat 4 n.toNat]
    exact Nat.le_add_right ..
  exact first_countOffset ((Cursor.reads_count hcounts).bind_gives
    ((Cursor.reads_count hcount).bind_gives
      (Cursor.gives_require_bind (hsizes.bind_gives hchecked) hwidth))) kind hbounds rest

/-! ### Records that are cut short -/

/-- A record whose counts do not fit, or announce more than there is, cannot be read. -/
theorem countOffset_fails {α : Type} {d : Decode α} {record : Bytes}
    (h : ∀ c : Cursor, c.rest = record.drop 24 → c.remaining = record.length - 24 →
      ∃ cause, d c = .error cause) :
    ∃ cause, (do Cursor.seek Shape.countOffset; d : Decode α).first record = .error cause := by
  rw [Decode.first_seek_bind]
  unfold Shape.countOffset
  by_cases hle : 24 ≤ record.length
  · obtain ⟨cause, hread⟩ := h ⟨record, 24, record.drop 24, hle, rfl⟩ rfl rfl
    rw [Decode.from_of_le hle, hread]
    exact ⟨cause, rfl⟩
  · rw [Decode.from_of_lt (Nat.lt_of_not_le hle)]
    exact ⟨_, rfl⟩

/-- A record that is shorter than what it announces cannot be read. -/
theorem points_fails {short : Bool} {record : Bytes}
    (h : record.length < neededBytes .plain short record) :
    ∃ cause, (Shape.points short).first record = .error cause := by
  unfold neededBytes at h
  dsimp only at h
  refine countOffset_fails fun c hrest hleft => Cursor.u32_bind_fails fun hroom => ?_
  have hadvance := Cursor.remaining_advance c 4 hroom
  refine Cursor.needs_points short _ ?_
  rw [hrest]
  omega

/-- Points with types are not read if the record is shorter than both need. -/
theorem typedPoints_fails {short : Bool} {record : Bytes}
    (h : record.length < neededBytes .typed short record) :
    ∃ cause, (Shape.typedPoints short).first record = .error cause := by
  unfold neededBytes at h
  dsimp only at h
  have hneeds (count : Nat) : Decode.Needs (do
      let ps ← Cursor.points count short
      let types ← Cursor.bytes count
      return ps.zip (types.map UInt8.toNat)) (count * pointWidth short + (count + 0)) :=
    Cursor.needs_points_bind short fun _ =>
      (Cursor.takes_bytes count).needs_bind fun _ => Decode.needs_zero _
  refine countOffset_fails fun c hrest hleft => Cursor.u32_bind_fails fun hroom => ?_
  have hadvance := Cursor.remaining_advance c 4 hroom
  refine hneeds _ _ ?_
  rw [hrest]
  omega

/-- Groups of points are not read if the record is shorter than the counts and the points need. -/
theorem groups_fails {short : Bool} {record : Bytes}
    (h : record.length < neededBytes .grouped short record) :
    ∃ cause, (Shape.groups short).first record = .error cause := by
  unfold neededBytes at h
  dsimp only at h
  -- the sizes and the points need their bytes, unless the sizes are refused before
  have hneeds (polylines total : Nat) : Decode.Needs (do
      Cursor.require (polylines * 4)
      let counts ← Cursor.many polylines Cursor.u32
      if total < counts.foldl (· + ·) 0 then throw (.outOfBounds .polygonCounts)
      return splitCounts counts (← Cursor.points total short))
      (polylines * 4 + total * pointWidth short) := by
    refine Cursor.needs_require_bind
      ((Cursor.takes_many Cursor.takes_u32 polylines).needs_bind fun counts => ?_)
    dsimp only
    split
    · exact fun c _ => ⟨_, rfl⟩
    · have hpoints : Decode.Needs (do
          return splitCounts counts (← Cursor.points total short))
          (total * pointWidth short + 0) :=
        Cursor.needs_points_bind short fun _ => Decode.needs_zero _
      exact hpoints
  refine countOffset_fails fun c hrest hleft => Cursor.u32_bind_fails fun hroom =>
    Cursor.u32_bind_fails fun hroom' => ?_
  -- the two numbers in front have been read here
  have hadvance := Cursor.remaining_advance c 4 hroom
  have hadvance' := Cursor.remaining_advance (c.advance 4 hroom) 4 hroom'
  have hrest' : (c.advance 4 hroom).rest = record.drop 28 := by
    show c.rest.drop 4 = _
    rw [hrest, List.drop_drop]
  refine hneeds _ _ _ ?_
  rw [hrest, hrest']
  omega

/-! ### The command of a record -/

section Commands

variable {long short : Kind}

/-- What the points of a record are drawn as does not depend on their width. -/
theorem ofRecord_plain (h : long.narrow? = some (short, .plain)) :
    ∃ draw : List (Point Int) → Command, ∀ plus body,
      Command.ofRecord plus long body = ((Shape.points false).first body).map draw ∧
        Command.ofRecord plus short body = ((Shape.points true).first body).map draw := by
  cases long <;> cases h
  all_goals exact ⟨_, fun plus body => ⟨first_draw _ _ body, first_draw _ _ body⟩⟩

/-- What the groups of a record are drawn as does not depend on the width of their points. -/
theorem ofRecord_grouped (h : long.narrow? = some (short, .grouped)) :
    ∃ draw : List (List (Point Int)) → Command, ∀ plus body,
      Command.ofRecord plus long body = ((Shape.groups false).first body).map draw ∧
        Command.ofRecord plus short body = ((Shape.groups true).first body).map draw := by
  cases long <;> cases h
  all_goals exact ⟨_, fun plus body => ⟨first_draw _ _ body, first_draw _ _ body⟩⟩

/-- What points with types are drawn as does not depend on their width. -/
theorem ofRecord_typed (h : long.narrow? = some (short, .typed)) :
    ∃ draw : List (Point Int × Nat) → Command, ∀ plus body,
      Command.ofRecord plus long body = ((Shape.typedPoints false).first body).map draw ∧
        Command.ofRecord plus short body = ((Shape.typedPoints true).first body).map draw := by
  cases long <;> cases h
  exact ⟨_, fun plus body => ⟨first_draw _ _ body, first_draw _ _ body⟩⟩

/-- Both kinds add geometry to an open path. -/
theorem narrow?_drawsGeometry {layout : Layout} (h : long.narrow? = some (short, layout)) :
    long.drawsGeometry = true ∧ short.drawsGeometry = true := by
  cases long <;> cases h <;> exact ⟨rfl, rfl⟩

end Commands

/-! ### Records that are replaced -/

/-- A record of a kind begins with the number of the kind. -/
theorem codeOf_record (kind : Kind) (fields : Bytes) :
    codeOf (kind.record fields) = kind.code := by
  have hcode : kind.code < Nat.pow 256 4 := by cases kind <;> decide
  rw [codeOf, Kind.record, List.append_assoc, List.take_left' (Bytes.length_ofNat 4 _),
    Bytes.toNat_ofNat hcode]

/-- A record is as long as its header and its fields. -/
theorem length_record (kind : Kind) (fields : Bytes) :
    (kind.record fields).length = headerBytes + fields.length := by
  rw [Kind.record, List.length_append, List.length_append, Bytes.length_ofNat, Bytes.length_ofNat]
  rfl

/-- A record of a kind is as long as it says, unless it is too long to say so. -/
theorem measured_record (kind : Kind) {fields : Bytes}
    (h : (kind.record fields).length < 4294967296) : Measured (kind.record fields) := by
  have hlength := length_record kind fields
  have hsize : ((kind.record fields).drop 4).take 4 =
      Bytes.ofNat 4 (kind.record fields).length := by
    rw [hlength, Kind.record, List.append_assoc, List.drop_left' (Bytes.length_ofNat 4 _),
      List.take_left' (Bytes.length_ofNat 4 _)]
  refine ⟨by omega, ?_⟩
  rw [declaredSize, hsize]
  exact Bytes.toNat_ofNat h

/-- The size of a record has 32 bits. -/
theorem Measured.length_lt {record : Bytes} (h : Measured record) :
    record.length < 4294967296 := by
  have hlt := Bytes.toNat_lt ((record.drop 4).take 4)
  have hwidth : ((record.drop 4).take 4).length = 4 := by
    have := h.header
    unfold headerBytes at this
    rw [List.length_take, List.length_drop]
    omega
  rw [hwidth] at hlt
  rw [← h.size]
  exact hlt

namespace Narrowed

variable {record record' : Bytes}

/-- A narrowed record is as long as it says. -/
theorem measured (h : Narrowed record record') (hrecord : Measured record) :
    Measured record' := by
  cases h with
  | same => exact hrecord
  | content _ _ _ _ _ _ _ hsize => exact measured_record _ hsize
  | cut _ _ _ hsize => exact measured_record _ hsize

/-- The counts of a record have 32 bits. -/
theorem counts_lt {kind : Kind} {bounds fields rest : Bytes}
    (h : Measured (kind.record (bounds ++ fields ++ rest))) : fields.length < 4294967296 := by
  have hlt := h.length_lt
  rw [length_record, List.length_append, List.length_append] at hlt
  omega

/-- A narrowed record says the same as the record that it replaces. -/
theorem stands (h : Narrowed record record') (hrecord : Measured record) (plus : Bool)
    (offset offset' : Nat) :
    Stands plus ⟨offset, codeOf record, record⟩ ⟨offset', codeOf record', record'⟩ := by
  -- what a record of either width is comes back from its own code and bytes
  have hkindOf (kind : Kind) (offset : Nat) (fields : Bytes) :
      Entry.kind? ⟨offset, codeOf (kind.record fields), kind.record fields⟩ = some kind := by
    rw [Entry.kind?, codeOf_record]
    exact Kind.ofCode?_code kind
  have hcommand (kind : Kind) (offset : Nat) (fields : Bytes) :
      Entry.command plus ⟨offset, codeOf (kind.record fields), kind.record fields⟩ =
        Command.ofRecord plus kind (kind.record fields) := by
    unfold Entry.command
    rw [hkindOf]
  have hshapes {long short : Kind} {layout : Layout} {fields fields' : Bytes}
      (hkind : long.narrow? = some (short, layout))
      (hasks : (Command.ofRecord plus short (short.record fields')).toOption =
        (Command.ofRecord plus long (long.record fields)).toOption) :
      Stands plus ⟨offset, codeOf (long.record fields), long.record fields⟩
        ⟨offset', codeOf (short.record fields'), short.record fields'⟩ := by
    obtain ⟨hlong, hshort⟩ := narrow?_drawsGeometry hkind
    exact .of_shapes (hkindOf long offset fields) (hkindOf short offset' fields') hlong hshort
      (by rw [hcommand, hcommand]; exact hasks)
  -- the points are read back from both widths, and a cut record is read from neither
  cases h with
  | same => exact .of_same plus rfl rfl
  | content content hkind hfits hbounds hbounds' rest rest' hsize =>
      refine hshapes hkind ?_
      have hlength := counts_lt hrecord
      have hwidth : pointWidth false = 8 := rfl
      cases content with
      | plain ps =>
          obtain ⟨draw, hdraw⟩ := ofRecord_plain hkind
          -- a record has fewer bytes than its size field can say, so its counts fit into 32 bits
          have hcount : ps.length < 4294967296 := by
            rw [PointContent.fields, List.length_append,
              Bytes.length_flatMap (Cursor.length_pointBytes false), hwidth] at hlength
            omega
          change ∀ p ∈ ps, FitsShort p at hfits
          rw [(hdraw plus _).1, (hdraw plus _).2, read_plain true _ hbounds' _ hfits hcount,
            read_plain false _ hbounds _ hfits hcount]
      | grouped counts ps =>
          obtain ⟨draw, hdraw⟩ := ofRecord_grouped hkind
          have hcount : ps.length < 4294967296 ∧ counts.length < 4294967296 := by
            rw [PointContent.fields, List.length_append, List.length_append, List.length_append,
              Bytes.length_flatMap (Cursor.length_pointBytes false),
              Bytes.length_flatMap fun n : UInt32 => Bytes.length_ofNat 4 n.toNat,
              hwidth] at hlength
            omega
          obtain ⟨hcount, hcounts⟩ := hcount
          change ∀ p ∈ ps, FitsShort p at hfits
          rw [(hdraw plus _).1, (hdraw plus _).2,
            read_grouped true _ hbounds' _ hfits hcounts hcount,
            read_grouped false _ hbounds _ hfits hcounts hcount]
      | typed ps =>
          obtain ⟨draw, hdraw⟩ := ofRecord_typed hkind
          have hcount : ps.length < 4294967296 := by
            rw [PointContent.fields, List.length_append, List.length_append, List.length_map]
              at hlength
            omega
          change ∀ p ∈ ps.map Prod.fst, FitsShort p at hfits
          rw [(hdraw plus _).1, (hdraw plus _).2, read_typed true _ hbounds' _ hfits hcount,
            read_typed false _ hbounds _ hfits hcount]
  | @cut long short layout hkind fields fields' hcut hcut' hsize =>
      refine hshapes hkind ?_
      cases layout with
      | plain =>
          obtain ⟨draw, hdraw⟩ := ofRecord_plain hkind
          obtain ⟨_, hlong⟩ := points_fails hcut
          obtain ⟨_, hshort⟩ := points_fails hcut'
          rw [(hdraw plus _).1, (hdraw plus _).2, hlong, hshort]
          rfl
      | grouped =>
          obtain ⟨draw, hdraw⟩ := ofRecord_grouped hkind
          obtain ⟨_, hlong⟩ := groups_fails hcut
          obtain ⟨_, hshort⟩ := groups_fails hcut'
          rw [(hdraw plus _).1, (hdraw plus _).2, hlong, hshort]
          rfl
      | typed =>
          obtain ⟨draw, hdraw⟩ := ofRecord_typed hkind
          obtain ⟨_, hlong⟩ := typedPoints_fails hcut
          obtain ⟨_, hshort⟩ := typedPoints_fails hcut'
          rw [(hdraw plus _).1, (hdraw plus _).2, hlong, hshort]
          rfl

end Narrowed

/-- Records that are narrowed one by one say the same. The places of the records shift. -/
theorem counterparts_narrowed (plus : Bool) {records records' : List Bytes}
    (h : List.Forall₂ Narrowed records records') (hmeasured : ∀ record ∈ records, Measured record)
    (offset offset' : Nat) :
    Counterparts plus (placed offset records) (placed offset' records') ∧
      ∀ record ∈ records', Measured record := by
  induction h generalizing offset offset' with
  | nil => exact ⟨.nil, by simp⟩
  | cons hnarrowed _ ih =>
      obtain ⟨hrecord, hmeasured⟩ := List.forall_mem_cons.1 hmeasured
      obtain ⟨hrest, hmeasured'⟩ := ih hmeasured _ _
      exact ⟨.both (hnarrowed.stands hrecord plus offset offset') hrest,
        List.forall_mem_cons.2 ⟨hnarrowed.measured hrecord, hmeasured'⟩⟩

end Record

end Metafile
