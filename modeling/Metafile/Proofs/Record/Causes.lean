import Metafile.Proofs.Record.Reading

/-!
# `Metafile.Proofs.Record.Causes`: why a record cannot be read

A record is read before anything is done with it, so the reading can only fail because of the
bytes: the record is cut short, or it counts more than there can be. `Decode.BlamesBytes` says so
of a reading procedure. It is kept by chains of readings, and `Entry.command_blames_bytes` states
it of all records. A handle, a saved context or a path bracket is never the reason.
-/

set_option autoImplicit false

namespace Metafile

/-- Whether a cause is about the bytes of a record and not about what was done before it. -/
def OutOfBounds.isReading : OutOfBounds → Bool
  | span .. | shortRead | pointCount | stringLength | polygonCounts => true
  | _ => false

/-- Whether a fault says that the bytes of a record are out of bounds. -/
def Fault.isReading : Fault → Bool
  | outOfBounds cause => cause.isReading
  | _ => false

/-- No other sort of fault says that. -/
theorem Fault.eq_outOfBounds {fault : Fault} (h : fault.isReading = true) :
    ∃ cause, fault = .outOfBounds cause := by
  cases fault with
  | outOfBounds cause => exact ⟨cause, rfl⟩
  | _ => cases h

namespace Decode

variable {α β : Type} {d : Decode α}

/-- A reading procedure only fails because of the bytes. -/
def BlamesBytes (d : Decode α) : Prop :=
  ∀ (c : Cursor) (fault : Fault), d c = .error fault → fault.isReading = true

/-- A value that is given without reading blames nobody. -/
theorem blames_pure (v : α) : BlamesBytes (pure v) := by
  intro c fault h
  cases h

/-- A procedure may refuse what it has read, as long as the fault it throws is about the bytes. -/
theorem blames_throw {fault : Fault} (h : fault.isReading = true) :
    BlamesBytes (throw fault : Decode α) := by
  intro c fault' h'
  obtain rfl : fault = fault' := Except.error.inj h'
  exact h

/-- A chain of readings fails where one of them does. -/
theorem blames_bind {f : α → Decode β} (hd : BlamesBytes d) (hf : ∀ v, BlamesBytes (f v)) :
    BlamesBytes (d >>= f) := by
  intro c fault h
  change (d c >>= fun p => f p.1 p.2) = .error fault at h
  rcases of_bind_eq_error h with hread | ⟨p, _, hrest⟩
  · exact hd c fault hread
  · exact hf p.1 p.2 fault hrest

/-- A function of what is read adds no way to fail. -/
theorem BlamesBytes.map {f : α → β} (hd : BlamesBytes d) : BlamesBytes (do return f (← d)) :=
  blames_bind hd fun v => blames_pure (f v)

/-- A count that is refused before anything more is read. -/
theorem blames_refuse {condition : Prop} [Decidable condition] {fault : Fault}
    (hcause : fault.isReading = true) {rest : PUnit → Decode α} (h : ∀ u, BlamesBytes (rest u)) :
    BlamesBytes (if condition then throw fault >>= rest else rest ()) := by
  split
  · exact blames_bind (blames_throw hcause) h
  · exact h ()

/-- Reading from the first byte on fails for the reasons of the reading. -/
theorem BlamesBytes.first (hd : BlamesBytes d) {data : Bytes} {fault : Fault}
    (h : d.first data = .error fault) : fault.isReading = true := by
  rcases of_bind_eq_error h with hread | ⟨_, _, hnone⟩
  · exact hd _ fault hread
  · cases hnone

end Decode

namespace Cursor

open Decode (BlamesBytes blames_pure blames_bind blames_refuse)

/-! ### Fields -/

/-- Going to an offset fails only where the offset lies behind the end of the bytes. -/
theorem blames_seek (offset : Nat) : BlamesBytes (seek offset) := by
  intro c fault h
  unfold seek at h
  split at h
  · cases h
  · rw [← Except.error.inj h]
    rfl

/-- Taking bytes fails only where fewer are left. -/
theorem blames_bytes (count : Nat) : BlamesBytes (bytes count) := by
  intro c fault h
  unfold bytes at h
  split at h
  · cases h
  · rw [← Except.error.inj h]
    rfl

/-- A span that leaves the bytes is reported as such, with the span and the number of bytes there
are. -/
theorem checkSpan_isReading {size offset length : Nat} {fault : Fault}
    (h : Bytes.checkSpan size offset length = .error fault) : fault.isReading = true := by
  unfold Bytes.checkSpan at h
  split at h
  · cases h
  · rw [← Except.error.inj h]
    rfl

/-- Asking for bytes ahead of the reading fails only where fewer are left. It is how records say
at once that they announce more values than they hold. -/
theorem blames_require (count : Nat) : BlamesBytes (require count) := by
  intro c fault h
  rcases of_bind_eq_error h with hspan | ⟨_, _, hnone⟩
  · exact checkSpan_isReading hspan
  · cases hnone

/-- A slice is cut from anywhere in the record, and fails only where it leaves the record. -/
theorem blames_slice (offset length : Nat) : BlamesBytes (slice offset length) := by
  intro c fault h
  rcases of_bind_eq_error h with hslice | ⟨_, _, hnone⟩
  · rcases of_bind_eq_error hslice with hspan | ⟨_, _, hnone⟩
    · exact checkSpan_isReading hspan
    · cases hnone
  · cases hnone

/-- A number fails only where its bytes are not all there. All readings of numbers come from this
one. -/
theorem blames_word (width : Nat) : BlamesBytes (word width) := by
  intro c fault h
  unfold word at h
  split at h
  · cases h
  · rw [← Except.error.inj h]
    rfl

/-- A byte is a number of one byte. -/
theorem blames_u8 : BlamesBytes u8 := blames_word 1

/-- An unsigned number of 16 bits. -/
theorem blames_u16 : BlamesBytes u16 := blames_word 2

/-- An unsigned number of 32 bits. -/
theorem blames_u32 : BlamesBytes u32 := blames_word 4

/-- The sign of a number is a function of its bits, and no bits are refused. -/
theorem blames_i16 : BlamesBytes i16 := blames_u16.map

/-- The same for 32 bits: every pattern is a number. -/
theorem blames_i32 : BlamesBytes i32 := blames_u32.map

/-- Every pattern of 32 bits is a floating-point number or stands for none, and neither is
refused. -/
theorem blames_f32 : BlamesBytes f32 := blames_u32.map

/-- Values that are read one after the other blame nobody else than one of them does. -/
theorem blames_many {α : Type} {one : Decode α} (h : BlamesBytes one) (count : Nat) :
    BlamesBytes (many count one) := by
  induction count with
  | zero => exact blames_pure []
  | succ n ih => exact blames_bind h fun _ => ih.map

/-- A text of 16-bit units fails where its units are not all there. Units that make up no
character are replaced, not refused. -/
theorem blames_utf16 (count : Nat) : BlamesBytes (utf16 count) := by
  unfold utf16
  exact blames_refuse rfl fun _ => blames_bind (blames_require _) fun _ =>
    (blames_many blames_u16 _).map

/-- A point of 32 bits a coordinate. -/
theorem blames_longPoint : BlamesBytes longPoint :=
  blames_bind blames_i32 fun _ => blames_i32.map

/-- A point in one of the two widths. -/
theorem blames_point (short : Bool) : BlamesBytes (point short) := by
  cases short with
  | false => exact blames_longPoint
  | true => exact blames_bind blames_i16 fun _ => blames_i16.map

/-- The points of an array may be cut short, and their number may be more than can be addressed.
Both are faults of the bytes. -/
theorem blames_points (count : Nat) (short : Bool) : BlamesBytes (points count short) :=
  blames_refuse rfl fun _ => blames_bind (blames_require _) fun _ =>
    blames_many (blames_point short) count

/-- A box is four numbers, in any order: which corner is which is asked later. -/
theorem blames_box : BlamesBytes box :=
  blames_bind blames_i32 fun _ => blames_bind blames_i32 fun _ => blames_bind blames_i32 fun _ =>
    blames_i32.map

/-- An affine map is six floating-point numbers. -/
theorem blames_affine : BlamesBytes affine :=
  blames_bind blames_f32 fun _ => blames_bind blames_f32 fun _ => blames_bind blames_f32 fun _ =>
    blames_bind blames_f32 fun _ => blames_bind blames_f32 fun _ => blames_f32.map

end Cursor

namespace Record

open Cursor
open Decode (BlamesBytes blames_pure blames_bind blames_refuse)

/-! ### Records -/

/-- The header is read field by field. Its fields stand at fixed offsets, so a short header fails
at one of the seeks or behind it. -/
theorem Header.blames_decode : BlamesBytes Header.decode :=
  blames_bind (blames_seek _) fun _ => blames_bind blames_box fun _ =>
    blames_bind (blames_seek _) fun _ => blames_bind blames_u16 fun _ =>
      blames_bind (blames_seek _) fun _ => blames_bind blames_i32 fun _ =>
        blames_bind blames_i32 fun _ => blames_i32.map

/-- Both kinds of records that change the world transform hold a map, and one of them a mode
behind it. A mode that does not exist is no fault: it is passed on. -/
theorem blames_transformChange (kind : Kind) : BlamesBytes (transformChange kind) := by
  unfold transformChange
  refine blames_bind blames_affine fun _ => ?_
  split
  · exact blames_pure _
  · exact blames_u32.map

namespace Shape

/-- The points of a record stand behind their number, at a fixed offset. -/
theorem blames_points (short : Bool) : BlamesBytes (Shape.points short) :=
  blames_bind (blames_seek _) fun _ => blames_bind blames_u32 fun _ =>
    Cursor.blames_points _ short

/-- The points of several polylines fail as arrays do, and where the groups announce more points
than the record declares. -/
theorem blames_groups (short : Bool) : BlamesBytes (groups short) :=
  blames_bind (blames_seek _) fun _ => blames_bind blames_u32 fun _ =>
    blames_bind blames_u32 fun total => blames_bind (blames_require _) fun _ =>
      blames_bind (blames_many blames_u32 _) fun _ => blames_refuse rfl fun _ =>
        (Cursor.blames_points total short).map

/-- A type stands for every point. A type that is unknown is no fault, so only the arrays can
fail. -/
theorem blames_typedPoints (short : Bool) : BlamesBytes (typedPoints short) :=
  blames_bind (blames_seek _) fun _ => blames_bind blames_u32 fun count =>
    blames_bind (Cursor.blames_points count short) fun _ => (blames_bytes count).map

/-- The box of a record stands behind its header or its bounds. -/
theorem blames_box : BlamesBytes Shape.box :=
  blames_bind (blames_seek _) fun _ => Cursor.blames_box

/-- The one point of a record stands in the same place. -/
theorem blames_longPoint : BlamesBytes Shape.longPoint :=
  blames_bind (blames_seek _) fun _ => Cursor.blames_longPoint

/-- An arc is a box and two points. -/
theorem blames_arcOf (form : ArcForm) : BlamesBytes (arcOf form) :=
  blames_bind blames_box fun _ => blames_bind Cursor.blames_longPoint fun _ =>
    Cursor.blames_longPoint.map

/-- An arc by angles is a center, a radius and two floating-point angles. -/
theorem blames_angleArcFields : BlamesBytes angleArcFields :=
  blames_bind blames_longPoint fun _ => blames_bind blames_u32 fun _ =>
    blames_bind blames_f32 fun _ => blames_f32.map

/-- The shape of a drawing record. -/
theorem blames_decode? {kind : Kind} {d : Decode Shape} (h : decode? kind = some d) :
    BlamesBytes d := by
  cases kind
  case polyline | polyline16 | polygon | polygon16 | polylineTo | polylineTo16 | polyBezier |
    polyBezier16 | polyBezierTo | polyBezierTo16 =>
    exact Option.some.inj h ▸ (blames_points _).map
  case polyPolyline | polyPolyline16 | polyPolygon | polyPolygon16 =>
    exact Option.some.inj h ▸ (blames_groups _).map
  case polyDraw | polyDraw16 => exact Option.some.inj h ▸ (blames_typedPoints _).map
  case lineTo => exact Option.some.inj h ▸ blames_longPoint.map
  case rectangle | ellipse => exact Option.some.inj h ▸ blames_box.map
  case roundRect =>
    exact Option.some.inj h ▸ blames_bind blames_box fun _ => Cursor.blames_longPoint.map
  case arc | arcTo | chord | pie => exact Option.some.inj h ▸ blames_arcOf _
  case angleArc => exact Option.some.inj h ▸ blames_angleArcFields
  all_goals cases h

end Shape

namespace Setting

/-- Two numbers that belong together, such as an extent. -/
theorem blames_pair : BlamesBytes pair := blames_longPoint.map

/-- Two factors as fractions. A denominator of zero is no fault of the reading. -/
theorem blames_factors : BlamesBytes factors :=
  blames_bind blames_i32 fun _ => blames_bind blames_i32 fun _ => blames_bind blames_i32 fun _ =>
    blames_i32.map

/-- The setting of a record. -/
theorem blames_decode? {kind : Kind} {d : Decode Setting} (h : decode? kind = some d) :
    BlamesBytes d := by
  cases kind
  case setBackgroundMode | setPolyFillMode | setRasterOperation | setStretchMode | setTextAlign |
    setTextColor | setBackgroundColor | setArcDirection | setMiterLimit =>
    exact Option.some.inj h ▸ blames_u32.map
  case setWindowExtent | setWindowOrigin | setViewportExtent | setViewportOrigin =>
    exact Option.some.inj h ▸ blames_pair.map
  case scaleWindowExtent | scaleViewportExtent => exact Option.some.inj h ▸ blames_factors.map
  all_goals cases h

end Setting

/-- Where a bitmap stands in its record: four numbers. -/
theorem blames_picturePlace : BlamesBytes picturePlace :=
  blames_bind blames_u32 fun _ => blames_bind blames_u32 fun _ => blames_bind blames_u32 fun _ =>
    blames_u32.map

/-- The bitmap is cut out of the record, but not decoded. What is wrong inside of it is found when
it is drawn, and is no fault then. -/
theorem PicturePlace.blames_picture (p : PicturePlace) : BlamesBytes p.picture :=
  blames_bind (blames_slice _ _) fun _ => (blames_slice _ _).map

/-- A bitmap that may be absent is not looked for where its place is empty. -/
theorem PicturePlace.blames_picture? (p : PicturePlace) : BlamesBytes p.picture? := by
  unfold PicturePlace.picture?
  split
  · exact blames_pure _
  · exact p.blames_picture.map

/-- A brush with a picture: the slot, the place of the picture, and the picture. -/
theorem blames_patternCommand (twoColors : Bool) : BlamesBytes (patternCommand twoColors) :=
  blames_bind blames_u32 fun _ => blames_bind blames_u32 fun _ => blames_bind blames_picturePlace
    fun place => place.blames_picture.map

/-- A pen is read with a style of any number. What the number means is asked later. -/
theorem blames_penCommand : BlamesBytes penCommand :=
  blames_bind blames_u32 fun _ => blames_bind blames_u32 fun _ => blames_bind blames_i32 fun _ =>
    blames_bind (blames_seek _) fun _ => blames_u32.map

/-- A pen with more fields. Its picture and its dashes are left unread. -/
theorem blames_extendedPenCommand : BlamesBytes extendedPenCommand :=
  blames_bind blames_u32 fun _ => blames_bind (blames_seek _) fun _ =>
    blames_bind blames_u32 fun _ => blames_bind blames_u32 fun _ =>
      blames_bind blames_u32 fun _ => blames_u32.map

/-- A brush without a picture. -/
theorem blames_brushCommand : BlamesBytes brushCommand :=
  blames_bind blames_u32 fun _ => blames_bind blames_u32 fun _ => blames_bind blames_u32 fun _ =>
    blames_u32.map

/-- The full name of a font is only looked for in a record that is long enough for it, and so a
short record is no fault here. -/
theorem blames_fullName (size : Nat) : BlamesBytes (fullName size) := by
  unfold fullName
  split
  · exact blames_pure _
  · exact blames_bind (blames_seek _) fun _ => (blames_utf16 _).map

/-- A font: the slot, its numbers, the name of its family, and its full name if there is room for
one. -/
theorem blames_fontCommand (size : Nat) : BlamesBytes (fontCommand size) :=
  blames_bind blames_u32 fun _ => blames_bind blames_i32 fun _ =>
    blames_bind blames_i32 fun _ => blames_bind blames_i32 fun _ =>
      blames_bind blames_i32 fun _ => blames_bind blames_i32 fun _ =>
        blames_bind blames_u8 fun _ => blames_bind blames_u8 fun _ =>
          blames_bind blames_u8 fun _ => blames_bind (blames_seek _) fun _ =>
            blames_bind (blames_utf16 _) fun _ => (blames_fullName size).map

/-- A region is a number of boxes, all of which are asked for before the first is read. One that
takes the place of the old region is not read at all. -/
theorem blames_regionCommand : BlamesBytes regionCommand := by
  unfold regionCommand
  refine blames_bind blames_u32 fun _ => blames_bind blames_u32 fun _ => ?_
  dsimp only
  split
  · exact blames_pure _
  · exact blames_bind (blames_seek _) fun _ => blames_bind blames_u32 fun _ =>
      blames_bind (blames_seek _) fun _ => blames_bind (blames_require _) fun _ =>
        (blames_many blames_box _).map

/-- An area has its corner, its size and its operation first, and then the place of its picture.
-/
theorem blames_blitFields : BlamesBytes blitFields :=
  blames_bind (blames_seek _) fun _ => blames_bind blames_longPoint fun _ =>
    blames_bind blames_longPoint fun _ => blames_bind blames_u32 fun _ =>
      blames_bind (blames_seek _) fun _ => blames_bind blames_picturePlace fun place =>
        place.blames_picture?.map

/-- An area with an opacity is an area, and the opacity is one byte in the middle of it. -/
theorem blames_alphaBlitFields : BlamesBytes alphaBlitFields :=
  blames_bind blames_blitFields fun _ => blames_bind (blames_seek _) fun _ => blames_u8.map

/-- An area in which a picture is stretched has the same fields in another order. -/
theorem blames_stretchBlitFields : BlamesBytes stretchBlitFields :=
  blames_bind (blames_seek _) fun _ => blames_bind blames_longPoint fun _ =>
    blames_bind (blames_seek _) fun _ => blames_bind blames_picturePlace fun place =>
      blames_bind blames_u32 fun _ => blames_bind blames_u32 fun _ =>
        blames_bind blames_longPoint fun _ => place.blames_picture?.map

/-- A text in one of two encodings. How the text is decoded is passed in, and has to blame the
bytes as well. -/
theorem blames_labelCommand {decode : Nat → Decode String}
    (h : ∀ count, BlamesBytes (decode count)) : BlamesBytes (labelCommand decode) :=
  blames_bind (blames_seek _) fun _ => blames_bind blames_longPoint fun _ =>
    blames_bind blames_u32 fun count => blames_bind blames_u32 fun _ =>
      blames_bind (blames_seek _) fun _ => (h count).map

/-- A narrow text is a number of bytes, each of which is a character. -/
theorem blames_narrowText (count : Nat) : BlamesBytes (narrowText count) :=
  (blames_bytes count).map

/-- The bytes of a small text are characters in the same way. -/
theorem blames_latinText (count : Nat) : BlamesBytes (latinText count) := (blames_bytes count).map

/-- A wide text is a number of 16-bit units. -/
theorem blames_wideText (count : Nat) : BlamesBytes (wideText count) := (blames_utf16 count).map

/-- The options of a small text say whether bounds precede it and how wide its characters are. -/
theorem blames_smallLabelCommand : BlamesBytes smallLabelCommand := by
  unfold smallLabelCommand
  refine blames_bind blames_longPoint fun _ => blames_bind blames_u32 fun count =>
    blames_bind blames_u32 fun _ => blames_bind (blames_seek _) fun _ => ?_
  split
  · exact (blames_latinText count).map
  · exact (blames_wideText count).map

/-- EMF+ records are cut out of their comment as they are. They are taken apart when they are
played, and a fault among them is none of the comment. -/
theorem blames_plusRecords : BlamesBytes plusRecords :=
  blames_bind (blames_bind blames_u32 fun _ => blames_u32.map) fun _ => blames_slice _ _

namespace Command

/-- The fields of a record whose command is not known from its kind. -/
theorem blames_decodeFields (kind : Kind) (size : Nat) :
    BlamesBytes (decodeFields kind size) := by
  cases kind
  case setMapMode | setLayout | selectObject | deleteObject | selectClipPath =>
    exact blames_u32.map
  case moveTo | offsetClipRegion => exact blames_longPoint.map
  case restoreContext => exact blames_i32.map
  case setWorldTransform | modifyWorldTransform => exact (blames_transformChange _).map
  case createPen => exact blames_penCommand
  case createExtendedPen => exact blames_extendedPenCommand
  case createBrush => exact blames_brushCommand
  case createMonoBrush | createPatternBrush => exact blames_patternCommand _
  case createFont => exact blames_fontCommand size
  case intersectClipRect | excludeClipRect => exact blames_box.map
  case selectClipRegion => exact blames_regionCommand
  case bitBlt | stretchBlt => exact blames_blitFields.map
  case alphaBlend => exact blames_alphaBlitFields.map
  case stretchBits => exact blames_stretchBlitFields.map
  case textOutNarrow => exact blames_labelCommand blames_narrowText
  case textOutWide => exact blames_labelCommand blames_wideText
  case smallTextOut => exact blames_smallLabelCommand
  case comment => exact blames_plusRecords.map
  all_goals exact blames_pure _

/-- The command of a record of any kind. The kinds are gone through once, here, and each is done
by the lemma about its fields. -/
theorem blames_decode (kind : Kind) (size : Nat) : BlamesBytes (decode kind size) := by
  unfold decode
  split
  case h_1 => exact Header.blames_decode.map
  case h_9 =>
    split
    · rename_i hshape
      exact (Shape.blames_decode? hshape).map
    · rename_i hsetting
      exact blames_bind (blames_seek _) fun _ => (Setting.blames_decode? hsetting).map
    · exact blames_bind (blames_seek _) fun _ => blames_decodeFields kind size
  all_goals exact blames_pure _

end Command

/-- A record that cannot be read is cut short, or counts more than there can be. -/
theorem Entry.command_blames_bytes {plus : Bool} {e : Entry} {fault : Fault}
    (h : e.command plus = .error fault) : fault.isReading = true := by
  unfold Entry.command at h
  split at h
  · cases h
  · rename_i kind _
    unfold Command.ofRecord at h
    split at h
    · cases h
    · exact (Command.blames_decode kind _).first h

end Record

end Metafile
