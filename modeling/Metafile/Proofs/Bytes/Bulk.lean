import Metafile.Proofs.Bytes.Offsets

/-!
# `Metafile.Proofs.Bytes.Bulk`: bulk reads are made as a whole or not at all

A read that fails gives no cursor, so it cannot move the one that it began with. A reader that
keeps one place and moves it as it goes has no such safety, since a read of many values may fail
in the middle. `InPlace` is a reader of this sort. A single read that does not fit leaves the
place anywhere (`astray`), and a sum or a product that takes more than 64 bits has no value.

The bulk reads of such a reader check the whole amount first and then take the values one by one.
Behind the check no single read fails (`Bulk.inPlace_of_fits`), and where the check fails the
place has not moved yet (`Bulk.inPlace_of_exceeds`). So they come to what the reads of cursors
come to (`Bulk.inPlace_eq_settle`).

`Reached` are the places after reads of which only bulk reads may have failed. Each step from one
of them stays inside of the span, so all of them lie there (`Reached.le`).
-/

set_option autoImplicit false

namespace Metafile

open Cursor (addressSpace pointWidth)

variable {α β : Type} {data : Bytes} {astray : Nat → Nat} {place : Nat}

/-! ### Readers that keep one place -/

/-- A reading that moves one place, whether or not it gives a value. -/
abbrev InPlace (α : Type) := ExceptT Fault (StateM Nat) α

/-- What is left of a reading with cursors: the value, and the place behind it. If there is none,
the place is another one. -/
def settle (otherwise : Nat) : Except Fault (α × Cursor) → Except Fault α × Nat
  | .ok (value, c) => (.ok value, c.position)
  | .error fault => (.error fault, otherwise)

/-- Why values cannot be read at a place: there are too many to count their bytes, or these exceed
the span. -/
def excess (overflow : OutOfBounds) (size place total : Nat) : Fault :=
  .outOfBounds (if addressSpace ≤ total then overflow else .span size place total)

namespace InPlace

/-- A single read. If it does not fit, the place may be anywhere. -/
def single (data : Bytes) (astray : Nat → Nat) (d : Decode α) : InPlace α := fun place =>
  if h : place ≤ data.length then settle (astray place) (d ⟨data, place, data.drop place, h, rfl⟩)
  else (.error (.outOfBounds .shortRead), astray place)

/-- Takes `count` values, one after the other. -/
def many (count : Nat) (one : InPlace α) : InPlace (List α) :=
  match count with
  | 0 => return []
  | n + 1 => do
    let first ← one
    return first :: (← many n one)

/-- A sum that can be addressed. -/
def sum? (a b : Nat) : Option Nat :=
  if a + b < addressSpace then some (a + b) else none

/-- A product that can be addressed. -/
def product? (a b : Nat) : Option Nat :=
  if a * b < addressSpace then some (a * b) else none

/-- Makes sure that `length` bytes at an offset lie inside of the span. -/
def check (data : Bytes) (offset length : Nat) : InPlace Unit :=
  if (sum? offset length).any (· ≤ data.length) then return ()
  else throw (.outOfBounds (.span data.length offset length))

/-- Makes sure that `count` more bytes exist. -/
def require (data : Bytes) (count : Nat) : InPlace Unit := do
  check data (← get) count

/-- Makes sure that `count` values of some width exist, and then takes them. -/
def sized (data : Bytes) (count width : Nat) (overflow : OutOfBounds) (values : InPlace α) :
    InPlace α := do
  let some total := product? count width | throw (.outOfBounds overflow)
  require data total
  values

/-! ### What a reading comes to -/

/-- After a reading that succeeds, the next one starts where it stopped. -/
theorem bind_of_ok {x : InPlace α} {f : α → InPlace β} {value : α} {next : Nat}
    (h : x place = (.ok value, next)) : (x >>= f) place = f value next := by
  show ExceptT.bindCont f (x place).1 (x place).2 = _
  rw [h]
  rfl

/-- After a reading that fails nothing is read, and the place is where the failure left it. -/
theorem bind_of_error {x : InPlace α} {f : α → InPlace β} {fault : Fault} {next : Nat}
    (h : x place = (.error fault, next)) : (x >>= f) place = (.error fault, next) := by
  show ExceptT.bindCont f (x place).1 (x place).2 = _
  rw [h]
  rfl

/-- A single read that fits gives the value that stands there, and goes behind it. -/
theorem single_of_fits {d : Decode α} {width : Nat} {value : Bytes → Nat → α}
    (hd : d.Gets width value) (h : place + width ≤ data.length) :
    single data astray d place = (.ok (value data place), place + width) := by
  rw [single, dif_pos (Nat.le_of_add_right_le h), hd.gives _ h]
  rfl

/-- Values that all fit are read one after the other, and none of them goes astray. -/
theorem many_of_fits {one : InPlace α} {width : Nat} {value : Nat → α}
    (hone : ∀ place, place + width ≤ data.length → one place = (.ok (value place), place + width))
    {count : Nat} (h : place + count * width ≤ data.length) :
    many count one place =
      (.ok ((List.range count).map fun i => value (place + i * width)),
        place + count * width) := by
  induction count generalizing place with
  | zero => rw [Nat.zero_mul]; rfl
  | succ count ih =>
      -- the room for one more value is what the first one takes
      rw [Nat.succ_mul] at h
      have hrest : many count one (place + width) = _ := ih (by omega)
      rw [many, bind_of_ok (hone place (by omega)), bind_of_ok hrest]
      simp only [List.range_succ_eq_map, List.map_cons, List.map_map, Function.comp_def,
        Nat.zero_mul, Nat.add_zero, Nat.succ_mul, Nat.add_assoc, Nat.add_comm width]
      rfl

/-- A span inside of the data passes, and the place stays. -/
theorem check_of_fits {offset length : Nat} (hsize : data.length < addressSpace)
    (h : offset + length ≤ data.length) : check data offset length place = (.ok (), place) := by
  rw [check, sum?, if_pos (Nat.lt_of_le_of_lt h hsize), Option.any_some,
    if_pos (decide_eq_true h)]
  rfl

/-- A sum that has no value exceeds the span as well. -/
theorem check_of_exceeds {offset length : Nat} (h : data.length < offset + length) :
    check data offset length place =
      (.error (.outOfBounds (.span data.length offset length)), place) := by
  have hfails : (sum? offset length).any (· ≤ data.length) = false := by
    unfold sum?
    split
    · exact decide_eq_false (Nat.not_le.2 h)
    · rfl
  rw [check, hfails]
  rfl

section

variable {count width : Nat} {overflow : OutOfBounds} {values : InPlace α}

/-- Values of which all fit are read, and asking for room first changes nothing. -/
theorem sized_of_fits (hsize : data.length < addressSpace)
    (h : place + count * width ≤ data.length) :
    sized data count width overflow values place = values place := by
  have hproduct : product? count width = some (count * width) := if_pos (by omega)
  rw [sized, hproduct]
  exact bind_of_ok (check_of_fits hsize h)

/-- Values of which not all fit are not read at all, and the place stays. -/
theorem sized_of_exceeds (h : data.length < place + count * width) :
    sized data count width overflow values place =
      (.error (excess overflow data.length place (count * width)), place) := by
  rw [sized, product?, excess]
  by_cases hspace : addressSpace ≤ count * width
  · rw [if_neg (Nat.not_lt.2 hspace), if_pos hspace]
    rfl
  · rw [if_pos (Nat.lt_of_not_le hspace), if_neg hspace]
    exact bind_of_error (check_of_exceeds h)

end

end InPlace

/-- Reading values with a cursor fails for the same reasons. -/
theorem Cursor.sized_of_exceeds {total : Nat} {overflow : OutOfBounds} {values : Decode α}
    {c : Cursor} (h : c.data.length < c.position + total) :
    (do if addressSpace ≤ total then throw (.outOfBounds overflow)
        Cursor.require total
        values : Decode α) c =
      .error (excess overflow c.data.length c.position total) := by
  rw [excess]
  split
  · rfl
  · show (Cursor.require total c >>= _) = _
    rw [Cursor.require_of_exceeds h]
    rfl

/-! ### Bulk reads -/

/-- The bulk reads, with their arguments. -/
inductive Bulk : Type → Type where
  | seek (offset : Nat) : Bulk Unit
  | skip (count : Nat) : Bulk Unit
  | require (count : Nat) : Bulk Unit
  | bytes (count : Nat) : Bulk Bytes
  | points (count : Nat) (short : Bool) : Bulk (List (Point Int))
  | utf16 (count : Nat) : Bulk String

namespace Bulk

/-- A bulk read of cursors. -/
def decode : {α : Type} → Bulk α → Decode α
  | _, seek offset => Cursor.seek offset
  | _, skip count => Cursor.skip count
  | _, require count => Cursor.require count
  | _, bytes count => Cursor.bytes count
  | _, points count short => Cursor.points count short
  | _, utf16 count => Cursor.utf16 count

open InPlace in
/-- A bulk read that keeps one place: the check of the whole amount, and then one value after the
other. -/
def inPlace (data : Bytes) (astray : Nat → Nat) : {α : Type} → Bulk α → InPlace α
  | _, seek offset => do
    check data offset 0
    set offset
  | _, skip count => do
    let place ← get
    check data place count
    set (place + count)
  | _, require count => InPlace.require data count
  | _, bytes count => do
    let place ← get
    check data place count
    set (place + count)
    return (data.drop place).take count
  | _, points count short =>
    sized data count (pointWidth short) .pointCount
      (many count (single data astray (Cursor.point short)))
  | _, utf16 count =>
    sized data count 2 .stringLength do
      let units ← many count (single data astray Cursor.u16)
      return Text.Utf16.decode (units.takeWhile (· != 0))

/-- Where the bytes begin that a bulk read needs. -/
def offset : Bulk α → Nat → Nat
  | seek offset, _ => offset
  | _, place => place

/-- How many bytes a bulk read needs. -/
def size : Bulk α → Nat
  | seek _ => 0
  | skip count | require count | bytes count => count
  | points count short => count * pointWidth short
  | utf16 count => count * 2

/-- The place behind a bulk read. -/
def stop : Bulk α → Nat → Nat
  | seek offset, _ => offset
  | require _, place => place
  | b, place => place + b.size

/-- What the bytes say that a bulk read takes. -/
def value : {α : Type} → Bulk α → Bytes → Nat → α
  | _, seek _, _, _ | _, skip _, _, _ | _, require _, _, _ => ()
  | _, bytes count, data, place => (data.drop place).take count
  | _, points count short, data, place => data.pointsAt short place count
  | _, utf16 count, data, place =>
    Text.Utf16.decode ((data.wordsAt place 2 count).takeWhile (· != 0))

/-- Why a bulk read fails in a span of some size. Too many values to be counted in bytes are told
apart. -/
def fault (b : Bulk α) (size place : Nat) : Fault :=
  match b with
  | points count short => excess .pointCount size place (count * pointWidth short)
  | utf16 count => excess .stringLength size place (count * 2)
  | b => .outOfBounds (.span size (b.offset place) b.size)

/-! ### What bulk reads come to -/

/-- A bulk read whose bytes all exist gives them, and the place is behind them. -/
theorem inPlace_of_fits (b : Bulk α) (hsize : data.length < addressSpace)
    (h : b.offset place + b.size ≤ data.length) :
    b.inPlace data astray place = (.ok (b.value data place), b.stop place) := by
  have hcheck {offset length : Nat} (h : offset + length ≤ data.length) :
      InPlace.check data offset length place = (.ok (), place) :=
    InPlace.check_of_fits hsize h
  cases b with
  | seek offset => exact InPlace.bind_of_ok (hcheck h)
  | skip count => exact InPlace.bind_of_ok (hcheck h)
  | require count => exact hcheck h
  | bytes count => exact InPlace.bind_of_ok (hcheck h)
  | points count short =>
      -- the check is the last step that could have failed
      refine (InPlace.sized_of_fits hsize h).trans ?_
      exact InPlace.many_of_fits (fun _ => InPlace.single_of_fits (Cursor.gets_point short)) h
  | utf16 count =>
      refine (InPlace.sized_of_fits hsize h).trans ?_
      exact InPlace.bind_of_ok
        (InPlace.many_of_fits (fun _ => InPlace.single_of_fits Cursor.gets_u16) h)

/-- A bulk read that needs more bytes fails at the check, before the place has moved. -/
theorem inPlace_of_exceeds (b : Bulk α) (h : data.length < b.offset place + b.size) :
    b.inPlace data astray place = (.error (b.fault data.length place), place) := by
  cases b with
  | seek offset => exact InPlace.bind_of_error (InPlace.check_of_exceeds h)
  | skip count =>
      show (InPlace.check data place count >>= _) place = _
      exact InPlace.bind_of_error (InPlace.check_of_exceeds h)
  | require count => exact InPlace.check_of_exceeds h
  | bytes count =>
      show (InPlace.check data place count >>= _) place = _
      exact InPlace.bind_of_error (InPlace.check_of_exceeds h)
  | points count short => exact InPlace.sized_of_exceeds h
  | utf16 count => exact InPlace.sized_of_exceeds h

/-- A bulk read of cursors gives the same value, and a cursor that has moved to the same place. -/
theorem decode_of_fits (b : Bulk α) {c : Cursor} (hsize : c.data.length < addressSpace)
    (h : b.offset c.position + b.size ≤ c.data.length) :
    ∃ c', b.decode c = .ok (b.value c.data c.position, c') ∧ c'.position = b.stop c.position := by
  have hspace {n : Nat} (h : c.position + n ≤ c.data.length) : n < addressSpace := by omega
  cases b with
  | seek offset => exact ⟨_, dif_pos h, rfl⟩
  | skip count => exact ⟨_, dif_pos h, rfl⟩
  | require count => exact ⟨c, Cursor.require_of_fits h, rfl⟩
  | bytes count => exact ⟨_, (Cursor.gets_bytes count).gives c h, rfl⟩
  | points count short => exact ⟨_, (Cursor.gets_points_of_lt short (hspace h)).gives c h, rfl⟩
  | utf16 count => exact ⟨_, (Cursor.gets_utf16_of_lt (hspace h)).gives c h, rfl⟩

/-- A bulk read of cursors that does not fit fails with the fault of its sort. -/
theorem decode_of_exceeds (b : Bulk α) {c : Cursor}
    (h : c.data.length < b.offset c.position + b.size) :
    b.decode c = .error (b.fault c.data.length c.position) := by
  cases b with
  | seek offset => exact dif_neg (Nat.not_le.2 h)
  | skip count => exact dif_neg (Nat.not_le.2 h)
  | require count => exact Cursor.require_of_exceeds h
  | bytes count => exact dif_neg (Nat.not_le.2 h)
  | points count short => exact Cursor.sized_of_exceeds h
  | utf16 count => exact Cursor.sized_of_exceeds h

/-- A bulk read that keeps one place comes to the same as one of cursors. -/
theorem inPlace_eq_settle (b : Bulk α) (hsize : data.length < addressSpace)
    (h : place ≤ data.length) :
    b.inPlace data astray place =
      settle place (b.decode ⟨data, place, data.drop place, h, rfl⟩) := by
  let c : Cursor := ⟨data, place, data.drop place, h, rfl⟩
  show _ = settle place (b.decode c)
  by_cases hfits : b.offset place + b.size ≤ data.length
  · obtain ⟨c', hread, hstop⟩ := b.decode_of_fits (c := c) hsize hfits
    rw [b.inPlace_of_fits hsize hfits, hread, settle, hstop]
  · have hexceeds := Nat.lt_of_not_le hfits
    rw [b.inPlace_of_exceeds hexceeds, b.decode_of_exceeds (c := c) hexceeds, settle]

end Bulk

/-! ### Runs of reads -/

/-- The single reads. -/
inductive Single : Type → Type where
  | u8 : Single Nat
  | u16 : Single Nat
  | i16 : Single Int
  | u32 : Single Nat
  | i32 : Single Int
  | f32 : Single Float
  | point (short : Bool) : Single (Point Int)
  | box : Single Box
  | affine : Single (Affine Float)

namespace Single

/-- A single read of cursors. -/
def decode : {α : Type} → Single α → Decode α
  | _, u8 => Cursor.u8
  | _, u16 => Cursor.u16
  | _, i16 => Cursor.i16
  | _, u32 => Cursor.u32
  | _, i32 => Cursor.i32
  | _, f32 => Cursor.f32
  | _, point short => Cursor.point short
  | _, box => Cursor.box
  | _, affine => Cursor.affine

/-- Single reads have a width, and fail only where fewer bytes are left. -/
theorem exists_gets (r : Single α) : ∃ width value, r.decode.Gets width value := by
  cases r with
  | u8 => exact ⟨1, _, Cursor.gets_word 1⟩
  | u16 => exact ⟨2, _, Cursor.gets_u16⟩
  | i16 => exact ⟨2, _, Cursor.gets_i16⟩
  | u32 => exact ⟨4, _, Cursor.gets_u32⟩
  | i32 => exact ⟨4, _, Cursor.gets_i32⟩
  | f32 => exact ⟨4, _, Cursor.gets_f32⟩
  | point short => exact ⟨pointWidth short, _, Cursor.gets_point short⟩
  | box =>
      exact ⟨16, _, Cursor.gets_i32.bind fun left => Cursor.gets_i32.bind fun top =>
        Cursor.gets_i32.bind fun right => Cursor.gets_i32.map fun bottom =>
          (⟨left, top, right, bottom⟩ : Box)⟩
  | affine => exact ⟨24, _, Cursor.gets_affine⟩

/-- A single read that gives a value stays inside of the span. -/
theorem le_of_ok (r : Single α) {value : α} {next : Nat} (h : place ≤ data.length)
    (hread : InPlace.single data astray r.decode place = (.ok value, next)) :
    next ≤ data.length := by
  obtain ⟨width, value', hgets⟩ := r.exists_gets
  by_cases hfits : place + width ≤ data.length
  · rw [InPlace.single_of_fits hgets hfits] at hread
    obtain ⟨_, rfl⟩ := Prod.mk.inj hread
    exact hfits
  · obtain ⟨cause, hcause⟩ :=
      hgets.fails ⟨data, place, data.drop place, h, rfl⟩ (Nat.lt_of_not_le hfits)
    rw [InPlace.single, dif_pos h, hcause] at hread
    cases hread

end Single

/-- The places after reads from the beginning of a span on, if only bulk reads have failed. -/
inductive Reached (data : Bytes) (astray : Nat → Nat) : Nat → Prop where
  | start : Reached data astray 0
  | single {α : Type} {place next : Nat} {value : α} (h : Reached data astray place)
      (r : Single α)
      (hread : InPlace.single data astray r.decode place = (.ok value, next)) :
      Reached data astray next
  | bulk {α : Type} {place : Nat} (h : Reached data astray place) (b : Bulk α) :
      Reached data astray (b.inPlace data astray place).2

/-- Behind what fits into a span, the place still lies inside of it. -/
theorem Bulk.stop_le (b : Bulk α) (h : place ≤ data.length)
    (hfits : b.offset place + b.size ≤ data.length) : b.stop place ≤ data.length := by
  cases b with
  | seek offset => exact hfits
  | require count => exact h
  | skip | bytes | points | utf16 => exact hfits

/-- A bulk read leads from a place inside of the span to another one. -/
theorem Bulk.inPlace_le (b : Bulk α) (hsize : data.length < addressSpace)
    (h : place ≤ data.length) :
    (b.inPlace data astray place).2 ≤ data.length := by
  by_cases hfits : b.offset place + b.size ≤ data.length
  · rw [b.inPlace_of_fits hsize hfits]
    exact b.stop_le h hfits
  · rw [b.inPlace_of_exceeds (Nat.lt_of_not_le hfits)]
    exact h

/-- Reads do not leave the span, as long as only bulk reads fail. -/
theorem Reached.le (h : Reached data astray place) (hsize : data.length < addressSpace) :
    place ≤ data.length := by
  induction h with
  | start => exact Nat.zero_le _
  | single h r hread ih => exact r.le_of_ok ih hread
  | bulk h b ih => exact b.inPlace_le hsize ih

/-- A bulk read is made as a whole or not at all. From wherever reads may have led, it gives what
the bytes say that it needs, and moves behind them, if they all lie inside of the span. Otherwise
it fails and the place is where it was. It comes to what the same read of a cursor comes to. -/
theorem Bulk.all_or_nothing (hsize : data.length < addressSpace) (h : Reached data astray place) :
    ∃ hplace : place ≤ data.length, ∀ {α : Type} (b : Bulk α),
      b.inPlace data astray place =
        settle place (b.decode ⟨data, place, data.drop place, hplace, rfl⟩) ∧
      (b.offset place + b.size ≤ data.length →
        b.inPlace data astray place = (.ok (b.value data place), b.stop place)) ∧
      (data.length < b.offset place + b.size →
        b.inPlace data astray place = (.error (b.fault data.length place), place)) :=
  ⟨h.le hsize, fun b => ⟨b.inPlace_eq_settle hsize (h.le hsize), b.inPlace_of_fits hsize,
    b.inPlace_of_exceeds⟩⟩

/-- After a number and an array that does not fit, a text is read to its end. An array and a step
of more bytes than there can be leave the place alone. -/
theorem Bulk.all_or_nothing_text :
    let data : Bytes := [72, 0, 105, 0, 0, 0, 120, 0]
    let astray (_ : Nat) : Nat := 100
    (utf16 3).inPlace data astray 2 = (.ok "i", 8) ∧
      (points 0x2000000000000000 false).inPlace data astray 2 =
        (.error (.outOfBounds .pointCount), 2) ∧
      (skip 0xFFFFFFFFFFFFFFFF).inPlace data astray 2 =
        (.error (.outOfBounds (.span 8 2 0xFFFFFFFFFFFFFFFF)), 2) := by
  intro data astray
  have hnumber : Reached data astray 2 := .single .start .u16 rfl
  have harray : ((points 1 false).inPlace data astray 2).2 = 2 := rfl
  have hreached : Reached data astray 2 := harray ▸ hnumber.bulk (points 1 false)
  obtain ⟨hplace, hbulk⟩ := all_or_nothing (by decide) hreached
  have htext : (utf16 3).value data 2 = "i" := by decide +kernel
  exact ⟨htext ▸ (hbulk (utf16 3)).2.1 (by decide),
    (hbulk (points 0x2000000000000000 false)).2.2 (by decide),
    (hbulk (skip 0xFFFFFFFFFFFFFFFF)).2.2 (by decide)⟩

end Metafile
