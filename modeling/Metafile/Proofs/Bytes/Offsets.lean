import Metafile.Proofs.Bytes.Written

/-!
# `Metafile.Proofs.Bytes.Offsets`: the values that stand at an offset

A record says by its numbers how many values it holds and where. `Bytes.wordAt` is the number that
stands at an offset of a span, `Bytes.pointAt` is the point there, and the numbers or points of an
array stand one width apart.

`Decode.Gets` says of a reading procedure which value it gives, in terms of the span and the
offset it reads from. It tells more than `Decode.Takes`, which only knows the width. The two
lemmas `Gets.from_bind_eq_ok` and `Gets.from_eq_ok` take a chain of such readings apart: what is
left are the lengths that the span has to have, and the values by their offsets.
-/

set_option autoImplicit false

namespace Metafile

open Cursor (addressSpace pointWidth)

namespace Bytes

/-- The number of `width` bytes at an offset. -/
def wordAt (data : Bytes) (offset width : Nat) : Nat := toNat ((data.drop offset).take width)

/-- A number of so many bytes is below the power of 256 with that exponent, also where the data
end early. -/
theorem wordAt_lt (data : Bytes) (offset width : Nat) :
    wordAt data offset width < Nat.pow 256 width :=
  Nat.lt_of_lt_of_le (toNat_lt _) (Nat.pow_le_pow_right (by decide) (List.length_take_le _ _))

/-- The numbers of an array at an offset. -/
def wordsAt (data : Bytes) (offset width count : Nat) : List Nat :=
  (List.range count).map fun i => wordAt data (offset + i * width) width

/-- An array has as many numbers as are asked for, whatever the data are. -/
theorem length_wordsAt (data : Bytes) (offset width count : Nat) :
    (wordsAt data offset width count).length = count := by
  rw [wordsAt, List.length_map, List.length_range]

/-- The signed number of `width` bytes at an offset. -/
def intAt (data : Bytes) (offset width : Nat) : Int :=
  signed (8 * width) (wordAt data offset width)

/-- The point at an offset, with 16 or with 32 bits for each coordinate. -/
def pointAt (short : Bool) (data : Bytes) (offset : Nat) : Point Int :=
  let width := if short then 2 else 4
  ⟨intAt data offset width, intAt data (offset + width) width⟩

/-- The points of an array at an offset. -/
def pointsAt (short : Bool) (data : Bytes) (offset count : Nat) : List (Point Int) :=
  (List.range count).map fun i => pointAt short data (offset + i * pointWidth short)

/-- An array has as many points as are asked for, whatever the data are. -/
theorem length_pointsAt (short : Bool) (data : Bytes) (offset count : Nat) :
    (pointsAt short data offset count).length = count := by
  rw [pointsAt, List.length_map, List.length_range]

/-- The floating-point number of 32 bits at an offset. -/
def floatAt (data : Bytes) (offset : Nat) : Float := Single.toFloat (wordAt data offset 4)

/-- The affine map at an offset. -/
def affineAt (data : Bytes) (offset : Nat) : Affine Float where
  m11 := floatAt data offset
  m12 := floatAt data (offset + 4)
  m21 := floatAt data (offset + 8)
  m22 := floatAt data (offset + 12)
  dx := floatAt data (offset + 16)
  dy := floatAt data (offset + 20)

/-- Bytes are the numbers of an array of width one. -/
theorem wordsAt_one {data : Bytes} {offset count : Nat} (h : offset + count ≤ data.length) :
    wordsAt data offset 1 count = ((data.drop offset).take count).map UInt8.toNat := by
  refine List.ext_getElem ?_ fun i hi _ => ?_
  · rw [length_wordsAt, List.length_map, List.length_take, List.length_drop]
    omega
  · rw [length_wordsAt] at hi
    have hat : offset + i < data.length := by omega
    have hone : (data.drop (offset + i)).take 1 = [data[offset + i]] := by
      rw [List.drop_eq_getElem_cons hat, List.take_succ_cons, List.take_zero]
    simp only [wordsAt, wordAt, List.getElem_map, List.getElem_range, List.getElem_take,
      List.getElem_drop, Nat.mul_one, hone, toNat, Nat.mul_zero, Nat.add_zero]

end Bytes

namespace Decode

variable {α β : Type} {d : Decode α} {f : α → Decode β} {n m : Nat}
  {value : Bytes → Nat → α} {data : Bytes} {offset : Nat} {v : α} {w : β}

/-- A reading procedure that takes `n` bytes, gives the value that stands there, and fails only
where fewer bytes are left. -/
structure Gets (d : Decode α) (n : Nat) (value : Bytes → Nat → α) : Prop where
  gives : ∀ (c : Cursor) (h : c.position + n ≤ c.data.length),
    d c = .ok (value c.data c.position, c.advance n h)
  fails : ∀ c : Cursor, c.data.length < c.position + n → ∃ cause, d c = .error cause

/-- A value that is given at once takes no bytes. -/
theorem gets_pure (v : α) : Gets (pure v) 0 fun _ _ => v where
  gives c _ := by
    simp only [Cursor.advance, Nat.add_zero, List.drop_zero]
    rfl
  fails c h := absurd c.position_le (Nat.not_le.2 h)

/-- In a chain, the second value stands behind the first one and may depend on it. -/
theorem Gets.bind {value' : α → Bytes → Nat → β} (hd : Gets d n value)
    (hf : ∀ v, Gets (f v) m (value' v)) :
    Gets (d >>= f) (n + m) fun data offset => value' (value data offset) data (offset + n) where
  gives c h := by
    have hfirst : c.position + n ≤ c.data.length := by omega
    have hrest : (c.advance n hfirst).position + m ≤ (c.advance n hfirst).data.length := by
      show c.position + n + m ≤ c.data.length
      omega
    show (d c >>= fun p => f p.1 p.2) = _
    rw [hd.gives c hfirst]
    show f _ (c.advance n hfirst) = _
    rw [(hf _).gives _ hrest]
    simp only [Cursor.advance, List.drop_drop, Nat.add_assoc]
  fails c h := by
    show ∃ cause, (d c >>= fun p => f p.1 p.2) = .error cause
    -- the data end in the second read, or already in the first one
    by_cases hfirst : c.position + n ≤ c.data.length
    · rw [hd.gives c hfirst]
      refine (hf _).fails (c.advance n hfirst) ?_
      show c.data.length < c.position + n + m
      omega
    · obtain ⟨cause, hcause⟩ := hd.fails c (by omega)
      rw [hcause]
      exact ⟨cause, rfl⟩

/-- A function of the value that is read takes no further bytes. -/
theorem Gets.map (hd : Gets d n value) (g : α → β) :
    Gets (do return g (← d)) n fun data offset => g (value data offset) :=
  hd.bind fun v => gets_pure (g v)

/-- The width and the value may be written in another way. -/
theorem Gets.congr {value' : Bytes → Nat → α} (h : Gets d n value) (hwidth : n = m)
    (hvalue : ∀ data offset, value data offset = value' data offset) : Gets d m value' := by
  obtain rfl := hwidth
  obtain rfl : value = value' := funext fun data => funext (hvalue data)
  exact h

/-- What gives a value begins inside of the span. -/
theorem le_of_from_eq_ok (h : d.from data offset = .ok v) : offset ≤ data.length := by
  refine Nat.le_of_not_lt fun hbehind => ?_
  rw [from_of_lt hbehind] at h
  cases h

/-- From an offset on, a chain gives what its second part gives behind the value of the first
part. -/
theorem Gets.from_bind_eq_ok (hd : Gets d n value) :
    (d >>= f).from data offset = .ok w ↔
      offset + n ≤ data.length ∧ (f (value data offset)).from data (offset + n) = .ok w := by
  by_cases hoffset : offset ≤ data.length
  · rw [from_of_le hoffset]
    show Prod.fst <$> (d _ >>= fun p => f p.1 p.2) = _ ↔ _
    by_cases hfits : offset + n ≤ data.length
    · rw [hd.gives _ hfits, from_of_le hfits, and_iff_right hfits]
      show Prod.fst <$> f _ _ = _ ↔ Prod.fst <$> f _ _ = _
      simp only [Cursor.advance, List.drop_drop]
    · obtain ⟨cause, hcause⟩ :=
        hd.fails ⟨data, offset, data.drop offset, hoffset, rfl⟩ (Nat.lt_of_not_le hfits)
      rw [hcause]
      exact iff_of_false (fun h => by cases h) fun h => hfits h.1
  · exact iff_of_false (fun h => hoffset (le_of_from_eq_ok h))
      fun h => hoffset (Nat.le_of_add_right_le h.1)

/-- From an offset on, a reading gives what stands there, if the span reaches that far. -/
theorem Gets.from_eq_ok (hd : Gets d n value) :
    d.from data offset = .ok v ↔ offset + n ≤ data.length ∧ value data offset = v := by
  have hchain : (d >>= pure).from data offset = .ok v ↔ _ := hd.from_bind_eq_ok
  rw [bind_pure] at hchain
  rw [hchain]
  refine and_congr_right fun hfits => ?_
  rw [from_of_le hfits]
  exact ⟨Except.ok.inj, congrArg Except.ok⟩

/-- From the first byte on, a reading gives what stands there, or nothing if the span is too
short. -/
theorem Gets.first_toOption (hd : Gets d n value) (data : Bytes) :
    (d.first data).toOption = if n ≤ data.length then some (value data 0) else none := by
  have hread (v : α) : d.first data = .ok v ↔ n ≤ data.length ∧ value data 0 = v := by
    show d.from data 0 = .ok v ↔ _
    rw [hd.from_eq_ok, Nat.zero_add]
  split
  · rw [(hread (value data 0)).2 ⟨‹_›, rfl⟩]
    rfl
  · cases hfirst : d.first data with
    | error cause => rfl
    | ok v => exact absurd ((hread v).1 hfirst).1 ‹_›

/-- Making sure of so many bytes changes nothing where they exist. -/
theorem from_require_bind_eq_ok {d : Decode β} :
    (do Cursor.require n; d : Decode β).from data offset = .ok w ↔
      offset + n ≤ data.length ∧ d.from data offset = .ok w := by
  by_cases hoffset : offset ≤ data.length
  · rw [from_of_le hoffset, from_of_le hoffset]
    let c : Cursor := ⟨data, offset, data.drop offset, hoffset, rfl⟩
    show Prod.fst <$> (Cursor.require n c >>= fun p => d p.2) = _ ↔ _
    by_cases hfits : offset + n ≤ data.length
    · have hrequire : Cursor.require n c = _ := Cursor.require_of_fits hfits
      rw [hrequire, and_iff_right hfits]
      rfl
    · have hrequire : Cursor.require n c = _ := Cursor.require_of_exceeds (Nat.lt_of_not_le hfits)
      rw [hrequire]
      exact iff_of_false (fun h => by cases h) fun h => hfits h.1
  · exact iff_of_false (fun h => hoffset (le_of_from_eq_ok h))
      fun h => hoffset (Nat.le_of_add_right_le h.1)

/-- What is read after a move to an offset is read from there. -/
theorem from_seek_bind_eq_ok {d : Decode β} {place : Nat} :
    (do Cursor.seek place; d : Decode β).from data offset = .ok w ↔
      offset ≤ data.length ∧ d.from data place = .ok w := by
  by_cases hoffset : offset ≤ data.length
  · rw [from_of_le hoffset, and_iff_right hoffset]
    show Prod.fst <$> (Cursor.seek place _ >>= fun p => d p.2) = _ ↔ _
    -- where the move begins does not matter
    unfold Decode.from Cursor.seek Cursor.start
    split <;> rfl
  · exact iff_of_false (fun h => hoffset (le_of_from_eq_ok h)) fun h => hoffset h.1

/-- A reading that is refused gives nothing. -/
theorem from_guard_eq_ok {p : Prop} [Decidable p] {fault : Fault} {f : Unit → Decode β} :
    (if p then throw fault >>= f else f () : Decode β).from data offset = .ok w ↔
      ¬p ∧ (f ()).from data offset = .ok w := by
  by_cases hp : p
  · rw [if_pos hp]
    refine iff_of_false (fun h => ?_) fun h => h.1 hp
    rw [from_of_le (le_of_from_eq_ok h)] at h
    cases h
  · rw [if_neg hp]
    exact (and_iff_right hp).symm

end Decode

namespace Cursor

open Bytes (intAt pointAt pointsAt wordAt wordsAt)
open Decode (Gets gets_pure)

variable {α : Type} {value : Bytes → Nat → α}

/-- A number of `width` bytes stands at the place of the cursor, and the cursor moves behind it.
-/
theorem gets_word (width : Nat) : Gets (word width) width (wordAt · · width) where
  gives c h := by
    rw [word_of_fits h, c.rest_eq]
    rfl
  fails c h := (takes_word width).fails c (by
    have := c.position_le
    unfold remaining
    omega)

/-- A number of 16 bits. -/
theorem gets_u16 : Gets u16 2 (wordAt · · 2) := gets_word 2

/-- A number of 32 bits. -/
theorem gets_u32 : Gets u32 4 (wordAt · · 4) := gets_word 4

/-- A number of 32 bits is read as a floating-point number. -/
theorem gets_f32 : Gets f32 4 Bytes.floatAt := gets_u32.map Single.toFloat

/-- The six entries of an affine map follow each other. -/
theorem gets_affine : Gets affine 24 Bytes.affineAt :=
  gets_f32.bind fun m11 => gets_f32.bind fun m12 => gets_f32.bind fun m21 =>
    gets_f32.bind fun m22 => gets_f32.bind fun dx => gets_f32.map fun dy =>
      (⟨m11, m12, m21, m22, dx, dy⟩ : Affine Float)

/-- Bytes are given as they stand there, all of them or none. -/
theorem gets_bytes (count : Nat) :
    Gets (bytes count) count fun data offset => (data.drop offset).take count where
  gives c h := by
    rw [bytes, dif_pos h, c.rest_eq]
  fails c h := ⟨_, dif_neg (Nat.not_le.2 h)⟩

/-- Values of one width stand one width apart. -/
theorem gets_many {one : Decode α} {width : Nat} (h : Gets one width value) (count : Nat) :
    Gets (many count one) (count * width) fun data offset =>
      (List.range count).map fun i => value data (offset + i * width) := by
  induction count with
  | zero => exact (gets_pure []).congr (Nat.zero_mul width).symm fun _ _ => rfl
  | succ count ih =>
      refine (h.bind fun first => ih.map (first :: ·)).congr ?_ fun data offset => ?_
      · rw [Nat.succ_mul, Nat.add_comm]
      · simp only [List.range_succ_eq_map, List.map_cons, List.map_map, Function.comp_def,
          Nat.zero_mul, Nat.add_zero, Nat.succ_mul, Nat.add_assoc, Nat.add_comm width]

/-- A number of 16 bits with a sign. -/
theorem gets_i16 : Gets i16 2 (intAt · · 2) := gets_u16.map (signed 16)

/-- A number of 32 bits with a sign. -/
theorem gets_i32 : Gets i32 4 (intAt · · 4) := gets_u32.map (signed 32)

/-- The two coordinates of a point follow each other, in either width. -/
theorem gets_point (short : Bool) : Gets (point short) (pointWidth short) (pointAt short) := by
  cases short with
  | true => exact gets_i16.bind fun x => gets_i16.map fun y => (⟨x, y⟩ : Point Int)
  | false => exact gets_i32.bind fun x => gets_i32.map fun y => (⟨x, y⟩ : Point Int)

/-- Making sure of the bytes first changes nothing. -/
theorem gets_require_bind {d : Decode α} {n : Nat} (h : Gets d n value) :
    Gets (do require n; d) n value where
  gives c hfits := by
    show (require n c >>= fun p => d p.2) = _
    rw [require_of_fits hfits]
    exact h.gives c hfits
  fails c hshort := by
    show ∃ cause, (require n c >>= fun p => d p.2) = _
    rw [require_of_exceeds hshort]
    exact ⟨_, rfl⟩

/-- The points of an array follow each other, if the array can be addressed at all. -/
theorem gets_points_of_lt (short : Bool) {count : Nat}
    (h : count * pointWidth short < addressSpace) :
    Gets (points count short) (count * pointWidth short) (pointsAt short · · count) := by
  unfold points
  rw [if_neg (Nat.not_le.2 h)]
  exact gets_require_bind (gets_many (gets_point short) count)

/-- A text is what its units stand for up to the first zero, if the array can be addressed. -/
theorem gets_utf16_of_lt {count : Nat} (h : count * 2 < addressSpace) :
    Gets (utf16 count) (count * 2) fun data offset =>
      Text.Utf16.decode ((wordsAt data offset 2 count).takeWhile (· != 0)) := by
  unfold utf16
  rw [if_neg (Nat.not_le.2 h)]
  exact gets_require_bind ((gets_many gets_u16 count).map fun units =>
    Text.Utf16.decode (units.takeWhile (· != 0)))

/-- Values whose number has 32 bits can be addressed. -/
theorem count_addressable {count width : Nat} (h : count < 4294967296) (hwidth : width ≤ 8) :
    count * width < addressSpace := by
  have hsize : count * width ≤ count * 8 := Nat.mul_le_mul_left _ hwidth
  show _ < 18446744073709551616
  omega

/-- The points of an array whose count was read from 32 bits. Such an array can always be
addressed. -/
theorem gets_points (short : Bool) {count : Nat} (h : count < 4294967296) :
    Gets (points count short) (count * pointWidth short) (pointsAt short · · count) :=
  gets_points_of_lt short (count_addressable h (by cases short <;> decide))

/-- A text whose count was read from 32 bits. -/
theorem gets_utf16 {count : Nat} (h : count < 4294967296) :
    Gets (utf16 count) (count * 2) fun data offset =>
      Text.Utf16.decode ((wordsAt data offset 2 count).takeWhile (· != 0)) :=
  gets_utf16_of_lt (count_addressable h (by decide))

end Cursor

end Metafile
