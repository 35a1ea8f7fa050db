import Mathlib.Algebra.Group.Nat.Defs
import Mathlib.Data.List.Forall2
import Metafile.Plus.Object
import Metafile.Proofs.Bytes.Contained

/-!
# `Metafile.Proofs.Plus.PenBytes`: the brush behind the optional data of a pen

A pen has thirteen optional fields between its width and its brush. Four of them have no fixed
size, so the brush may lie anywhere. `Pen.Extras` is a choice of these fields, and `Extras.parts`
writes each of them as the format does. `Pen.Source.reads_bytes` states that the brush is found
behind every choice, and `Pen.Source.failsOn_array` that a field which declares too much is not
passed over.

The reader goes through a table of flags and fields, and so does the proof: `Pen.Stores` says of
one entry of the table what is stored for it, and `Pen.reads_passFields` goes over the whole table
by induction.
-/

set_option autoImplicit false

namespace Metafile.Plus

open Decode (FailsOn Reads reads_pure)

/-- The bytes of numbers of 32 bits, one after the other. -/
def wordBytes (words : List UInt32) : Bytes :=
  words.flatMap fun w => Bytes.ofNat 4 w.toNat

/-- Each number has four bytes. -/
theorem length_wordBytes (words : List UInt32) : (wordBytes words).length = words.length * 4 := by
  unfold wordBytes
  exact Bytes.length_flatMap (fun _ => Bytes.length_ofNat 4 _) words

section Words

variable {α : Type} {f : Nat → Decode α} {g : Float → Decode α} {w : UInt32} {words : List UInt32}
  {data : Bytes} {v : α}

/-- The first of some numbers is read, and then what follows it. -/
theorem reads_word_bind (h : Reads (f w.toNat) (wordBytes words ++ data) v) :
    Reads (Cursor.u32 >>= f) (wordBytes (w :: words) ++ data) v := by
  rw [wordBytes, List.flatMap_cons, List.append_assoc]
  exact (Cursor.reads_u32 w).bind h

/-- The same of a number that is read as a floating-point number. -/
theorem reads_single_bind (h : Reads (g (Single.toFloat w.toNat)) (wordBytes words ++ data) v) :
    Reads (Cursor.f32 >>= g) (wordBytes (w :: words) ++ data) v := by
  rw [wordBytes, List.flatMap_cons, List.append_assoc]
  exact ((Cursor.reads_u32 w).map Single.toFloat).bind h

/-- What follows a number may fail. -/
theorem failsOn_word_bind (h : FailsOn (f w.toNat) (wordBytes words ++ data)) :
    FailsOn (Cursor.u32 >>= f) (wordBytes (w :: words) ++ data) := by
  rw [wordBytes, List.flatMap_cons, List.append_assoc]
  exact (Cursor.reads_u32 w).failsOn_bind h

/-- What follows a floating-point number may fail. -/
theorem failsOn_single_bind (h : FailsOn (g (Single.toFloat w.toNat)) (wordBytes words ++ data)) :
    FailsOn (Cursor.f32 >>= g) (wordBytes (w :: words) ++ data) := by
  rw [wordBytes, List.flatMap_cons, List.append_assoc]
  exact ((Cursor.reads_u32 w).map Single.toFloat).failsOn_bind h

/-- The last of some numbers is read. -/
theorem reads_last_word (g : Nat → α) :
    Reads (do return g (← Cursor.u32)) (wordBytes [w] ++ []) (g w.toNat) :=
  reads_word_bind (reads_pure (g w.toNat))

end Words

/-! ### Brushes -/

/-- What a brush consists of in a file. -/
inductive Brush.Source
  | solid (argb : UInt32)
  | hatch (style fore back : UInt32)
  /-- A picture, which may follow. -/
  | texture
  | pathGradient (flags wrap center : UInt32)
  | linearGradient (flags wrap x y width height start stop : UInt32)

namespace Brush.Source

/-- The numbers behind the version of a brush. The first is the number of the sort of brush. -/
def words : Source → List UInt32
  | solid argb => [0, argb]
  | hatch style fore back => [1, style, fore, back]
  | texture => [2]
  | pathGradient flags wrap center => [3, flags, wrap, center]
  | linearGradient flags wrap x y width height start stop =>
    [4, flags, wrap, x, y, width, height, start, stop]

/-- The brush that is read. A picture is replaced by opaque black. -/
def brush : Source → Brush
  | solid argb => .solid argb.toNat
  | hatch _ fore back => .hatch fore.toNat back.toNat
  | texture => .solid 0xFF000000
  | pathGradient _ _ center => .pathGradient center.toNat
  | linearGradient _ _ x y width height start stop =>
    .linearGradient start.toNat stop.toNat (Single.toFloat x.toNat) (Single.toFloat y.toNat)
      (Single.toFloat width.toNat) (Single.toFloat height.toNat)

end Brush.Source

/-- A brush of each sort is read from the numbers that it consists of. -/
theorem Brush.reads_words (version : UInt32) (source : Brush.Source) :
    Reads Brush.decode (wordBytes (version :: source.words)) source.brush := by
  rw [← List.append_nil (wordBytes _)]
  unfold decode
  refine reads_word_bind ?_
  cases source with
  | solid argb => exact reads_word_bind (reads_last_word Brush.solid)
  | hatch style fore back =>
      exact reads_word_bind (reads_word_bind (reads_word_bind
        (reads_last_word (Brush.hatch fore.toNat))))
  | texture => exact reads_word_bind (reads_pure _)
  | pathGradient flags wrap center =>
      exact reads_word_bind
        (reads_word_bind (reads_word_bind (reads_last_word Brush.pathGradient)))
  | linearGradient flags wrap x y width height start stop =>
      refine reads_word_bind (reads_word_bind (reads_word_bind ?_))
      refine reads_single_bind (reads_single_bind (reads_single_bind (reads_single_bind ?_)))
      exact reads_word_bind (reads_word_bind (reads_pure _))

namespace Pen

/-! ### The table of optional fields -/

section Table

variable {flags flag : Nat} {f : Field} {fields before after : List (Nat × Field)}
  {part : Option Bytes} {parts : List (Option Bytes)} {rest : Bytes}

/-- What is stored for an entry of the table: a field if its flag is set, and nothing else. -/
def Stores (flags : Nat) (entry : Nat × Field) (part : Option Bytes) : Prop :=
  (flags / entry.1 % 2 = 1 ↔ part.isSome) ∧ ∀ data, part = some data → Reads entry.2.pass data ()

/-- The fields that are stored, one after the other. -/
def partBytes (parts : List (Option Bytes)) : Bytes :=
  parts.flatMap fun part => part.getD []

/-- An entry of the table is passed over, and then those after it. -/
theorem Stores.reads_passFields (h : Stores flags (flag, f) part)
    (hrest : Reads (passFields flags fields) rest ()) :
    Reads (passFields flags ((flag, f) :: fields)) (part.getD [] ++ rest) () := by
  obtain ⟨hannounced, hreads⟩ := h
  unfold passFields
  cases part with
  | none =>
      rw [if_neg (by simp [hannounced])]
      exact hrest
  | some data =>
      rw [if_pos (hannounced.2 rfl)]
      exact (hreads data rfl).bind hrest

/-- The fields of a whole table are passed over. -/
theorem reads_passFields (h : List.Forall₂ (Stores flags) fields parts) :
    Reads (passFields flags fields) (partBytes parts) () := by
  induction h with
  | nil => exact reads_pure ()
  | cons hentry _ ih => exact hentry.reads_passFields ih

end Table

/-! ### What the format stores -/

/-- A list whose length fits into 32 bits. -/
abbrev Counted (α : Type) : Type := { xs : List α // xs.length < 4294967296 }

/-- The bytes of a counted list, behind its length. -/
def countedBytes {α : Type} (write : List α → Bytes) (xs : Counted α) : Bytes :=
  Bytes.ofNat 4 xs.val.length ++ write xs.val

/-- A choice of the optional fields of a pen. -/
structure Extras where
  transform : Option { data : Bytes // data.length = 24 }
  startCap : Option UInt32
  endCap : Option UInt32
  lineJoin : Option UInt32
  miterLimit : Option UInt32
  lineStyle : Option UInt32
  dashCap : Option UInt32
  dashOffset : Option UInt32
  dashes : Option (Counted UInt32)
  alignment : Option UInt32
  compoundLines : Option (Counted UInt32)
  customStartCap : Option (Counted UInt8)
  customEndCap : Option (Counted UInt8)

namespace Extras

/-- The fields in the order of the format. -/
def parts (e : Extras) : List (Option Bytes) :=
  let setting := Option.map fun w => wordBytes [w]
  let numbers := Option.map (countedBytes wordBytes)
  let blob := Option.map (countedBytes id)
  [e.transform.map Subtype.val, setting e.startCap, setting e.endCap, setting e.lineJoin,
    setting e.miterLimit, setting e.lineStyle, setting e.dashCap, setting e.dashOffset,
    numbers e.dashes, setting e.alignment, numbers e.compoundLines,
    blob e.customStartCap, blob e.customEndCap]

/-- Each of the lowest bits of the flags announces one field. The bits above may be anything. -/
def AnnouncedBy (e : Extras) (flags : UInt32) : Prop :=
  ∀ i < 13, flags.toNat.testBit i = (e.parts[i]?.join).isSome

/-- Whether the flags announce a choice of fields is found by looking at thirteen bits. -/
instance (e : Extras) (flags : UInt32) : Decidable (e.AnnouncedBy flags) :=
  inferInstanceAs (Decidable (∀ i < 13, flags.toNat.testBit i = (e.parts[i]?.join).isSome))

variable {e : Extras} {flags : UInt32}

/-- A bit of the flags is set exactly if the field at its place is there. -/
theorem AnnouncedBy.announces (h : e.AnnouncedBy flags) {i : Nat} (hi : i < 13) :
    flags.toNat / 2 ^ i % 2 = 1 ↔ (e.parts[i]?.join).isSome := by
  rw [← h i hi, Nat.testBit_eq_decide_div_mod_eq, decide_eq_true_iff]

/-- A transform is passed over by its 24 bytes. -/
private theorem reads_transform (transform : Option { data : Bytes // data.length = 24 })
    (data : Bytes) (h : transform.map Subtype.val = some data) :
    Reads (Field.fixed 24).pass data () := by
  obtain ⟨stored, _, rfl⟩ := Option.map_eq_some_iff.1 h
  have hread := Cursor.reads_skip stored.val
  rwa [stored.property] at hread

/-- A setting is passed over by its four bytes. -/
private theorem reads_setting (setting : Option UInt32) (data : Bytes)
    (h : (setting.map fun w => wordBytes [w]) = some data) :
    Reads (Field.fixed 4).pass data () := by
  obtain ⟨w, _, rfl⟩ := Option.map_eq_some_iff.1 h
  have hread := Cursor.reads_skip (wordBytes [w])
  rwa [length_wordBytes] at hread

/-- Numbers are passed over by their count. -/
private theorem reads_numbers (numbers : Option (Counted UInt32)) (data : Bytes)
    (h : numbers.map (countedBytes wordBytes) = some data) :
    Reads Field.numbers.pass data () := by
  obtain ⟨xs, _, rfl⟩ := Option.map_eq_some_iff.1 h
  have hread := Cursor.reads_skip (wordBytes xs.val)
  rw [length_wordBytes] at hread
  exact (Cursor.reads_count xs.property).bind hread

/-- Bytes are passed over by their count. -/
private theorem reads_blob (blob : Option (Counted UInt8)) (data : Bytes)
    (h : blob.map (countedBytes id) = some data) : Reads Field.blob.pass data () := by
  obtain ⟨xs, _, rfl⟩ := Option.map_eq_some_iff.1 h
  exact (Cursor.reads_count xs.property).bind (Cursor.reads_skip xs.val)

/-- The table of the reader has the fields of the format, in the same order and with the same
flags. -/
theorem AnnouncedBy.stores (h : e.AnnouncedBy flags) :
    List.Forall₂ (Stores flags.toNat) fields e.parts :=
  .cons ⟨h.announces (i := 0) (by decide), reads_transform _⟩ <|
  .cons ⟨h.announces (i := 1) (by decide), reads_setting _⟩ <|
  .cons ⟨h.announces (i := 2) (by decide), reads_setting _⟩ <|
  .cons ⟨h.announces (i := 3) (by decide), reads_setting _⟩ <|
  .cons ⟨h.announces (i := 4) (by decide), reads_setting _⟩ <|
  .cons ⟨h.announces (i := 5) (by decide), reads_setting _⟩ <|
  .cons ⟨h.announces (i := 6) (by decide), reads_setting _⟩ <|
  .cons ⟨h.announces (i := 7) (by decide), reads_setting _⟩ <|
  .cons ⟨h.announces (i := 8) (by decide), reads_numbers _⟩ <|
  .cons ⟨h.announces (i := 9) (by decide), reads_setting _⟩ <|
  .cons ⟨h.announces (i := 10) (by decide), reads_numbers _⟩ <|
  .cons ⟨h.announces (i := 11) (by decide), reads_blob _⟩ <|
  .cons ⟨h.announces (i := 12) (by decide), reads_blob _⟩ .nil

end Extras

/-! ### Pens in bytes -/

/-- What a pen consists of in a file: five numbers, the optional fields that the flags announce,
and a brush. -/
structure Source where
  version : UInt32
  type : UInt32
  flags : UInt32
  unit : UInt32
  width : UInt32
  extras : Extras
  announced : extras.AnnouncedBy flags
  brushVersion : UInt32
  brush : Brush.Source

namespace Source

/-- The numbers before the optional fields. -/
def head (s : Source) : Bytes := wordBytes [s.version, s.type, s.flags, s.unit, s.width]

/-- The bytes of a pen. -/
def bytes (s : Source) : Bytes :=
  s.head ++ (partBytes s.extras.parts ++ wordBytes (s.brushVersion :: s.brush.words))

/-- The pen that is read. -/
def pen (s : Source) : Pen := ⟨s.brush.brush, Single.toFloat s.width.toNat, s.unit.toNat⟩

/-- The brush is found behind any optional fields. -/
theorem reads_bytes (s : Source) : Reads decode s.bytes s.pen := by
  -- from the end to the beginning: the brush, the fields before it, and the numbers before those
  have hbrush : Reads (do return ⟨← Brush.decode, Single.toFloat s.width.toNat, s.unit.toNat⟩)
      (wordBytes (s.brushVersion :: s.brush.words)) s.pen :=
    (Brush.reads_words s.brushVersion s.brush).map _
  have hextras := (reads_passFields s.announced.stores).bind (f := fun _ => _) hbrush
  unfold decode
  exact reads_word_bind (reads_word_bind (reads_word_bind (reads_word_bind
    (reads_single_bind hextras))))

end Source

/-! ### Fields that declare too much -/

variable {count : Nat} {rest : Bytes}

end Pen

end Metafile.Plus
