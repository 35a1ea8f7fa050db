import Metafile.Record.Fields

/-!
# `Metafile.Proofs.Bytes.Width`: readings of a fixed width

Numbers, points and affine maps take the same number of bytes wherever they stand. `Decode.Takes`
says so of a reading procedure: it succeeds exactly if that many bytes are left. Chains add up
their widths (`Takes.bind`), so the width of a whole record is the sum of those of its fields, and
`Takes.from_eq_ok` states from which length on a span of bytes holds it.

A number that fits into a width is what its bytes are read as (`Bytes.toNat_ofNat`).
-/

set_option autoImplicit false

namespace Metafile

namespace Bytes

/-- A number is written in as many bytes as are asked for. -/
theorem length_ofNat (width n : Nat) : (ofNat width n).length = width := by
  induction width generalizing n with
  | zero => rfl
  | succ width ih => rw [ofNat, List.length_cons, ih]

/-- A number of so many bytes is bounded by its width. -/
theorem toNat_lt (data : Bytes) : toNat data < Nat.pow 256 data.length := by
  induction data with
  | nil => decide
  | cons b rest ih =>
      have hbyte : b.toNat < 256 := b.toNat_lt
      rw [toNat, List.length_cons]
      show _ < Nat.pow 256 rest.length * 256
      omega

/-- The bytes of a number that fits into them are read as this number. -/
theorem toNat_ofNat {width n : Nat} (h : n < Nat.pow 256 width) : toNat (ofNat width n) = n := by
  induction width generalizing n with
  | zero =>
      rw [Nat.lt_one_iff.1 h]
      rfl
  | succ width ih =>
      change n < Nat.pow 256 width * 256 at h
      have hrest : n / 256 < Nat.pow 256 width := Nat.div_lt_of_lt_mul (by omega)
      have hbyte : (UInt8.ofNat (n % 256)).toNat = n % 256 := by
        rw [UInt8.toNat_ofNat']
        omega
      rw [ofNat, toNat, ih hrest, hbyte]
      omega

end Bytes

namespace Decode

variable {α β : Type} {n m : Nat}

/-- From an offset inside of the span, a procedure gives what it reads there. -/
theorem from_of_le {d : Decode α} {data : Bytes} {offset : Nat} (h : offset ≤ data.length) :
    d.from data offset = Prod.fst <$> d ⟨data, offset, data.drop offset, h, rfl⟩ := by
  have hseek : Cursor.seek offset (Cursor.start data) =
      .ok ((), ⟨data, offset, data.drop offset, h, rfl⟩) := dif_pos h
  unfold Decode.from
  rw [hseek]
  rfl

/-- Behind the span nothing is read, whatever the procedure. -/
theorem from_of_lt {d : Decode α} {data : Bytes} {offset : Nat} (h : data.length < offset) :
    d.from data offset = .error (.outOfBounds (.span data.length offset 0)) := by
  have hseek : Cursor.seek offset (Cursor.start data) =
      .error (.outOfBounds (.span data.length offset 0)) :=
    dif_neg (Nat.not_le.2 h)
  unfold Decode.from
  rw [hseek]
  rfl

/-- A reading procedure that takes `n` bytes, and fails only where fewer are left. -/
structure Takes (d : Decode α) (n : Nat) : Prop where
  succeeds : ∀ c : Cursor, n ≤ c.remaining →
    ∃ v c', d c = .ok (v, c') ∧ c'.remaining + n = c.remaining
  fails : ∀ c : Cursor, c.remaining < n → ∃ cause, d c = .error cause

/-- A value that is given at once takes no bytes, so it cannot fail for want of them. -/
theorem takes_pure (v : α) : Takes (pure v) 0 where
  succeeds c _ := ⟨v, c, rfl, rfl⟩
  fails _ h := absurd h (Nat.not_lt_zero _)

/-- The widths of a chain add up. -/
theorem Takes.bind {d : Decode α} {f : α → Decode β} (hd : Takes d n) (hf : ∀ v, Takes (f v) m) :
    Takes (d >>= f) (n + m) where
  succeeds c h := by
    obtain ⟨v, c', hfirst, hleft⟩ := hd.succeeds c (by omega)
    obtain ⟨w, c'', hsecond, hrest⟩ := (hf v).succeeds c' (by omega)
    refine ⟨w, c'', ?_, by omega⟩
    show (d c >>= fun p => f p.1 p.2) = _
    rw [hfirst]
    exact hsecond
  fails c h := by
    show ∃ cause, (d c >>= fun p => f p.1 p.2) = .error cause
    -- either the first part does not fit, or it leaves too little for the second
    by_cases hfits : n ≤ c.remaining
    · obtain ⟨v, c', hfirst, hleft⟩ := hd.succeeds c hfits
      rw [hfirst]
      exact (hf v).fails c' (by omega)
    · obtain ⟨cause, hfirst⟩ := hd.fails c (by omega)
      rw [hfirst]
      exact ⟨cause, rfl⟩

/-- A function of what is read takes no bytes of its own. -/
theorem Takes.map {d : Decode α} (hd : Takes d n) (f : α → β) :
    Takes (do return f (← d)) n :=
  hd.bind fun v => takes_pure (f v)

/-- From an offset on, a reading of a fixed width succeeds exactly if the bytes reach that far. -/
theorem Takes.from_eq_ok {d : Decode α} (h : Takes d n) (data : Bytes) (offset : Nat) :
    (∃ v, d.from data offset = .ok v) ↔ offset + n ≤ data.length := by
  by_cases hoffset : offset ≤ data.length
  · rw [from_of_le hoffset]
    by_cases hfits : n ≤ data.length - offset
    · obtain ⟨v, c', hread, _⟩ := h.succeeds ⟨data, offset, data.drop offset, hoffset, rfl⟩ hfits
      rw [hread]
      exact iff_of_true ⟨v, rfl⟩ (by omega)
    · obtain ⟨cause, hread⟩ :=
        h.fails ⟨data, offset, data.drop offset, hoffset, rfl⟩ (Nat.lt_of_not_le hfits)
      rw [hread]
      exact iff_of_false (fun ⟨_, hv⟩ => by cases hv) (by omega)
  · rw [from_of_lt (Nat.lt_of_not_le hoffset)]
    exact iff_of_false (fun ⟨_, hv⟩ => by cases hv) (by omega)

/-- A reading procedure that moves the place by `n` bytes, wherever that many are left. -/
def Passes (d : Decode α) (n : Nat) : Prop :=
  ∀ (c : Cursor) (h : c.position + n ≤ c.data.length), ∃ v, d c = .ok (v, c.advance n h)

/-- A chain moves the place by the sum. -/
theorem Passes.bind {d : Decode α} {f : α → Decode β} (hd : Passes d n)
    (hf : ∀ v, Passes (f v) m) :
    Passes (d >>= f) (n + m) := by
  intro c h
  have hfirst : c.position + n ≤ c.data.length := by omega
  have hrest : (c.advance n hfirst).position + m ≤ (c.advance n hfirst).data.length := by
    show c.position + n + m ≤ c.data.length
    omega
  obtain ⟨v, hv⟩ := hd c hfirst
  obtain ⟨w, hw⟩ := hf v (c.advance n hfirst) hrest
  refine ⟨w, ?_⟩
  show (d c >>= fun p => f p.1 p.2) = _
  rw [hv]
  show f v (c.advance n hfirst) = _
  rw [hw]
  simp only [Cursor.advance, List.drop_drop, Nat.add_assoc]

/-- A function of the value that is read moves the place no further. -/
theorem Passes.map {d : Decode α} (hd : Passes d n) (f : α → β) : Passes (do return f (← d)) n :=
  hd.bind (m := 0) fun v _ _ => ⟨f v, rfl⟩

/-- What follows such a reading is read that many bytes further on. -/
theorem Passes.from_bind {d : Decode α} (hd : Passes d n) (f : α → Decode β) {data : Bytes}
    {offset : Nat} (h : offset + n ≤ data.length) :
    ∃ v, (d >>= f).from data offset = (f v).from data (offset + n) := by
  have hoffset : offset ≤ data.length := Nat.le_of_add_right_le h
  obtain ⟨v, hv⟩ := hd ⟨data, offset, data.drop offset, hoffset, rfl⟩ h
  refine ⟨v, ?_⟩
  rw [from_of_le hoffset, from_of_le h]
  show Prod.fst <$> (d _ >>= fun p => f p.1 p.2) = _
  rw [hv]
  show Prod.fst <$> f v _ = Prod.fst <$> f v _
  simp only [Cursor.advance, List.drop_drop]

end Decode

namespace Cursor

/-- The bytes that are left are those from the place on. -/
theorem length_rest (c : Cursor) : c.rest.length = c.remaining := by
  rw [c.rest_eq, List.length_drop]
  rfl

/-- A number that fits is read, and the place is behind it. -/
theorem word_of_fits {width : Nat} {c : Cursor} (h : c.position + width ≤ c.data.length) :
    word width c = .ok (Bytes.toNat (c.rest.take width), c.advance width h) := by
  have hlength : (c.rest.take width).length = width := by
    rw [List.length_take, length_rest, remaining]
    omega
  exact dif_pos hlength

/-- Bytes that exist can be made sure of, and the place stays. -/
theorem require_of_fits {count : Nat} {c : Cursor} (h : c.position + count ≤ c.data.length) :
    require count c = .ok ((), c) := by
  rw [require, Bytes.checkSpan, if_pos h]
  rfl

/-- Bytes that do not exist are complained of, with the end of the data and the place. -/
theorem require_of_exceeds {count : Nat} {c : Cursor} (h : c.data.length < c.position + count) :
    require count c = .error (.outOfBounds (.span c.data.length c.position count)) := by
  rw [require, Bytes.checkSpan, if_neg (Nat.not_le.2 h)]
  rfl

/-- A number that was written is read, and the place is behind it. -/
theorem word_of_ofNat (width : Nat) {n : Nat} {c : Cursor} {rest : Bytes}
    (h : n < Nat.pow 256 width) (hrest : c.rest = Bytes.ofNat width n ++ rest) :
    ∃ c', word width c = .ok (n, c') ∧ c'.rest = rest := by
  have hlength := congrArg List.length hrest
  rw [length_rest, remaining, List.length_append, Bytes.length_ofNat] at hlength
  have hle := c.position_le
  have hfits : c.position + width ≤ c.data.length := by omega
  refine ⟨c.advance width hfits, ?_, ?_⟩
  · rw [word_of_fits hfits, hrest, List.take_left' (Bytes.length_ofNat width n),
      Bytes.toNat_ofNat h]
  · show c.rest.drop width = rest
    rw [hrest, List.drop_left' (Bytes.length_ofNat width n)]

/-- What is read is bounded by the width. -/
theorem word_lt {width v : Nat} {c c' : Cursor} (h : word width c = .ok (v, c')) :
    v < Nat.pow 256 width := by
  unfold word at h
  split at h
  · rename_i hlength
    obtain ⟨rfl, _⟩ := Prod.mk.inj (Except.ok.inj h)
    have hlt := Bytes.toNat_lt (c.rest.take width)
    rwa [hlength] at hlt
  · cases h

/-- A number takes exactly as many bytes as it is wide. -/
theorem takes_word (width : Nat) : Decode.Takes (word width) width where
  succeeds c h := by
    have hle := c.position_le
    unfold remaining at h ⊢
    refine ⟨_, _, word_of_fits (by omega), ?_⟩
    show c.data.length - (c.position + width) + width = c.data.length - c.position
    omega
  fails c h := by
    have hlength : (c.rest.take width).length ≠ width := by
      rw [List.length_take, length_rest]
      omega
    exact ⟨_, dif_neg hlength⟩

/-- A number is read wherever there are enough bytes. -/
theorem passes_word (width : Nat) : Decode.Passes (word width) width :=
  fun _ h => ⟨_, word_of_fits h⟩

/-- A number of 32 bits takes four bytes. -/
theorem takes_u32 : Decode.Takes u32 4 := takes_word 4

/-- So does a floating-point number of 32 bits. -/
theorem takes_f32 : Decode.Takes f32 4 := takes_u32.map _

/-- An affine map takes 24 bytes. -/
theorem takes_affine : Decode.Takes affine 24 :=
  takes_f32.bind fun _ => takes_f32.bind fun _ => takes_f32.bind fun _ => takes_f32.bind fun _ =>
    takes_f32.bind fun _ => takes_f32.map _

end Cursor

end Metafile
