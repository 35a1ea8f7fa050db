import Metafile.Proofs.Bytes.Width

/-!
# `Metafile.Proofs.Bytes.Written`: reading what was written

`Decode.Reads d data v` says that a reading procedure that comes upon some bytes takes exactly
them, and that they stand for a value, whatever follows. What is read one after the other was
written one after the other (`Reads.bind`), so a whole record is read field by field. A procedure
may also refuse what it has taken: `Decode.Gives` is about its answer only.

`Decode.Needs d n` says that a procedure fails where fewer than `n` bytes are left.
-/

set_option autoImplicit false

namespace Metafile

namespace Bytes

/-- The `width` lowest bytes of a signed number, the least significant byte first. -/
def ofInt (width : Nat) (n : Int) : Bytes :=
  ofNat width (n % (Nat.pow 256 width : Nat)).toNat

/-- A signed number takes its width, whether it fits or not. -/
theorem length_ofInt (width : Nat) (n : Int) : (ofInt width n).length = width :=
  length_ofNat width _

/-- Values that are written in the same number of bytes take that many each. -/
theorem length_flatMap {α : Type} {write : α → Bytes} {width : Nat}
    (h : ∀ x, (write x).length = width) (xs : List α) :
    (xs.flatMap write).length = xs.length * width := by
  induction xs with
  | nil => simp
  | cons x rest ih =>
      rw [List.flatMap_cons, List.length_append, h, ih, List.length_cons, Nat.succ_mul,
        Nat.add_comm]

end Bytes

/-- A number in the range of so many bits is known from its lowest bits. -/
theorem signed_emod (bits : Nat) {n : Int} (hlow : -((Nat.pow 2 bits : Nat) / 2 : Int) ≤ n)
    (hhigh : n < ((Nat.pow 2 bits : Nat) + 1) / 2) :
    signed bits (n % (Nat.pow 2 bits : Nat)).toNat = n := by
  have hpos : (0 : Int) < (Nat.pow 2 bits : Nat) := by
    exact_mod_cast Nat.pow_pos (n := bits) (show 0 < 2 by decide)
  unfold signed
  rw [Int.toNat_of_nonneg (Int.emod_nonneg _ (Int.ne_of_gt hpos)), Int.emod_bmod]
  exact Int.bmod_eq_of_le hlow hhigh

namespace Decode

variable {α β : Type} {d : Decode α} {f : α → Decode β} {v : α} {w : β} {data data' : Bytes}

/-- A reading procedure takes some bytes to a value, whatever follows them. -/
def Reads (d : Decode α) (data : Bytes) (v : α) : Prop :=
  ∀ (c : Cursor) (rest : Bytes), c.rest = data ++ rest → ∃ c', d c = .ok (v, c') ∧ c'.rest = rest

/-- A value that is given without reading takes no bytes. -/
theorem reads_pure (v : α) : Reads (pure v) [] v :=
  fun c _ hrest => ⟨c, rfl, hrest⟩

/-- In a chain, the bytes of the second part stand behind those of the first. The second part may
depend on the value of the first. -/
theorem Reads.bind (hd : Reads d data v) (hf : Reads (f v) data' w) :
    Reads (d >>= f) (data ++ data') w := by
  intro c rest hrest
  rw [List.append_assoc] at hrest
  obtain ⟨c', hfirst, hrest'⟩ := hd c _ hrest
  obtain ⟨c'', hsecond, hrest''⟩ := hf c' rest hrest'
  refine ⟨c'', ?_, hrest''⟩
  show (d c >>= fun p => f p.1 p.2) = _
  rw [hfirst]
  exact hsecond

/-- A function of what is read takes no bytes of its own. -/
theorem Reads.map (hd : Reads d data v) (g : α → β) : Reads (do return g (← d)) data (g v) := by
  have hread := hd.bind (f := fun v => pure (g v)) (reads_pure (g v))
  rwa [List.append_nil] at hread

/-- The answer of a reading procedure that comes upon some bytes, whatever follows them. -/
def Gives (d : Decode α) (data : Bytes) (answer : Except Fault α) : Prop :=
  ∀ (c : Cursor) (rest : Bytes), c.rest = data ++ rest → (d c).map Prod.fst = answer

/-- What is read to a value is answered by that value. -/
theorem Reads.gives (h : Reads d data v) : Gives d data (.ok v) := by
  intro c rest hrest
  obtain ⟨c', hread, _⟩ := h c rest hrest
  rw [hread]
  rfl

/-- The answer of a chain is that of its last part, after the bytes that the first part takes. -/
theorem Reads.bind_gives {answer : Except Fault β} (hd : Reads d data v)
    (hf : Gives (f v) data' answer) : Gives (d >>= f) (data ++ data') answer := by
  intro c rest hrest
  rw [List.append_assoc] at hrest
  obtain ⟨c', hfirst, hrest'⟩ := hd c _ hrest
  show (d c >>= fun p => f p.1 p.2).map Prod.fst = _
  rw [hfirst]
  exact hf c' rest hrest'

/-- From an offset on, the answer is that to the bytes which stand there. -/
theorem Gives.from_eq {answer : Except Fault α} (h : Gives d data answer)
    (before rest : Bytes) : d.from (before ++ data ++ rest) before.length = answer := by
  have hle : before.length ≤ (before ++ data ++ rest).length := by simp
  have hrest : (before ++ data ++ rest).drop before.length = data ++ rest := by
    rw [List.append_assoc, List.drop_left]
  rw [from_of_le hle]
  exact h ⟨_, before.length, _, hle, rfl⟩ rest hrest

/-- At the beginning of a record the answer does not depend on what follows the bytes. -/
theorem Gives.first {answer : Except Fault α} (h : Gives d data answer) (rest : Bytes) :
    d.first (data ++ rest) = answer := by
  have hanswer := h (Cursor.start (data ++ rest)) rest rfl
  rw [← hanswer]
  unfold Decode.first
  cases d (Cursor.start (data ++ rest)) <;> rfl

/-- Where the first part of a chain fails, the chain fails with the same fault. -/
theorem Gives.error_bind {fault : Fault} (h : Gives d data (.error fault))
    (f : α → Decode β) : Gives (d >>= f) data (.error fault) := by
  intro c rest hrest
  have hanswer := h c rest hrest
  show (d c >>= fun p => f p.1 p.2).map _ = _
  cases hd : d c with
  | error fault' =>
      rw [hd] at hanswer
      rw [Except.error.inj hanswer]
      rfl
  | ok p =>
      rw [hd] at hanswer
      cases hanswer

/-- A procedure that refuses needs no bytes to do so. -/
theorem gives_throw (fault : Fault) : Gives (throw fault : Decode α) [] (.error fault) :=
  fun _ _ _ => rfl

/-! ### Failing -/

/-- A reading procedure fails where fewer than `n` bytes are left. -/
def Needs (d : Decode α) (n : Nat) : Prop :=
  ∀ c : Cursor, c.remaining < n → ∃ cause, d c = .error cause

/-- A chain needs what its first part takes and what its second part needs, whatever the value in
between. -/
theorem Takes.needs_bind {n m : Nat} (hd : Takes d n) (hf : ∀ v, Needs (f v) m) :
    Needs (d >>= f) (n + m) := by
  intro c h
  show ∃ cause, (d c >>= fun p => f p.1 p.2) = .error cause
  by_cases hfits : n ≤ c.remaining
  · obtain ⟨v, c', hfirst, hleft⟩ := hd.succeeds c hfits
    rw [hfirst]
    exact hf v c' (by omega)
  · obtain ⟨cause, hfirst⟩ := hd.fails c (by omega)
    rw [hfirst]
    exact ⟨cause, rfl⟩

/-- A procedure that always fails, or needs nothing. -/
theorem needs_zero (d : Decode α) : Needs d 0 :=
  fun _ h => absurd h (Nat.not_lt_zero _)

end Decode

namespace Cursor

open Decode (Gives Needs Reads Takes reads_pure)

variable {α : Type} {count : Nat}

/-! ### Numbers -/

/-- A number that fits its width is read back from its bytes. -/
theorem reads_word {width n : Nat} (h : n < Nat.pow 256 width) :
    Reads (word width) (Bytes.ofNat width n) n :=
  fun _ _ hrest => word_of_ofNat width h hrest

/-- A count below `2 ^ 32`, as records announce the lengths of their arrays. -/
theorem reads_count {n : Nat} (h : n < 4294967296) : Reads u32 (Bytes.ofNat 4 n) n :=
  reads_word h

/-- A byte is read as its number. -/
theorem reads_u8 (b : UInt8) : Reads u8 [b] b.toNat := by
  have hread : Reads u8 (Bytes.ofNat 1 b.toNat) b.toNat := reads_word b.toNat_lt
  have hbyte : Bytes.ofNat 1 b.toNat = [b] := by
    rw [Bytes.ofNat, Bytes.ofNat, Nat.mod_eq_of_lt b.toNat_lt, UInt8.ofNat_toNat]
  rwa [hbyte] at hread

/-- An unsigned number of 32 bits is read back from its bytes. -/
theorem reads_u32 (n : UInt32) : Reads u32 (Bytes.ofNat 4 n.toNat) n.toNat :=
  reads_count n.toNat_lt

/-- The lowest bytes of a number are in the range of their width. -/
private theorem toNat_emod_lt (n : Int) (width : Nat) :
    (n % (Nat.pow 256 width : Nat)).toNat < Nat.pow 256 width := by
  have hpos : (0 : Int) < (Nat.pow 256 width : Nat) := by
    exact_mod_cast Nat.pow_pos (n := width) (show 0 < 256 by decide)
  have hlt := Int.emod_lt_of_pos n hpos
  omega

/-- A signed number of 32 bits is read back from its bytes. Numbers out of range would come back
wrapped around. -/
theorem reads_i32 {n : Int} (h : -2147483648 ≤ n ∧ n ≤ 2147483647) :
    Reads i32 (Bytes.ofInt 4 n) n := by
  have hread := (reads_word (toNat_emod_lt n 4)).map (signed 32)
  have hsigned : signed 32 (n % (Nat.pow 256 4 : Nat)).toNat = n :=
    signed_emod 32 (by simp; omega) (by simp; omega)
  rwa [hsigned] at hread

/-- A signed number of 16 bits is read back from its bytes. -/
theorem reads_i16 {n : Int} (h : -32768 ≤ n ∧ n ≤ 32767) : Reads i16 (Bytes.ofInt 2 n) n := by
  have hread := (reads_word (toNat_emod_lt n 2)).map (signed 16)
  have hsigned : signed 16 (n % (Nat.pow 256 2 : Nat)).toNat = n :=
    signed_emod 16 (by simp; omega) (by simp; omega)
  rwa [hsigned] at hread

/-! ### Bulk reads -/

/-- Bytes that are there can be made sure of. -/
theorem require_of_rest {c : Cursor} {data rest : Bytes} (hrest : c.rest = data ++ rest)
    (hcount : count ≤ data.length) : require count c = .ok ((), c) := by
  have hlength := congrArg List.length hrest
  rw [length_rest, remaining, List.length_append] at hlength
  have hle := c.position_le
  exact require_of_fits (by omega)

/-- Asking for as many bytes as are there changes nothing about what is read. -/
theorem reads_require_bind {d : Decode α} {data : Bytes} {v : α} (h : Reads d data v)
    (hcount : count ≤ data.length) : Reads (do require count; d) data v := by
  intro c rest hrest
  show ∃ c', (require count c >>= fun p => d p.2) = _ ∧ _
  rw [require_of_rest hrest hcount]
  exact h c rest hrest

/-- Asking for as many bytes as are there changes nothing about the answer. -/
theorem gives_require_bind {d : Decode α} {data : Bytes} {answer : Except Fault α}
    (h : Gives d data answer) (hcount : count ≤ data.length) :
    Gives (do require count; d) data answer := by
  intro c rest hrest
  show (require count c >>= fun p => d p.2).map _ = _
  rw [require_of_rest hrest hcount]
  exact h c rest hrest

/-- An array is read back value by value. What is read of one value may be a function of it, so
that writing may keep more than reading gives. -/
theorem reads_many_map {α β : Type} {one : Decode β} {write : α → Bytes} {g : α → β} {xs : List α}
    (h : ∀ x ∈ xs, Reads one (write x) (g x)) :
    Reads (many xs.length one) (xs.flatMap write) (xs.map g) := by
  induction xs with
  | nil => exact reads_pure []
  | cons x rest ih =>
      obtain ⟨hfirst, hrest⟩ := List.forall_mem_cons.1 h
      exact hfirst.bind ((ih hrest).map (g x :: ·))

/-- An array is read back as it was written, if each value is. -/
theorem reads_many {one : Decode α} {write : α → Bytes} {xs : List α}
    (h : ∀ x ∈ xs, Reads one (write x) x) : Reads (many xs.length one) (xs.flatMap write) xs := by
  have hread := reads_many_map (g := id) h
  rwa [List.map_id] at hread

/-- Bytes are read as they are. -/
theorem reads_bytes (data : Bytes) : Reads (bytes data.length) data data := by
  intro c rest hrest
  have hlength := congrArg List.length hrest
  rw [length_rest, remaining, List.length_append] at hlength
  have hle := c.position_le
  have hfits : c.position + data.length ≤ c.data.length := by omega
  refine ⟨c.advance data.length hfits, ?_, ?_⟩
  · rw [bytes, dif_pos hfits, hrest, List.take_left]
  · show c.rest.drop data.length = rest
    rw [hrest, List.drop_left]

/-! ### Points -/

/-- The bytes of a point, with 16 or with 32 bits for each coordinate. -/
def pointBytes (short : Bool) (p : Point Int) : Bytes :=
  let width := if short then 2 else 4
  Bytes.ofInt width p.x ++ Bytes.ofInt width p.y

/-- A point whose coordinates have 16 bits. -/
structure FitsShort (p : Point Int) : Prop where
  x : -32768 ≤ p.x ∧ p.x ≤ 32767
  y : -32768 ≤ p.y ∧ p.y ≤ 32767

/-- Whether a point fits 16 bits a coordinate can be computed. -/
instance (p : Point Int) : Decidable (FitsShort p) :=
  decidable_of_iff ((-32768 ≤ p.x ∧ p.x ≤ 32767) ∧ -32768 ≤ p.y ∧ p.y ≤ 32767)
    ⟨fun h => ⟨h.1, h.2⟩, fun h => ⟨h.x, h.y⟩⟩

/-- A point with short coordinates is read in either width. -/
theorem reads_point (short : Bool) {p : Point Int} (h : FitsShort p) :
    Reads (point short) (pointBytes short p) p := by
  obtain ⟨hx, hy⟩ := h
  cases short with
  | true => exact (reads_i16 hx).bind ((reads_i16 hy).map fun y => (⟨p.x, y⟩ : Point Int))
  | false =>
      have hx' : -2147483648 ≤ p.x ∧ p.x ≤ 2147483647 := by omega
      have hy' : -2147483648 ≤ p.y ∧ p.y ≤ 2147483647 := by omega
      exact (reads_i32 hx').bind ((reads_i32 hy').map fun y => (⟨p.x, y⟩ : Point Int))

/-- A point takes the same number of bytes wherever it lies. -/
theorem length_pointBytes (short : Bool) (p : Point Int) :
    (pointBytes short p).length = pointWidth short := by
  unfold pointBytes
  rw [List.length_append, Bytes.length_ofInt, Bytes.length_ofInt]
  cases short <;> rfl

/-- Short points are read in either width, as long as their number has 32 bits. -/
theorem reads_points (short : Bool) {ps : List (Point Int)} (h : ∀ p ∈ ps, FitsShort p)
    (hcount : ps.length < 4294967296) :
    Reads (points ps.length short) (ps.flatMap (pointBytes short)) ps := by
  have hwidth : pointWidth short ≤ 8 := by cases short <;> decide
  have hsize : ps.length * pointWidth short ≤ ps.length * 8 := Nat.mul_le_mul_left _ hwidth
  have hspace : ¬addressSpace ≤ ps.length * pointWidth short := by
    show ¬18446744073709551616 ≤ _
    omega
  unfold points
  rw [if_neg hspace]
  exact reads_require_bind (reads_many fun p hp => reads_point short (h p hp))
    (Nat.le_of_eq (Bytes.length_flatMap (length_pointBytes short) ps).symm)

/-! ### Bulk reads that do not fit -/

/-- An array takes one width for each value. -/
theorem takes_many {one : Decode α} {width : Nat} (h : Takes one width) (count : Nat) :
    Takes (many count one) (count * width) := by
  induction count with
  | zero => exact (Nat.zero_mul width).symm ▸ Decode.takes_pure []
  | succ count ih =>
      rw [Nat.succ_mul, Nat.add_comm (count * width)]
      exact h.bind fun first => ih.map (first :: ·)

/-- Asking first for the bytes that are taken then takes no more of them. -/
theorem takes_require_bind {d : Decode α} {width : Nat} (h : Takes d width) :
    Takes (do require width; d) width where
  succeeds c hfits := by
    have hle := c.position_le
    have hrequire : require width c = .ok ((), c) := require_of_fits (by
      unfold remaining at hfits
      omega)
    show ∃ v c', (require width c >>= fun p => d p.2) = _ ∧ _
    rw [hrequire]
    exact h.succeeds c hfits
  fails c hshort := by
    have hrequire : require width c = _ := require_of_exceeds (by
      unfold remaining at hshort
      omega)
    show ∃ cause, (require width c >>= fun p => d p.2) = _
    rw [hrequire]
    exact ⟨_, rfl⟩

/-- Bytes are taken one by one. -/
theorem takes_bytes (count : Nat) : Takes (bytes count) count where
  succeeds c hfits := by
    have hle := c.position_le
    unfold remaining at hfits ⊢
    refine ⟨_, _, dif_pos (by omega), ?_⟩
    show c.data.length - (c.position + count) + count = _
    omega
  fails c hshort := by
    have hle := c.position_le
    unfold remaining at hshort
    exact ⟨_, dif_neg (by omega)⟩

/-- A point takes two numbers of its width. -/
theorem takes_point (short : Bool) : Takes (point short) (pointWidth short) := by
  cases short with
  | true => exact ((takes_word 2).map _).bind fun _ => ((takes_word 2).map _).map _
  | false => exact ((takes_word 4).map _).bind fun _ => ((takes_word 4).map _).map _

/-- What needs so many bytes still needs them if it asks for others first. -/
theorem needs_require_bind {d : Decode α} {needed : Nat} (h : Needs d needed) :
    Needs (do require count; d) needed := by
  intro c hshort
  show ∃ cause, (require count c >>= fun p => d p.2) = _
  unfold require Bytes.checkSpan
  split
  · exact h c hshort
  · exact ⟨_, rfl⟩

/-- Points and what is read behind them need the bytes of all of them. -/
theorem needs_points_bind {f : List (Point Int) → Decode α} {behind : Nat} (short : Bool)
    (hf : ∀ ps, Needs (f ps) behind) :
    Needs (points count short >>= f) (count * pointWidth short + behind) := by
  by_cases hspace : addressSpace ≤ count * pointWidth short
  · intro c _
    have hthrown : points count short c = .error (.outOfBounds .pointCount) := by
      unfold points
      rw [if_pos hspace]
      rfl
    show ∃ cause, (points count short c >>= fun p => f p.1 p.2) = _
    rw [hthrown]
    exact ⟨_, rfl⟩
  · have htakes : Takes (points count short) (count * pointWidth short) := by
      unfold points
      rw [if_neg hspace]
      exact takes_require_bind (takes_many (takes_point short) count)
    exact htakes.needs_bind hf

/-- An array of points needs them all, before the first of them is read. -/
theorem needs_points (short : Bool) : Needs (points count short) (count * pointWidth short) := by
  have hneeds : Needs (points count short >>= pure) (count * pointWidth short + 0) :=
    needs_points_bind short fun ps => Decode.needs_zero (pure ps)
  rwa [bind_pure, Nat.add_zero] at hneeds

/-- What is left and what was taken add up to what was left before. -/
theorem remaining_advance (c : Cursor) (n : Nat) (h : c.position + n ≤ c.data.length) :
    (c.advance n h).remaining + n = c.remaining := by
  unfold remaining advance
  dsimp only
  omega

/-- What follows a number fails, or the number itself is missing. -/
theorem u32_bind_fails {f : Nat → Decode α} {c : Cursor}
    (h : ∀ hroom : c.position + 4 ≤ c.data.length,
      ∃ cause, f (Bytes.toNat (c.rest.take 4)) (c.advance 4 hroom) = .error cause) :
    ∃ cause, (u32 >>= f) c = .error cause := by
  show ∃ cause, (u32 c >>= fun p => f p.1 p.2) = _
  by_cases hroom : c.position + 4 ≤ c.data.length
  · rw [u32, word_of_fits hroom]
    exact h hroom
  · obtain ⟨cause, hread⟩ := takes_u32.fails c (by unfold remaining; omega)
    rw [hread]
    exact ⟨cause, rfl⟩

end Cursor

end Metafile
