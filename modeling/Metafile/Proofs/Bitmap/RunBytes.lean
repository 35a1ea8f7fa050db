import Metafile.Bitmap.Runs

/-!
# `Metafile.Proofs.Bitmap.RunBytes`: the commands of run-length data in bytes

`Writes` says which bytes stand for a command, and `WritesAll` which bytes stand for several ones.
Some bytes are free: the one that pads given pixels to an even number of bytes, and half of a byte
that holds only one pixel.

Every list of commands in range can be written (`exists_writesAll`). A command that was written is
read, whatever follows (`next_of_writes`). Conversely `begins_next` says what data begins with, by
what is read from it: a command that was written, one that is `CutShort`, or less than two bytes.
-/

set_option autoImplicit false

namespace Metafile.Bitmap.Runs

/-! ### Commands in bytes -/

/-- A value that a pixel can have. In the form for 4 bits it is a half of a byte. -/
def Form.Allows (form : Form) (v : UInt8) : Prop := form = .four → v < 16

/-- Bytes hold pixels, two to a byte. The lower half of a byte with one pixel has no meaning. -/
def Pairs : List UInt8 → Bytes → Prop
  | [], [] => True
  | [p], [b] => p = upper b
  | p :: q :: pixels, b :: bytes => p = upper b ∧ q = lower b ∧ Pairs pixels bytes
  | _, _ => False

/-- Bytes hold the pixels that are given one by one. -/
def Form.Packs : Form → List UInt8 → Bytes → Prop
  | .eight, pixels, bytes => bytes = pixels
  | .four, pixels, bytes => Pairs pixels bytes

/-- Bytes that stand for a command. Given pixels are padded by any byte to an even number. -/
inductive Writes (form : Form) : Command → Bytes → Prop
  | run {count : Nat} (value : UInt8) (hpos : 1 ≤ count) (hle : count ≤ 255) :
      Writes form (.run count value) [UInt8.ofNat count, value]
  | absolute {pixels : List UInt8} {packed pad : Bytes} (hpos : 3 ≤ pixels.length)
      (hle : pixels.length ≤ 255) (hpacks : form.Packs pixels packed)
      (hpad : pad.length = packed.length % 2) :
      Writes form (.absolute pixels) (0 :: UInt8.ofNat pixels.length :: (packed ++ pad))
  | endOfLine : Writes form .endOfLine [0, 0]
  | endOfBitmap : Writes form .endOfBitmap [0, 1]
  | delta {dx dy : Nat} (hx : dx ≤ 255) (hy : dy ≤ 255) :
      Writes form (.delta dx dy) [0, 2, UInt8.ofNat dx, UInt8.ofNat dy]

/-- Bytes that stand for commands, one after the other. -/
inductive WritesAll (form : Form) : List Command → Bytes → Prop
  | nil : WritesAll form [] []
  | cons {c : Command} {commands : List Command} {written data : Bytes}
      (h : Writes form c written)
      (hrest : WritesAll form commands data) : WritesAll form (c :: commands) (written ++ data)

/-- Bytes that begin with a jump or with given pixels, and end before these do. -/
inductive CutShort (form : Form) : Bytes → Prop
  | delta {rest : Bytes} (h : rest.length < 2) : CutShort form (0 :: 2 :: rest)
  | absolute {count : UInt8} {rest : Bytes} (hpos : 3 ≤ count.toNat)
      (h : rest.length < form.absoluteBytes count.toNat) : CutShort form (0 :: count :: rest)

variable {form : Form} {c : Command} {data rest written : Bytes}

/-! ### Reading commands -/

/-- The pixels that bytes hold are taken out of them again. -/
theorem unpack_of_pairs {pixels : List UInt8} {bytes : Bytes} (h : Pairs pixels bytes) :
    bytes.length = (pixels.length + 1) / 2 ∧
      Form.unpack .four pixels.length bytes = pixels := by
  unfold Form.unpack
  fun_induction Pairs pixels bytes with
  | case1 => exact ⟨rfl, rfl⟩
  | case2 p b =>
      obtain rfl := h
      exact ⟨by simp, rfl⟩
  | case3 p q pixels b bytes ih =>
      obtain ⟨rfl, rfl, h⟩ := h
      obtain ⟨hlength, hunpack⟩ := ih h
      refine ⟨by simp only [List.length_cons, hlength]; omega, ?_⟩
      simp only [List.length_cons, List.flatMap_cons, List.cons_append, List.nil_append,
        List.take_succ_cons, hunpack]
  | case4 => exact h.elim

/-- In both forms the pixels that bytes hold are taken out of them again, and the number of bytes
is known from that of the pixels. -/
theorem unpack_of_packs {pixels : List UInt8} {bytes : Bytes} (h : form.Packs pixels bytes) :
    bytes.length = form.absoluteBytes pixels.length ∧
      form.unpack pixels.length bytes = pixels := by
  cases form with
  | eight =>
      obtain rfl := h
      exact ⟨rfl, List.take_length⟩
  | four => exact unpack_of_pairs h

/-- Bytes hold the pixels that are taken out of them. -/
theorem pairs_unpack {count : Nat} {bytes : Bytes} (h : bytes.length = (count + 1) / 2) :
    Pairs (Form.unpack .four count bytes) bytes ∧
      (Form.unpack .four count bytes).length = count := by
  unfold Form.unpack
  induction bytes generalizing count with
  | nil =>
      obtain rfl : count = 0 := by simp only [List.length_nil] at h; omega
      exact ⟨trivial, rfl⟩
  | cons b bytes ih =>
      rw [List.length_cons] at h
      match count, h with
      | 1, h =>
          obtain rfl : bytes = [] := List.length_eq_zero_iff.1 (by omega)
          exact ⟨rfl, rfl⟩
      | count + 2, h =>
          obtain ⟨hpairs, hlength⟩ := @ih count (by omega)
          exact ⟨⟨rfl, rfl, hpairs⟩, congrArg (· + 2) hlength⟩

/-- In both forms bytes hold the pixels that are taken out of them, if there are enough bytes. -/
theorem packs_unpack {count : Nat} {bytes : Bytes} (h : bytes.length = form.absoluteBytes count) :
    form.Packs (form.unpack count bytes) bytes ∧ (form.unpack count bytes).length = count := by
  cases form with
  | eight =>
      have hall : bytes.take count = bytes := List.take_of_length_le (Nat.le_of_eq h)
      exact ⟨hall.symm, (congrArg List.length hall).trans h⟩
  | four => exact pairs_unpack h

/-- A first byte other than zero is the length of a run. -/
theorem next_run {count : UInt8} (value : UInt8) (h : count ≠ 0) :
    next form (count :: value :: rest) = .command (.run count.toNat value) rest :=
  if_pos h

/-- After a zero, a number from three on announces given pixels. They are padded to an even number
of bytes. -/
theorem next_absolute {count : UInt8} (h : 3 ≤ count.toNat) :
    next form (0 :: count :: rest) =
      if rest.length < form.absoluteBytes count.toNat then .truncated
      else
        .command
          (.absolute (form.unpack count.toNat (rest.take (form.absoluteBytes count.toNat))))
          (rest.drop (form.absoluteBytes count.toNat + form.absoluteBytes count.toNat % 2)) := by
  have hne (b : UInt8) (hb : b.toNat < 3) : count ≠ b := by
    rintro rfl
    exact absurd h (Nat.not_le_of_lt hb)
  simp only [next, ne_eq, not_true_eq_false, if_false, hne 0 (by decide), hne 1 (by decide),
    hne 2 (by decide)]

/-- A number below 256 is kept in a byte. -/
theorem toNat_ofNat {n : Nat} (h : n ≤ 255) : (UInt8.ofNat n).toNat = n :=
  UInt8.toNat_ofNat_of_lt (Nat.lt_succ_of_le h)

/-- The upper half of a byte is a value of a pixel. -/
theorem upper_lt (b : UInt8) : upper b < 16 := by
  have hb := b.toNat_lt
  rw [UInt8.lt_iff_toNat_lt, upper, UInt8.toNat_div]
  show b.toNat / 16 < 16
  omega

/-- The lower half of a byte is a value of a pixel. -/
theorem lower_lt (b : UInt8) : lower b < 16 := by
  rw [UInt8.lt_iff_toNat_lt, lower, UInt8.toNat_mod]
  exact Nat.mod_lt _ (by decide)

/-- A command that was written is read. -/
theorem next_of_writes (h : Writes form c written) (rest : Bytes) :
    next form (written ++ rest) = .command c rest := by
  cases h with
  | @run count value hpos hle =>
      have hcount := toNat_ofNat hle
      have hne : UInt8.ofNat count ≠ 0 := fun hzero => by
        rw [hzero] at hcount
        exact absurd hcount (Nat.ne_of_lt hpos)
      show next form (UInt8.ofNat count :: value :: rest) = _
      rw [next_run value hne, hcount]
  | @absolute pixels packed pad hpos hle hpacks hpad =>
      obtain ⟨hlength, hunpack⟩ := unpack_of_packs hpacks
      have hcount := toNat_ofNat hle
      -- what is taken is as long as the packed pixels, and what is dropped is the padding as well
      show next form (0 :: UInt8.ofNat pixels.length :: (packed ++ pad ++ rest)) = _
      rw [next_absolute (hcount.symm ▸ hpos), hcount, ← hlength, ← hpad, List.append_assoc,
        if_neg (by simp only [List.length_append]; omega), List.take_left, hunpack,
        ← List.length_append, ← List.append_assoc, List.drop_left]
  | endOfLine => rfl
  | endOfBitmap => rfl
  | @delta dx dy hx hy =>
      show Next.command (.delta (UInt8.ofNat dx).toNat (UInt8.ofNat dy).toNat) rest = _
      rw [toNat_ofNat hx, toNat_ofNat hy]

/-- The bytes of given pixels were written, if all of them are there. -/
theorem writes_absolute {count : UInt8} (hpos : 3 ≤ count.toNat)
    (h : form.absoluteBytes count.toNat + form.absoluteBytes count.toNat % 2 ≤ rest.length) :
    Writes form
      (.absolute (form.unpack count.toNat (rest.take (form.absoluteBytes count.toNat))))
      (0 :: count ::
        rest.take (form.absoluteBytes count.toNat + form.absoluteBytes count.toNat % 2)) := by
  have hbytes : (rest.take (form.absoluteBytes count.toNat)).length =
      form.absoluteBytes count.toNat := List.length_take_of_le (Nat.le_of_add_right_le h)
  obtain ⟨hpacks, hlength⟩ := packs_unpack hbytes
  have hpad : ((rest.drop (form.absoluteBytes count.toNat)).take
      (form.absoluteBytes count.toNat % 2)).length =
        (rest.take (form.absoluteBytes count.toNat)).length % 2 := by
    rw [List.length_take, List.length_drop, hbytes]
    omega
  have hwrites := Writes.absolute (hlength.symm ▸ hpos)
    (hlength.symm ▸ Nat.le_of_lt_succ count.toNat_lt) hpacks hpad
  rwa [hlength, UInt8.ofNat_toNat, ← List.take_add] at hwrites

/-- The pixels that a command draws. -/
def Command.pixels (form : Form) : Command → List UInt8
  | .run count value => form.runPixels count value
  | .absolute pixels => pixels
  | _ => []

/-- The pixels of a run have values that a pixel can have. -/
theorem allows_of_mem_runPixels {count : Nat} {value v : UInt8}
    (h : v ∈ form.runPixels count value) : form.Allows v := by
  rintro rfl
  obtain ⟨i, _, rfl⟩ := List.mem_map.1 h
  split
  · exact upper_lt value
  · exact lower_lt value

/-- So have the pixels that are taken out of bytes. -/
theorem allows_of_mem_unpack {count : Nat} {bytes : Bytes} {v : UInt8}
    (h : v ∈ form.unpack count bytes) : form.Allows v := by
  rintro rfl
  obtain ⟨b, _, hb⟩ := List.mem_flatMap.1 (List.mem_of_mem_take h)
  rcases List.mem_cons.1 hb with rfl | hb
  · exact upper_lt b
  · rw [List.mem_singleton.1 hb]
    exact lower_lt b

/-- What data begins with, by what is read. A command that is read was written, unless the byte
after its pixels is missing, which can only be at the end. -/
inductive Begins (form : Form) : Bytes → Next → Prop
  | exhausted {data : Bytes} (h : data.length < 2) : Begins form data .exhausted
  | truncated {data : Bytes} (h : CutShort form data) : Begins form data .truncated
  | command {c : Command} {data rest : Bytes}
      (hwrites : rest ≠ [] → ∃ written, Writes form c written ∧ data = written ++ rest)
      (hallows : ∀ v ∈ c.pixels form, form.Allows v) : Begins form data (.command c rest)

/-- What is read is what data begins with. -/
theorem begins_next (form : Form) (data : Bytes) : Begins form data (next form data) := by
  match data with
  | [] => exact .exhausted (by decide)
  | [_] => exact .exhausted (Nat.lt_succ_self 1)
  | a :: b :: rest =>
      by_cases hcount : a ≠ 0
      · have hpos : 1 ≤ a.toNat :=
          Nat.one_le_iff_ne_zero.2 fun hzero => hcount (UInt8.toNat_inj.1 hzero)
        have hwrites := @Writes.run form _ b hpos (Nat.le_of_lt_succ a.toNat_lt)
        rw [next_run b hcount]
        rw [UInt8.ofNat_toNat] at hwrites
        exact .command (fun _ => ⟨_, hwrites, rfl⟩) fun _ => allows_of_mem_runPixels
      obtain rfl := Decidable.not_not.1 hcount
      by_cases h0 : b = 0
      · subst h0
        exact .command (fun _ => ⟨_, .endOfLine, rfl⟩) nofun
      by_cases h1 : b = 1
      · subst h1
        exact .command (fun _ => ⟨_, .endOfBitmap, rfl⟩) nofun
      by_cases h2 : b = 2
      · subst h2
        match rest with
        | [] => exact .truncated (.delta (by decide))
        | [_] => exact .truncated (.delta (Nat.lt_succ_self 1))
        | dx :: dy :: rest =>
            have hwrites := @Writes.delta form _ _ (Nat.le_of_lt_succ dx.toNat_lt)
              (Nat.le_of_lt_succ dy.toNat_lt)
            rw [UInt8.ofNat_toNat, UInt8.ofNat_toNat] at hwrites
            exact .command (fun _ => ⟨_, hwrites, rfl⟩) nofun
      -- the other values are numbers of given pixels
      have hmany : 3 ≤ b.toNat := by
        rw [← UInt8.toNat_inj] at h0 h1 h2
        simp only [UInt8.reduceToNat] at h0 h1 h2
        omega
      rw [next_absolute hmany]
      split
      · exact .truncated (.absolute hmany ‹_›)
      · -- the padding is there because something follows it
        refine .command (fun hrest => ?_) fun _ => allows_of_mem_unpack
        have hleft := List.length_pos_iff.2 hrest
        rw [List.length_drop] at hleft
        exact ⟨_, writes_absolute hmany (Nat.le_of_lt (Nat.lt_of_sub_pos hleft)),
          congrArg (0 :: b :: ·) (List.take_append_drop _ rest).symm⟩

/-- A command that is read was written at the beginning, if something follows it. At the end the
padding may be absent. -/
theorem writes_of_next (h : next form data = .command c rest) (hrest : rest ≠ []) :
    ∃ written, Writes form c written ∧ data = written ++ rest := by
  cases h ▸ begins_next form data with
  | command hwrites _ => exact hwrites hrest

/-- The pixels of a command that is read have values that a pixel can have. -/
theorem allows_of_next (h : next form data = .command c rest) :
    ∀ v ∈ c.pixels form, form.Allows v := by
  cases h ▸ begins_next form data with
  | command _ hallows => exact hallows

/-- What is cut short is a jump or given pixels. -/
theorem next_eq_truncated_iff : next form data = .truncated ↔ CutShort form data := by
  constructor
  · intro h
    cases h ▸ begins_next form data with
    | truncated hcut => exact hcut
  · intro h
    cases h with
    | @delta rest hshort =>
        match rest, hshort with
        | [], _ => rfl
        | [_], _ => rfl
    | absolute hpos hshort => rw [next_absolute hpos, if_pos hshort]

/-! ### Commands that can be written -/

/-- A command has no more pixels and goes no further than its bytes can say. -/
def Command.InRange (form : Form) : Command → Prop
  | .run count _ => 1 ≤ count ∧ count ≤ 255
  | .absolute pixels => (3 ≤ pixels.length ∧ pixels.length ≤ 255) ∧ ∀ v ∈ pixels, form.Allows v
  | .delta dx dy => dx ≤ 255 ∧ dy ≤ 255
  | .endOfLine | .endOfBitmap => True

/-- Two halves make a byte. -/
theorem exists_halves {p q : UInt8} (hp : p < 16) (hq : q < 16) :
    ∃ b, p = upper b ∧ q = lower b := by
  rw [UInt8.lt_iff_toNat_lt] at hp hq
  simp only [UInt8.reduceToNat] at hp hq
  refine ⟨16 * p + q, ?_, ?_⟩ <;> rw [← UInt8.toNat_inj] <;>
    simp only [upper, lower, UInt8.toNat_div, UInt8.toNat_mod, UInt8.toNat_add, UInt8.toNat_mul,
      UInt8.reduceToNat] <;> omega

/-- Values that fit into halves of bytes can be put into bytes, two to each. -/
theorem exists_pairs :
    ∀ {pixels : List UInt8}, (∀ v ∈ pixels, v < 16) → ∃ bytes, Pairs pixels bytes
  | [], _ => ⟨[], trivial⟩
  | [p], h => by
      obtain ⟨b, hp, _⟩ := exists_halves (h p List.mem_cons_self) (h p List.mem_cons_self)
      exact ⟨[b], hp⟩
  | p :: q :: pixels, h => by
      obtain ⟨hp, hq, hrest⟩ : p < 16 ∧ q < 16 ∧ ∀ v ∈ pixels, v < 16 := by simpa using h
      obtain ⟨b, hb⟩ := exists_halves hp hq
      obtain ⟨bytes, hbytes⟩ := exists_pairs hrest
      exact ⟨b :: bytes, hb.1, hb.2, hbytes⟩

/-- Every command in range can be written. -/
theorem exists_writes (h : c.InRange form) : ∃ written, Writes form c written := by
  cases c with
  | run count value => exact ⟨_, .run value h.1 h.2⟩
  | absolute pixels =>
      obtain ⟨packed, hpacks⟩ : ∃ packed, form.Packs pixels packed := by
        cases form with
        | eight => exact ⟨pixels, rfl⟩
        | four => exact exists_pairs fun v hv => h.2 v hv rfl
      exact ⟨_, .absolute h.1.1 h.1.2 hpacks (List.length_replicate (a := (0 : UInt8)))⟩
  | endOfLine => exact ⟨_, .endOfLine⟩
  | endOfBitmap => exact ⟨_, .endOfBitmap⟩
  | delta dx dy => exact ⟨_, .delta h.1 h.2⟩

/-- Every list of commands in range can be written. -/
theorem exists_writesAll {commands : List Command} (h : ∀ c ∈ commands, c.InRange form) :
    ∃ data, WritesAll form commands data := by
  induction commands with
  | nil => exact ⟨_, .nil⟩
  | cons c commands ih =>
      obtain ⟨written, hwritten⟩ := exists_writes (h c List.mem_cons_self)
      obtain ⟨data, hdata⟩ := ih fun d hd => h d (List.mem_cons_of_mem c hd)
      exact ⟨_, .cons hwritten hdata⟩

end Metafile.Bitmap.Runs
