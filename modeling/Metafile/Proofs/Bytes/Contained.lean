import Metafile.Proofs.Bytes.Written
import Metafile.Proofs.Record.Reading

/-!
# `Metafile.Proofs.Bytes.Contained`: readings that stay inside their span

No read leaves its span, so a reading procedure as a whole should know nothing but the bytes that
it takes. `Decode.Contained` makes this precise. What such a procedure gives depends on the bytes
taken and not on those behind them, it needs all of them, and where it complains of a span, this
span is indeed cut off by the end of the data. Chains of such procedures are such procedures
(`Contained.bind`).

How many bytes a procedure takes may depend on what it reads. `Decode.Costs d n` says that it
takes `n` of them at least, so it fails where fewer are left (`Costs.needs`), and
`Decode.Spends d n` that it takes `n` of them at most.
-/

set_option autoImplicit false

namespace Metafile

namespace Decode

variable {α β : Type} {d : Decode α} {f : α → Decode β} {v : α} {data data' : Bytes} {n m : Nat}

/-! ### Failing on given bytes -/

/-- A reading procedure fails where exactly these bytes are left. -/
def FailsOn (d : Decode α) (data : Bytes) : Prop :=
  ∀ c : Cursor, c.rest = data → ∃ cause, d c = .error cause

/-- A chain fails on bytes on which its first part does. -/
theorem FailsOn.bind (h : FailsOn d data) (f : α → Decode β) : FailsOn (d >>= f) data := by
  intro c hrest
  obtain ⟨cause, hcause⟩ := h c hrest
  show ∃ cause, (d c >>= fun p => f p.1 p.2) = .error cause
  rw [hcause]
  exact ⟨cause, rfl⟩

/-- A chain fails where its second part does, after the bytes that the first part takes. -/
theorem Reads.failsOn_bind (hd : Reads d data v) (hf : FailsOn (f v) data') :
    FailsOn (d >>= f) (data ++ data') := by
  intro c hrest
  obtain ⟨c', hread, hrest'⟩ := hd c data' hrest
  show ∃ cause, (d c >>= fun p => f p.1 p.2) = .error cause
  rw [hread]
  exact hf c' hrest'

/-- A procedure fails on bytes that are fewer than it needs. -/
theorem Needs.failsOn (h : Needs d n) (hshort : data.length < n) : FailsOn d data := by
  intro c hrest
  refine h c ?_
  rw [← Cursor.length_rest, hrest]
  exact hshort

/-- What fails on some bytes fails on them as a whole record. -/
theorem FailsOn.first (h : FailsOn d data) : ∃ cause, d.first data = .error cause := by
  obtain ⟨cause, hcause⟩ := h (Cursor.start data) rfl
  refine ⟨cause, ?_⟩
  unfold Decode.first
  rw [hcause]
  rfl

/-- What was written at the beginning is read, whatever follows. -/
theorem Reads.first (h : Reads d data v) (rest : Bytes) : d.first (data ++ rest) = .ok v := by
  obtain ⟨c', hread, _⟩ := h (Cursor.start (data ++ rest)) rest rfl
  unfold Decode.first
  rw [hread]
  rfl

/-! ### The least number of bytes -/

/-- Whatever a reading procedure gives, it takes `n` bytes or more for it. -/
def Costs (d : Decode α) (n : Nat) : Prop :=
  ∀ (c : Cursor) (v : α) (c' : Cursor), d c = .ok (v, c') → c'.remaining + n ≤ c.remaining

/-- A value that is given without reading costs nothing. -/
theorem costs_pure (v : α) : Costs (pure v) 0 := by
  intro c w c' h
  obtain ⟨_, rfl⟩ := Prod.mk.inj (Except.ok.inj h)
  exact Nat.le_refl _

/-- A procedure that always fails costs whatever one likes. -/
theorem costs_throw (fault : Fault) : Costs (throw fault : Decode α) n :=
  fun _ _ _ h => nomatch h

/-- The costs of a chain add up. -/
theorem Costs.bind (hd : Costs d n) (hf : ∀ v, Costs (f v) m) : Costs (d >>= f) (n + m) := by
  intro c w c' h
  obtain ⟨v, c₁, hfirst, hsecond⟩ := bind_eq_ok h
  have hn := hd c v c₁ hfirst
  have hm := hf v c₁ w c' hsecond
  omega

/-- A function of what is read costs nothing on top. -/
theorem Costs.map (hd : Costs d n) (g : α → β) : Costs (do return g (← d)) n :=
  hd.bind fun v => costs_pure (g v)

/-- A bound from below may be lowered. -/
theorem Costs.weaken (h : Costs d n) (hle : m ≤ n) : Costs d m := by
  intro c v c' hread
  have hn := h c v c' hread
  omega

/-- What costs so many bytes fails where fewer are left. -/
theorem Costs.needs (h : Costs d n) : Needs d n := by
  intro c hshort
  cases hread : d c with
  | error cause => exact ⟨cause, rfl⟩
  | ok p =>
      have hn := h c p.1 p.2 hread
      omega

/-- A procedure that takes a fixed number of bytes costs that number. -/
theorem Takes.costs (h : Takes d n) : Costs d n := by
  intro c v c' hread
  by_cases hfits : n ≤ c.remaining
  · -- a reading gives one answer only
    obtain ⟨w, c₁, hread', hleft⟩ := h.succeeds c hfits
    obtain ⟨_, rfl⟩ := Prod.mk.inj (Except.ok.inj (hread.symm.trans hread'))
    exact Nat.le_of_eq hleft
  · obtain ⟨cause, hcause⟩ := h.fails c (by omega)
    cases hread.symm.trans hcause

/-! ### The greatest number of bytes -/

/-- Whatever a reading procedure gives, it takes `n` bytes for it or fewer. -/
def Spends (d : Decode α) (n : Nat) : Prop :=
  ∀ (c : Cursor) (v : α) (c' : Cursor), d c = .ok (v, c') → c.remaining ≤ c'.remaining + n

/-- A value that is given without reading spends nothing. -/
theorem spends_pure (v : α) : Spends (pure v) 0 := by
  intro c w c' h
  obtain ⟨_, rfl⟩ := Prod.mk.inj (Except.ok.inj h)
  exact Nat.le_refl _

/-- A procedure that always fails spends nothing, so any bound will do. -/
theorem spends_throw (fault : Fault) : Spends (throw fault : Decode α) n :=
  fun _ _ _ h => nomatch h

/-- The bounds of a chain add up. -/
theorem Spends.bind (hd : Spends d n) (hf : ∀ v, Spends (f v) m) : Spends (d >>= f) (n + m) := by
  intro c w c' h
  obtain ⟨v, c₁, hfirst, hsecond⟩ := bind_eq_ok h
  have hn := hd c v c₁ hfirst
  have hm := hf v c₁ w c' hsecond
  omega

/-- A function of what is read spends nothing on top. -/
theorem Spends.map (hd : Spends d n) (g : α → β) : Spends (do return g (← d)) n :=
  hd.bind fun v => spends_pure (g v)

/-- A bound from above may be raised. -/
theorem Spends.weaken (h : Spends d n) (hle : n ≤ m) : Spends d m := by
  intro c v c' hread
  have hn := h c v c' hread
  omega

/-- A procedure that takes a fixed number of bytes spends that number. -/
theorem Takes.spends (h : Takes d n) : Spends d n := by
  intro c v c' hread
  by_cases hfits : n ≤ c.remaining
  · obtain ⟨w, c₁, hread', hleft⟩ := h.succeeds c hfits
    obtain ⟨_, rfl⟩ := Prod.mk.inj (Except.ok.inj (hread.symm.trans hread'))
    exact Nat.le_of_eq hleft.symm
  · obtain ⟨cause, hcause⟩ := h.fails c (by omega)
    cases hread.symm.trans hcause

/-! ### Staying inside -/

/-- A reading procedure that stays inside its span. -/
structure Contained (d : Decode α) : Prop where
  /-- It gives what the bytes say that it takes, and all of them are needed. -/
  takes : ∀ {c c' : Cursor} {v : α}, d c = .ok (v, c') → c'.data = c.data ∧
    ∃ taken, c.rest = taken ++ c'.rest ∧ Reads d taken v ∧
      ∀ n < taken.length, FailsOn d (taken.take n)
  /-- A span that it complains of begins inside the data and ends outside. -/
  exceeds : ∀ {c : Cursor} {size offset length : Nat},
    d c = .error (.outOfBounds (.span size offset length)) →
      size = c.data.length ∧ offset ≤ size ∧ size < offset + length

/-- A value that is given without reading depends on no bytes at all. -/
theorem contained_pure (v : α) : Contained (pure v) where
  takes h := by
    obtain ⟨rfl, rfl⟩ := Prod.mk.inj (Except.ok.inj h)
    exact ⟨rfl, [], rfl, reads_pure v, fun n hn => absurd hn (Nat.not_lt_zero n)⟩
  exceeds h := nomatch h

/-- A procedure may always fail, as long as it does not complain of a span. -/
theorem contained_throw (fault : Fault)
    (hcause : ∀ size offset length, fault ≠ .outOfBounds (.span size offset length)) :
    Contained (throw fault : Decode α) where
  takes h := nomatch h
  exceeds h := absurd (Except.error.inj h) (hcause _ _ _)

/-- A chain of contained readings is contained. The bytes of the chain are those of its parts, and
a fault of the second part is one of the chain, behind the bytes of the first. -/
theorem Contained.bind (hd : Contained d) (hf : ∀ v, Contained (f v)) : Contained (d >>= f) where
  takes h := by
    obtain ⟨v, c₁, hfirst, hsecond⟩ := bind_eq_ok h
    obtain ⟨hdata, taken, hrest, hreads, hfails⟩ := hd.takes hfirst
    obtain ⟨hdata', taken', hrest', hreads', hfails'⟩ := (hf v).takes hsecond
    refine ⟨hdata'.trans hdata, taken ++ taken', ?_, hreads.bind hreads', fun n hn => ?_⟩
    · rw [hrest, hrest', List.append_assoc]
    · rw [List.length_append] at hn
      -- the bytes end inside what the first part takes, or inside what the second part takes
      by_cases hshort : n < taken.length
      · rw [List.take_append_of_le_length (Nat.le_of_lt hshort)]
        exact (hfails n hshort).bind f
      · rw [List.take_append, List.take_of_length_le (Nat.le_of_not_lt hshort)]
        exact hreads.failsOn_bind (hfails' _ (by omega))
  exceeds {c size offset length} h := by
    change (d c >>= fun p => f p.1 p.2) = .error (.outOfBounds (.span size offset length)) at h
    cases hread : d c with
    | error cause =>
        rw [hread] at h
        obtain rfl := Except.error.inj h
        exact hd.exceeds hread
    | ok p =>
        rw [hread] at h
        rw [← (hd.takes hread).1]
        exact (hf p.1).exceeds h

/-- A function of what is read depends on the same bytes. -/
theorem Contained.map (hd : Contained d) (g : α → β) : Contained (do return g (← d)) :=
  hd.bind fun v => contained_pure (g v)

/-- A procedure that takes a fixed number of bytes and gives a function of them. If they are not
there, it complains of the span that it wanted, or of a number that is cut short. -/
theorem contained_of_fits (value : Bytes → α)
    (hfits : ∀ (c : Cursor) (h : c.position + n ≤ c.data.length),
      d c = .ok (value (c.rest.take n), c.advance n h))
    (hshort : ∀ c : Cursor, c.data.length < c.position + n →
      d c = .error (.outOfBounds .shortRead) ∨
        d c = .error (.outOfBounds (.span c.data.length c.position n))) :
    Contained d where
  takes {c c' v} h := by
    by_cases hle : c.position + n ≤ c.data.length
    · obtain ⟨rfl, rfl⟩ := Prod.mk.inj (Except.ok.inj ((hfits c hle).symm.trans h))
      have hlength : (c.rest.take n).length = n := by
        rw [List.length_take, Cursor.length_rest, Cursor.remaining]
        omega
      refine ⟨rfl, c.rest.take n, (List.take_append_drop n c.rest).symm, ?_, ?_⟩
      · -- the same bytes in front of any others
        intro c₁ rest hrest
        have hroom := congrArg List.length hrest
        rw [Cursor.length_rest, Cursor.remaining, List.length_append, hlength] at hroom
        have hplace := c₁.position_le
        refine ⟨c₁.advance n (by omega), ?_, ?_⟩
        · rw [hfits c₁ (by omega), hrest, List.take_left' hlength]
        · show c₁.rest.drop n = rest
          rw [hrest, List.drop_left' hlength]
      · -- too few of them
        intro k hk c₁ hrest
        have hroom := congrArg List.length hrest
        rw [Cursor.length_rest, Cursor.remaining, List.length_take] at hroom
        rcases hshort c₁ (by omega) with hcause | hcause <;> exact ⟨_, hcause⟩
    · rcases hshort c (by omega) with hcause | hcause <;> cases h.symm.trans hcause
  exceeds {c size offset length} h := by
    by_cases hle : c.position + n ≤ c.data.length
    · cases h.symm.trans (hfits c hle)
    · rcases hshort c (by omega) with hcause | hcause <;> cases h.symm.trans hcause
      exact ⟨rfl, c.position_le, by omega⟩

/-- A procedure that is read from some bytes and needs all that it takes needs all of them. -/
theorem Reads.failsOn_take (hread : Reads d data v) (hd : Contained d) (hn : n < data.length) :
    FailsOn d (data.take n) := by
  obtain ⟨c', hok, hrest⟩ := hread (Cursor.start data) [] (List.append_nil data).symm
  obtain ⟨_, taken, htaken, _, hfails⟩ := hd.takes hok
  rw [hrest, List.append_nil] at htaken
  subst htaken
  exact hfails n hn

/-- From the first byte on, the bytes that are taken give the value whatever follows them, and
with fewer of them nothing is given. -/
theorem Contained.first (hd : Contained d) (h : d.first data = .ok v) :
    ∃ taken rest, data = taken ++ rest ∧ (∀ rest', d.first (taken ++ rest') = .ok v) ∧
      ∀ n < taken.length, ∃ cause, d.first (taken.take n) = .error cause := by
  obtain ⟨c, hread⟩ := first_eq_ok h
  obtain ⟨_, taken, hrest, hreads, hfails⟩ := hd.takes hread
  exact ⟨taken, c.rest, hrest, hreads.first, fun n hn => (hfails n hn).first⟩

end Decode

namespace Cursor

open Decode (Contained Reads Takes contained_of_fits contained_pure contained_throw)

variable {α : Type}

/-! ### Numbers and bytes -/

/-- A number is read from its bytes alone. -/
theorem contained_word (width : Nat) : Contained (word width) := by
  refine contained_of_fits Bytes.toNat (fun c hfits => word_of_fits hfits) fun c hshort =>
    Or.inl ?_
  have hlength : (c.rest.take width).length ≠ width := by
    have hle := c.position_le
    rw [List.length_take, length_rest, remaining]
    omega
  exact dif_neg hlength

/-- An unsigned number of 32 bits. -/
theorem contained_u32 : Contained u32 := contained_word 4

/-- A floating-point number of 32 bits. -/
theorem contained_f32 : Contained f32 := contained_u32.map _

/-- What is skipped has to be there, although nobody looks at it. -/
theorem contained_skip (count : Nat) : Contained (skip count) :=
  contained_of_fits (fun _ => ()) (fun _ hfits => dif_pos hfits) fun _ hshort =>
    Or.inr (dif_neg (Nat.not_le_of_lt hshort))

/-- Bytes are given as they are taken. -/
theorem contained_bytes (count : Nat) : Contained (bytes count) :=
  contained_of_fits id (fun _ hfits => dif_pos hfits) fun _ hshort =>
    Or.inr (dif_neg (Nat.not_le_of_lt hshort))

/-- A number that is read is that of the next bytes. -/
theorem u32_eq_ok {c c' : Cursor} {n : Nat} (h : u32 c = .ok (n, c')) :
    n = Bytes.toNat (c.rest.take 4) ∧ c'.rest = c.rest.drop 4 ∧
      c'.remaining + 4 = c.remaining := by
  by_cases hfits : c.position + 4 ≤ c.data.length
  · obtain ⟨rfl, rfl⟩ := Prod.mk.inj (Except.ok.inj ((word_of_fits hfits).symm.trans h))
    exact ⟨rfl, rfl, remaining_advance c 4 hfits⟩
  · obtain ⟨cause, hcause⟩ := takes_u32.fails c (by unfold remaining; omega)
    cases hcause.symm.trans h

/-- Bytes that are passed over are taken, whatever they are. -/
theorem reads_skip (data : Bytes) : Reads (skip data.length) data () := by
  intro c rest hrest
  have hroom := congrArg List.length hrest
  rw [length_rest, remaining, List.length_append] at hroom
  have hle := c.position_le
  refine ⟨c.advance data.length (by omega), dif_pos (by omega), ?_⟩
  show c.rest.drop data.length = rest
  rw [hrest, List.drop_left]

/-- An array is contained if one of its values is. -/
theorem contained_many {one : Decode α} (h : Contained one) (count : Nat) :
    Contained (many count one) := by
  induction count with
  | zero => exact contained_pure []
  | succ count ih => exact h.bind fun first => ih.map (first :: ·)

/-- To make sure of bytes takes none of them. So it stays inside only with a procedure behind it
that takes the bytes it made sure of. -/
theorem contained_require_bind {d : Decode α} {count : Nat} (hd : Contained d)
    (htakes : Takes d count) : Contained (do require count; d) where
  takes {c c' v} h := by
    obtain ⟨_, c₁, hrequire, hread⟩ := Decode.bind_eq_ok h
    -- the place is still the same
    obtain rfl : c₁ = c := by
      obtain ⟨_, _, hstays⟩ := of_bind_eq_ok hrequire
      exact (Prod.mk.inj (Except.ok.inj hstays)).2.symm
    obtain ⟨hdata, taken, hrest, hreads, hfails⟩ := hd.takes hread
    -- so it can be made sure of them wherever they lie
    have hcount : count ≤ taken.length := by
      have hcost := htakes.costs c₁ v c' hread
      rw [← length_rest, ← length_rest, hrest, List.length_append] at hcost
      omega
    refine ⟨hdata, taken, hrest, reads_require_bind hreads hcount, fun n hn c₂ hrest₂ => ?_⟩
    show ∃ cause, (require count c₂ >>= fun p => d p.2) = .error cause
    unfold require Bytes.checkSpan
    split
    · exact hfails n hn c₂ hrest₂
    · exact ⟨_, rfl⟩
  exceeds {c size offset length} h := by
    change (require count c >>= fun p => d p.2) = .error _ at h
    unfold require Bytes.checkSpan at h
    split at h
    · exact hd.exceeds h
    · cases h
      exact ⟨rfl, c.position_le, by omega⟩

/-- A text of 16-bit units depends on its own units. Those behind the unit that ends it are taken
all the same. -/
theorem contained_utf16 (count : Nat) : Contained (utf16 count) := by
  unfold utf16
  split
  · exact (contained_throw (.outOfBounds .stringLength) nofun).bind fun _ =>
      contained_require_bind ((contained_many (contained_word 2) count).map _)
        ((takes_many (takes_word 2) count).map _)
  · exact contained_require_bind ((contained_many (contained_word 2) count).map _)
      ((takes_many (takes_word 2) count).map _)

/-- A text takes all of its units, also those behind the one that ends it. -/
theorem costs_utf16 (count : Nat) : Decode.Costs (utf16 count) (count * 2) := by
  unfold utf16
  split
  · exact Decode.costs_throw _
  · exact (takes_require_bind ((takes_many (takes_word 2) count).map _)).costs

end Cursor

end Metafile
