import Metafile.Proofs.Bytes.Width
import Metafile.Proofs.Record.Walk

/-!
# `Metafile.Proofs.Record.Framing`: which streams are accepted

A record says its own size, so a stream need not be cut to be described: it is a list of records,
one after the other, and then any bytes at all. `Framed` is what the records must be. Each has the
size that it says, the header is the first of them and the end record the last, and a change of
the world transform inside of a bracket is long enough to be read.

`Entry.measured_of_cut` and `Entry.cut_of_measured` state this of the cutting, and
`Walk.ofEntries_eq_ok_iff` of the walk over the records. The survey puts the two together: exactly
the framed streams are accepted, with their records at their places (`Survey.framed_of_ofBytes`,
`Survey.ofBytes_of_framed`). What follows the end record does not matter, and a stream that stops
before the end of the end record is refused (`Survey.ofBytes_prefix`).
-/

set_option autoImplicit false

namespace Metafile.Record

/-! ### Records in a stream -/

/-- The number in the first four bytes of a record, which is that of its kind. -/
def codeOf (record : Bytes) : Nat := Bytes.toNat (record.take 4)

/-- The number in the next four bytes of a record, which is its size. -/
def declaredSize (record : Bytes) : Nat := Bytes.toNat ((record.drop 4).take 4)

/-- A record that has at least its header, and is as long as it says. -/
structure Measured (record : Bytes) : Prop where
  header : headerBytes ≤ record.length
  size : declaredSize record = record.length

/-- Records one after the other, the first of them at an offset. -/
def placed (offset : Nat) : List Bytes → List Entry
  | [] => []
  | record :: rest => ⟨offset, codeOf record, record⟩ :: placed (offset + record.length) rest

/-- The bytes of placed records are the records. -/
theorem map_body_placed (offset : Nat) (records : List Bytes) :
    (placed offset records).map Entry.body = records := by
  induction records generalizing offset with
  | nil => rfl
  | cons record rest ih => rw [placed, List.map_cons, ih]

/-- A change of the world transform that is long enough: six numbers after the header, and a mode
where the change is a modification. -/
structure Entry.Readable (e : Entry) : Prop where
  set : e.kind? = some .setWorldTransform → 32 ≤ e.size
  modify : e.kind? = some .modifyWorldTransform → 36 ≤ e.size

/-- The end record is the last of some records, and none of the others. -/
structure EndsOnce (entries : List Entry) : Prop where
  nonempty : entries ≠ []
  last : ∀ earlier e later, entries = earlier ++ e :: later →
    (e.kind? = some .endOfFile ↔ later = [])

/-- The records of a metafile. -/
structure Framed (records : List Bytes) : Prop where
  measured : ∀ record ∈ records, Measured record
  header : ∀ earlier e later, placed 0 records = earlier ++ e :: later →
    (e.kind? = some .header ↔ earlier = [])
  ended : EndsOnce (placed 0 records)
  readable : ∀ earlier opening inside e later,
    placed 0 records = earlier ++ opening :: inside ++ e :: later →
    opening.kind? = some .beginPath → (∀ other ∈ inside, other.kind? ≠ some .endPath) → e.Readable

/-! ### Every place in a list -/

section Places

variable {α : Type} (x : α) (xs : List α)

/-- What holds at every place of a list holds at the first place and at every place of the rest.
-/
private theorem forall_places_cons (P : α → List α → Prop) :
    (∀ earlier e later, x :: xs = earlier ++ e :: later → P e later) ↔
      P x xs ∧ ∀ earlier e later, xs = earlier ++ e :: later → P e later := by
  constructor
  · intro h
    refine ⟨h [] x xs rfl, fun earlier e later hsplit => h (x :: earlier) e later ?_⟩
    rw [hsplit, List.cons_append]
  · rintro ⟨hfirst, hrest⟩ earlier e later hsplit
    cases earlier with
    | nil =>
        obtain ⟨rfl, rfl⟩ := List.cons.inj hsplit
        exact hfirst
    | cons y earlier => exact hrest earlier e later (List.cons.inj hsplit).2

/-- What holds at every place of a list holds at every place but the last and at the last one. -/
private theorem forall_places_concat (P : List α → α → Prop) :
    (∀ earlier e later, xs ++ [x] = earlier ++ e :: later → P earlier e) ↔
      (∀ earlier e later, xs = earlier ++ e :: later → P earlier e) ∧ P xs x := by
  constructor
  · intro h
    refine ⟨fun earlier e later hsplit => h earlier e (later ++ [x]) ?_, h xs x [] rfl⟩
    rw [hsplit, List.append_assoc, List.cons_append]
  · rintro ⟨hfront, hlast⟩ earlier e later hsplit
    rcases List.eq_nil_or_concat later with rfl | ⟨later, y, rfl⟩
    · obtain ⟨rfl, hx⟩ := List.append_inj' hsplit rfl
      obtain rfl : x = e := (List.cons.inj hx).1
      exact hlast
    · rw [List.concat_eq_append, ← List.cons_append, ← List.append_assoc] at hsplit
      exact hfront earlier e later (List.append_inj' hsplit rfl).1

end Places

/-! ### One record -/

/-- The number of the kind of a record does not depend on what follows it. -/
theorem codeOf_append {record : Bytes} (h : headerBytes ≤ record.length) (rest : Bytes) :
    codeOf (record ++ rest) = codeOf record := by
  unfold headerBytes at h
  rw [codeOf, codeOf, List.take_append_of_le_length (by omega)]

/-- The size of a record does not depend on what follows it. -/
theorem declaredSize_append {record : Bytes} (h : headerBytes ≤ record.length) (rest : Bytes) :
    declaredSize (record ++ rest) = declaredSize record := by
  unfold headerBytes at h
  rw [declaredSize, declaredSize, List.drop_append_of_le_length (by omega),
    List.take_append_of_le_length (by rw [List.length_drop]; omega)]

/-- The number of the kind and the size are read as soon as a stream has eight bytes. -/
theorem Entry.header_first_eq_ok {stream : Bytes} (h : headerBytes ≤ stream.length) :
    Entry.header.first stream = .ok (codeOf stream, declaredSize stream) := by
  unfold headerBytes at h
  have hcode : 0 + 4 ≤ stream.length := by omega
  have hsize : 0 + 4 + 4 ≤ stream.length := by omega
  show (((Cursor.u32 (Cursor.start stream)) >>= fun p => Cursor.u32 p.2 >>= fun q =>
    pure ((p.1, q.1), q.2)) >>= fun r => pure r.1) =
      Except.ok (codeOf stream, declaredSize stream)
  rw [Cursor.u32, Cursor.word_of_fits (c := Cursor.start stream) hcode]
  show ((Cursor.word 4 _ >>= fun q => pure ((_, q.1), q.2)) >>= fun r => pure r.1) = _
  rw [Cursor.word_of_fits (c := (Cursor.start stream).advance 4 hcode) hsize]
  rfl

/-- Where a stream has a header, a record is taken off it by the size that the header declares. -/
theorem Entry.next_of_header {offset : Nat} {stream : Bytes} (h : headerBytes ≤ stream.length) :
    Entry.next offset stream =
      if declaredSize stream < headerBytes then
        .error (.structural (.undersized (codeOf stream) offset (declaredSize stream)))
      else if (stream.take (declaredSize stream)).length < declaredSize stream then
        .error (.structural (.oversized (codeOf stream) offset (declaredSize stream)))
      else .ok (⟨offset, codeOf stream, stream.take (declaredSize stream)⟩,
        stream.drop (declaredSize stream)) := by
  rw [Entry.next, Entry.header_first_eq_ok h]

/-- The bytes that a header declares are a measured record, if they are there. -/
theorem Measured.of_take {stream : Bytes} (hheader : headerBytes ≤ declaredSize stream)
    (hfits : declaredSize stream ≤ (stream.take (declaredSize stream)).length) :
    Measured (stream.take (declaredSize stream)) ∧
      codeOf (stream.take (declaredSize stream)) = codeOf stream := by
  have hlength : (stream.take (declaredSize stream)).length = declaredSize stream := by
    rw [List.length_take] at hfits ⊢
    omega
  have hrecord : headerBytes ≤ (stream.take (declaredSize stream)).length := by omega
  -- the record begins with the same numbers as the stream
  have hcode := codeOf_append hrecord (stream.drop (declaredSize stream))
  have hsize := declaredSize_append hrecord (stream.drop (declaredSize stream))
  rw [List.take_append_drop] at hcode hsize
  exact ⟨⟨hrecord, by rw [← hsize, hlength]⟩, hcode.symm⟩

/-- A record is taken off a stream exactly if the stream begins with a measured one. -/
theorem Entry.next_eq_ok_iff {offset : Nat} {stream rest : Bytes} {e : Entry} :
    Entry.next offset stream = .ok (e, rest) ↔
      ∃ record, stream = record ++ rest ∧ Measured record ∧
        e = ⟨offset, codeOf record, record⟩ := by
  constructor
  · -- what is cut off is as long as its own size field says
    intro h
    have hheader : headerBytes ≤ stream.length := by
      obtain ⟨_, hsize, hsplit⟩ := next_eq_ok h
      rw [hsplit, List.length_append]
      exact Nat.le_add_right_of_le hsize
    rw [next_of_header hheader] at h
    split at h
    · cases h
    · rename_i hsmall
      split at h
      · cases h
      · rename_i hlarge
        obtain ⟨rfl, rfl⟩ := Prod.mk.inj (Except.ok.inj h)
        obtain ⟨hmeasured, hcode⟩ := Measured.of_take (Nat.le_of_not_lt hsmall)
          (Nat.le_of_not_lt hlarge)
        exact ⟨_, (List.take_append_drop _ _).symm, hmeasured, by rw [hcode]⟩
  · rintro ⟨record, rfl, hmeasured, rfl⟩
    have hrecord := hmeasured.header
    have hheader : headerBytes ≤ (record ++ rest).length := by
      rw [List.length_append]
      exact Nat.le_add_right_of_le hrecord
    rw [next_of_header hheader, declaredSize_append hrecord, codeOf_append hrecord,
      hmeasured.size, List.take_left, List.drop_left, if_neg (Nat.not_lt.2 hrecord),
      if_neg (Nat.lt_irrefl _)]

/-! ### Cutting -/

/-- The first of some records is the end record exactly if it is the only one. -/
theorem endsOnce_cons {e : Entry} {rest : List Entry} :
    EndsOnce (e :: rest) ↔
      if e.kind? = some .endOfFile then rest = [] else EndsOnce rest := by
  -- only the last record of the list ends the stream
  have hplaces :=
    forall_places_cons e rest fun e later => e.kind? = some .endOfFile ↔ later = []
  split
  · rename_i hend
    constructor
    · intro h
      exact (hplaces.1 h.last).1.1 hend
    · rintro rfl
      exact ⟨by simp, hplaces.2 ⟨iff_of_true hend rfl, by simp⟩⟩
  · rename_i hend
    constructor
    · intro h
      have hlast := hplaces.1 h.last
      exact ⟨fun hempty => hend (hlast.1.2 hempty), hlast.2⟩
    · intro h
      exact ⟨by simp, hplaces.2 ⟨iff_of_false hend h.nonempty, h.last⟩⟩

/-- What is cut into records without a fault begins with measured ones, and they end once. -/
theorem Entry.measured_of_cut {offset : Nat} {stream : Bytes} {entries : List Entry}
    (h : Entry.cut offset stream = (entries, none)) :
    ∃ records tail, stream = records.flatten ++ tail ∧ (∀ record ∈ records, Measured record) ∧
      entries = placed offset records ∧ EndsOnce entries := by
  refine Entry.cut_induction (motive := fun offset stream entries => ∃ records tail,
    stream = records.flatten ++ tail ∧ (∀ record ∈ records, Measured record) ∧
      entries = placed offset records ∧ EndsOnce entries) ?_ ?_ h
  · intro offset stream e rest hnext hend
    obtain ⟨record, rfl, hmeasured, rfl⟩ := next_eq_ok_iff.1 hnext
    refine ⟨[record], rest, by simp, by simpa using hmeasured, rfl, ?_⟩
    rw [endsOnce_cons, if_pos hend]
  · rintro offset stream e rest entries hnext hend ⟨records, tail, hrest, hall, rfl, hends⟩
    obtain ⟨record, rfl, hmeasured, rfl⟩ := next_eq_ok_iff.1 hnext
    refine ⟨record :: records, tail, by rw [hrest]; simp, ?_, rfl, ?_⟩
    · exact List.forall_mem_cons.2 ⟨hmeasured, hall⟩
    · rw [endsOnce_cons, if_neg hend]
      exact hends

/-- Measured records that end once are cut off any bytes that follow them. -/
theorem Entry.cut_of_measured {offset : Nat} {records : List Bytes} (tail : Bytes)
    (hall : ∀ record ∈ records, Measured record) (hends : EndsOnce (placed offset records)) :
    Entry.cut offset (records.flatten ++ tail) = (placed offset records, none) := by
  induction records generalizing offset with
  | nil => exact absurd rfl hends.nonempty
  | cons record records ih =>
      obtain ⟨hmeasured, hrest⟩ := List.forall_mem_cons.1 hall
      -- the first record is as long as its size field says
      have hnext : Entry.next offset (record ++ (records.flatten ++ tail)) =
          .ok (⟨offset, codeOf record, record⟩, records.flatten ++ tail) :=
        next_eq_ok_iff.2 ⟨record, rfl, hmeasured, rfl⟩
      have hempty : ¬(record ++ (records.flatten ++ tail)).isEmpty = true := by
        intro h
        obtain ⟨rfl, _⟩ := List.append_eq_nil_iff.1 (List.isEmpty_iff.1 h)
        exact absurd hmeasured.header (by decide)
      rw [placed, endsOnce_cons] at hends
      rw [List.flatten_cons, List.append_assoc, cut_of_next hempty hnext, placed]
      split at hends
      · rename_i hend
        rw [if_pos hend, hends]
      · rename_i hend
        rw [if_neg hend, show Entry.size ⟨offset, codeOf record, record⟩ = record.length from rfl,
          ih hrest hends]

/-- Every record that is cut off a stream has its header, also where the stream is broken further
on. -/
theorem Entry.header_le_size {offset : Nat} {stream : Bytes} {e : Entry}
    (h : e ∈ (Entry.cut offset stream).1) : headerBytes ≤ e.size := by
  induction offset, stream using Entry.cut.induct with
  | case1 offset stream hempty =>
      rw [Entry.cut, if_pos hempty] at h
      cases h
  | case2 offset stream hempty cause hnext =>
      rw [cut_of_broken hempty hnext] at h
      cases h
  | case3 offset stream hempty first rest hnext hend =>
      rw [cut_of_next hempty hnext, if_pos hend] at h
      obtain rfl := List.mem_singleton.1 h
      exact (next_eq_ok hnext).2.1
  | case4 offset stream hempty first rest hnext hend _ _ _ ih =>
      rw [cut_of_next hempty hnext, if_neg hend] at h
      rcases List.mem_cons.1 h with rfl | h
      · exact (next_eq_ok hnext).2.1
      · exact ih h

/-! ### Walking -/

/-- A record of a kind that leaves the world transform as it is need not be long. -/
theorem Entry.readable_of_kind {e : Entry} (hset : e.kind? ≠ some .setWorldTransform)
    (hmodify : e.kind? ≠ some .modifyWorldTransform) : e.Readable :=
  ⟨fun h => absurd h hset, fun h => absurd h hmodify⟩

/-- A change of the world transform can be read exactly if its record is long enough. -/
theorem Entry.readable_iff {e : Entry} {kind : Kind} (hkind : e.kind? = some kind)
    (h : kind = .setWorldTransform ∨ kind = .modifyWorldTransform) :
    (∃ t, (transformChange kind).from e.body headerBytes = .ok t) ↔ e.Readable := by
  rcases h with rfl | rfl
  · have htakes : Decode.Takes (transformChange .setWorldTransform) 24 :=
      Cursor.takes_affine.map _
    rw [htakes.from_eq_ok]
    exact ⟨fun hfits => ⟨fun _ => hfits, by simp [hkind]⟩, fun hread => hread.set hkind⟩
  · have htakes : Decode.Takes (transformChange .modifyWorldTransform) 28 :=
      Cursor.takes_affine.bind fun _ => Cursor.takes_u32.map _
    rw [htakes.from_eq_ok]
    exact ⟨fun hfits => ⟨by simp [hkind], fun _ => hfits⟩, fun hread => hread.modify hkind⟩

/-- What a record says can be noted, unless it is a change inside of a bracket that is cut short.
-/
theorem Walk.note_eq_ok_iff {w : Walk} {e : Entry} :
    (∃ v, w.note e = .ok v) ↔ (w.inPath = true → e.Readable) := by
  -- a record that changes no world transform has nothing to be read
  have hother {kind : Kind} (hkind : e.kind? = some kind)
      (h : kind ≠ .setWorldTransform ∧ kind ≠ .modifyWorldTransform) : e.Readable :=
    Entry.readable_of_kind (by simpa [hkind] using h.1) (by simpa [hkind] using h.2)
  unfold note
  split
  · rename_i hnone
    exact iff_of_true ⟨_, rfl⟩ fun _ => Entry.readable_of_kind (by simp [hnone]) (by simp [hnone])
  · exact iff_of_true ⟨_, rfl⟩ fun _ => hother ‹_› (by decide)
  · exact iff_of_true ⟨_, rfl⟩ fun _ => hother ‹_› (by decide)
  · exact iff_of_true ⟨_, rfl⟩ fun _ => hother ‹_› (by decide)
  · rename_i kind _ _ _ hkind
    split
    · -- a change of the world transform inside of a bracket
      rename_i hdefer
      rw [Bool.and_eq_true, Bool.or_eq_true, beq_iff_eq, beq_iff_eq] at hdefer
      rw [← Entry.readable_iff hkind hdefer.2]
      simp only [← deferredChange_eq_ok]
      cases deferredChange kind e.body with
      | ok t => exact iff_of_true ⟨_, rfl⟩ fun _ => ⟨t, rfl⟩
      | error fault =>
          refine iff_of_false (fun ⟨_, h⟩ => by cases h) fun h => ?_
          obtain ⟨_, h⟩ := h hdefer.1
          cases h
    · rename_i hdefer
      refine iff_of_true (by split <;> exact ⟨_, rfl⟩) fun hopen => ?_
      rw [hopen, Bool.true_and, Bool.or_eq_true, beq_iff_eq, beq_iff_eq, not_or] at hdefer
      exact hother hkind hdefer

/-- A record is walked over exactly if it is a header where one is due and nowhere else, and is
not a change inside of a bracket that is cut short. -/
theorem Walk.observe_eq_ok_iff {w : Walk} {e : Entry} :
    (∃ v, w.observe e = .ok v) ↔
      (e.kind? = some .header ↔ w.begun = false) ∧ (w.inPath = true → e.Readable) := by
  have hrefused {fault : Fault} (h : w.checkHeader e = .error fault) :
      ¬∃ v, w.observe e = .ok v := by
    rintro ⟨v, hv⟩
    rw [observe, h] at hv
    cases hv
  have hpassed (h : w.checkHeader e = .ok ()) :
      (∃ v, w.observe e = .ok v) ↔ (w.inPath = true → e.Readable) := by
    rw [observe, h]
    exact note_eq_ok_iff (w := { w with begun := true })
  by_cases hheader : e.kind? = some .header <;> cases hbegun : w.begun
  · simp only [hpassed (by simp [checkHeader, hheader, hbegun]), hheader, true_and]
  · exact iff_of_false (hrefused (by simp [checkHeader, hheader, hbegun]; rfl))
      (by simp [hheader])
  · exact iff_of_false (hrefused (by simp [checkHeader, hheader, hbegun]; rfl))
      (by simp [hheader])
  · simp only [hpassed (by simp [checkHeader, hheader, hbegun]), hheader, Bool.true_eq_false,
      true_and]

/-- All records are walked over exactly if the header is the first of them only, and no change
inside of a bracket is cut short. -/
theorem Walk.ofEntries_eq_ok_iff {entries : List Entry} :
    (∃ w, ofEntries entries = .ok w) ↔
      ∀ earlier e later, entries = earlier ++ e :: later →
        (e.kind? = some .header ↔ earlier = []) ∧
          ((sinceBegin earlier).isSome = true → e.Readable) := by
  -- the last record is the first of the reversed list
  obtain ⟨reversed, rfl⟩ : ∃ reversed : List Entry, entries = reversed.reverse :=
    ⟨entries.reverse, entries.reverse_reverse.symm⟩
  induction reversed with
  | nil => exact iff_of_true ⟨_, rfl⟩ (by simp)
  | cons e rest ih =>
      rw [List.reverse_cons, forall_places_concat e rest.reverse fun earlier e =>
        (e.kind? = some .header ↔ earlier = []) ∧
          ((sinceBegin earlier).isSome = true → e.Readable), ← ih]
      cases hwalk : ofEntries rest.reverse with
      | error cause =>
          refine iff_of_false (fun ⟨w, h⟩ => ?_) (fun ⟨⟨w, h⟩, _⟩ => by cases h)
          obtain ⟨v, hv, _⟩ := ofEntries_append h
          rw [hwalk] at hv
          cases hv
      | ok w =>
          have hlast : ofEntries (rest.reverse ++ [e]) = w.observe e := by
            rw [ofEntries, List.foldlM_append, ← ofEntries, hwalk]
            exact bind_pure (w.observe e)
          rw [hlast, observe_eq_ok_iff, inPath_eq hwalk, begun_eq hwalk, Bool.not_eq_false',
            List.isEmpty_iff]
          exact ⟨fun h => ⟨⟨w, rfl⟩, h⟩, fun h => h.2⟩

/-- A bracket is open exactly if some record has begun one and no later record has ended it. -/
theorem sinceBegin_isSome_iff {entries : List Entry} :
    (sinceBegin entries).isSome = true ↔
      ∃ earlier opening inside, entries = earlier ++ opening :: inside ∧
        opening.kind? = some .beginPath ∧ ∀ other ∈ inside, other.kind? ≠ some .endPath := by
  obtain ⟨reversed, rfl⟩ : ∃ reversed : List Entry, entries = reversed.reverse :=
    ⟨entries.reverse, entries.reverse_reverse.symm⟩
  -- by induction on the records from the last one backwards
  induction reversed with
  | nil => exact iff_of_false (by simp [sinceBegin]) (by simp)
  | cons e rest ih =>
      rw [List.reverse_cons, sinceBegin_concat]
      constructor
      · intro h
        by_cases hbegin : e.kind? = some .beginPath
        · exact ⟨rest.reverse, e, [], rfl, hbegin, by simp⟩
        · have hend : e.kind? ≠ some .endPath := by
            intro hend
            simp [insideAfter, hend] at h
          rw [insideAfter_other hbegin hend, Option.isSome_map, ih] at h
          obtain ⟨earlier, opening, inside, hsplit, hopening, hinside⟩ := h
          refine ⟨earlier, opening, inside ++ [e], by simp [hsplit], hopening, ?_⟩
          exact List.forall_mem_append.2 ⟨hinside, List.forall_mem_singleton.2 hend⟩
      · rintro ⟨earlier, opening, inside, hsplit, hopening, hinside⟩
        rcases List.eq_nil_or_concat inside with rfl | ⟨inside, last, rfl⟩
        · -- the bracket is begun by the last record
          obtain rfl : e = opening := (List.cons.inj (List.append_inj' hsplit rfl).2).1
          simp [insideAfter, hopening]
        · rw [List.concat_eq_append, ← List.cons_append, ← List.append_assoc] at hsplit
          obtain ⟨hfront, hlast⟩ := List.append_inj' hsplit rfl
          obtain rfl : e = last := (List.cons.inj hlast).1
          rw [List.concat_eq_append, List.forall_mem_append, List.forall_mem_singleton] at hinside
          by_cases hbegin : e.kind? = some .beginPath
          · simp [insideAfter, hbegin]
          · rw [insideAfter_other hbegin hinside.2, Option.isSome_map]
            exact ih.2 ⟨earlier, opening, inside, hfront, hopening, hinside.1⟩

/-! ### Streams -/

/-- Records are those of a metafile exactly if each has its size, the end record is the last of
them only, and the walk goes over all of them. -/
theorem framed_iff {records : List Bytes} :
    Framed records ↔
      (∀ record ∈ records, Measured record) ∧ EndsOnce (placed 0 records) ∧
        ∃ w, Walk.ofEntries (placed 0 records) = .ok w := by
  rw [Walk.ofEntries_eq_ok_iff]
  constructor
  · intro h
    refine ⟨h.measured, h.ended, fun earlier e later hsplit =>
      ⟨h.header _ _ _ hsplit, fun hopen => ?_⟩⟩
    obtain ⟨before, opening, inside, rfl, hopening, hinside⟩ := sinceBegin_isSome_iff.1 hopen
    exact h.readable before opening inside e later hsplit hopening hinside
  · rintro ⟨hmeasured, hended, hwalk⟩
    refine ⟨hmeasured, fun _ _ _ hsplit => (hwalk _ _ _ hsplit).1, hended, ?_⟩
    intro earlier opening inside e later hsplit hopening hinside
    exact (hwalk _ _ _ hsplit).2
      (sinceBegin_isSome_iff.2 ⟨earlier, opening, inside, rfl, hopening, hinside⟩)

namespace Survey

variable {stream : Bytes} {survey : Survey}

/-- An accepted stream begins with the records of a metafile, and the survey lists them at their
places. -/
theorem framed_of_ofBytes (h : ofBytes stream = .ok survey) :
    ∃ records tail, stream = records.flatten ++ tail ∧ Framed records ∧
      survey.entries = placed 0 records := by
  obtain ⟨hcut, w, hwalk, _⟩ := ofBytes_eq_ok h
  obtain ⟨records, tail, hstream, hmeasured, hplaced, hends⟩ := Entry.measured_of_cut hcut
  rw [hplaced] at hwalk hends
  exact ⟨records, tail, hstream, framed_iff.2 ⟨hmeasured, hends, w, hwalk⟩, hplaced⟩

/-- The records of a metafile are accepted with any bytes after them, and those bytes do not
matter to the survey. -/
theorem ofBytes_of_framed {records : List Bytes} (h : Framed records) :
    ∃ survey, survey.entries = placed 0 records ∧
      ∀ tail, ofBytes (records.flatten ++ tail) = .ok survey := by
  obtain ⟨hmeasured, hends, w, hwalk⟩ := framed_iff.1 h
  refine ⟨⟨placed 0 records, w.paths.reverse, w.hasPlus⟩, rfl, fun tail => ?_⟩
  have hcut : Entry.cut 0 (records.flatten ++ tail) = (placed 0 records, none) :=
    Entry.cut_of_measured tail hmeasured hends
  rw [ofBytes, hcut]
  simp only [hwalk]
  rfl

/-- A stream that stops before the end of the end record is refused. -/
theorem ofBytes_prefix {records : List Bytes} (h : Framed records) (tail : Bytes) {n : Nat}
    (hn : n < records.flatten.length) :
    ∃ cause, ofBytes ((records.flatten ++ tail).take n) = .error cause := by
  cases hread : ofBytes ((records.flatten ++ tail).take n) with
  | error cause => exact ⟨cause, rfl⟩
  | ok survey =>
      -- its records would be those of the longer stream, but they do not fit
      obtain ⟨others, rest, hstream, hothers, _⟩ := framed_of_ofBytes hread
      obtain ⟨longer, hlonger, haccepted⟩ := ofBytes_of_framed h
      obtain ⟨other, hother, hsame⟩ := ofBytes_of_framed hothers
      have hsplit : records.flatten ++ tail =
          others.flatten ++ (rest ++ (records.flatten ++ tail).drop n) := by
        rw [← List.append_assoc, ← hstream, List.take_append_drop]
      have heq := haccepted tail
      rw [hsplit, hsame] at heq
      obtain rfl : other = longer := Except.ok.inj heq
      have hrecords : records = others := by
        rw [← map_body_placed 0 records, ← hlonger, hother, map_body_placed]
      have hlength := congrArg List.length hstream
      simp only [← hrecords, List.length_take, List.length_append] at hlength
      omega

end Survey

/-! ### Deciding -/

/-- Whether a record is measured can be computed. -/
instance (record : Bytes) : Decidable (Measured record) :=
  decidable_of_iff (headerBytes ≤ record.length ∧ declaredSize record = record.length)
    ⟨fun h => ⟨h.1, h.2⟩, fun h => ⟨h.header, h.size⟩⟩

/-- Whether some records end once can be computed, from the first of them on. -/
instance decidableEndsOnce : (entries : List Entry) → Decidable (EndsOnce entries)
  | [] => isFalse fun h => h.nonempty rfl
  | e :: rest =>
    have := decidableEndsOnce rest
    decidable_of_iff (if e.kind? = some .endOfFile then rest = [] else EndsOnce rest)
      endsOnce_cons.symm

/-- Whether records are those of a metafile can be computed by a walk over them. -/
instance (records : List Bytes) : Decidable (Framed records) :=
  decidable_of_iff ((∀ record ∈ records, Measured record) ∧ EndsOnce (placed 0 records) ∧
      (Walk.ofEntries (placed 0 records)).isOk = true) <| by
    rw [framed_iff]
    cases Walk.ofEntries (placed 0 records) <;> simp [Except.isOk, Except.toBool]

/-- A change of the world transform may be cut short outside of a bracket, and not inside of one.
-/
example :
    let change := Kind.setWorldTransform.record [0, 0, 0, 0]
    let header := Kind.header.record []
    let ending := Kind.endOfFile.record []
    Framed [header, change, ending] ∧
      ¬Framed [header, Kind.beginPath.record [], change, ending] := by
  decide +kernel

end Metafile.Record
