import Metafile.Proofs.Plus.Comments

/-!
# `Metafile.Proofs.Plus.Boundaries`: where one comment ends does not matter

An EMF+ stream is spread over the comments of a metafile, and its records may be cut into comments
at any border between two of them. `Stage.play_append` states that this leaves no trace: to play
the bytes of whole records and then other bytes is to play them at once, and bytes that do not
begin like a record change nothing.

`IsRecord` says which bytes are a whole record, and `StartsRecord` which bytes begin like one.
There are four ways not to: too few bytes for a header, a size below that of a header or beyond
the end, and a number that is not one of a kind. `Assembly.records_of_starts` and
`Assembly.records_of_not_starts` are one step of the walk over the records, and
`Assembly.records_append` goes over whole records by induction.
-/

set_option autoImplicit false

namespace Metafile.Plus

/-! ### Records in bytes -/

/-- The number in the first two bytes of a record, which is that of its kind. -/
def codeOf (record : Bytes) : Nat := Bytes.toNat (record.take 2)

/-- The number in the next two bytes, which holds the flags. -/
def flagsOf (record : Bytes) : Nat := Bytes.toNat ((record.drop 2).take 2)

/-- The number in the four bytes after that, which is the size of the record. -/
def declaredSize (record : Bytes) : Nat := Bytes.toNat ((record.drop 4).take 4)

/-- The number in the last four bytes of the header, which is the size of the data. -/
def declaredData (record : Bytes) : Nat := Bytes.toNat ((record.drop 8).take 4)

/-- The number of a kind that the format defines. -/
def InRange (code : Nat) : Prop := Kind.firstCode ≤ code ∧ code ≤ Kind.lastCode

/-- A whole record: it has a header, is as long as it says, and has a kind. The size of its data
is not restricted, and neither are its flags and its data. -/
structure IsRecord (record : Bytes) : Prop where
  header : Stage.headerBytes ≤ record.length
  size : declaredSize record = record.length
  kind : InRange (codeOf record)

/-- Bytes that begin with a record. -/
structure StartsRecord (data : Bytes) : Prop where
  header : Stage.headerBytes ≤ data.length
  size : Stage.headerBytes ≤ declaredSize data
  fits : declaredSize data ≤ data.length
  kind : InRange (codeOf data)

/-- The kinds fill the range of their numbers. -/
theorem Kind.ofCode?_isSome (code : Nat) : (Kind.ofCode? code).isSome ↔ InRange code := by
  constructor
  · intro h
    obtain ⟨kind, hkind⟩ := Option.isSome_iff_exists.1 h
    unfold Kind.ofCode? at hkind
    split at hkind <;> first | exact ⟨by decide, by decide⟩ | cases hkind
  · rintro ⟨hfirst, hlast⟩
    have hall : ∀ n < 58, (Kind.ofCode? (Kind.firstCode + n)).isSome := by decide
    obtain ⟨n, rfl⟩ := Nat.exists_eq_add_of_le hfirst
    unfold Kind.lastCode Kind.firstCode at hlast
    exact hall n (by omega)

/-- The four numbers of a header are read as soon as there are twelve bytes. -/
theorem Stage.recordHeader_first_eq_ok {data : Bytes} (h : headerBytes ≤ data.length) :
    recordHeader.first data =
      .ok (codeOf data, flagsOf data, declaredSize data, declaredData data) := by
  unfold headerBytes at h
  have hcode : 0 + 2 ≤ data.length := by omega
  have hflags : 0 + 2 + 2 ≤ data.length := by omega
  have hsize : 0 + 2 + 2 + 4 ≤ data.length := by omega
  have hdata : 0 + 2 + 2 + 4 + 4 ≤ data.length := by omega
  show ((Cursor.word 2 (Cursor.start data) >>= fun p => Cursor.word 2 p.2 >>= fun q =>
    Cursor.word 4 q.2 >>= fun r => Cursor.word 4 r.2 >>= fun t =>
      pure ((p.1, q.1, r.1, t.1), t.2)) >>= fun r => pure r.1) = Except.ok _
  rw [Cursor.word_of_fits (c := Cursor.start data) hcode]
  show ((Cursor.word 2 _ >>= _) >>= _) = _
  rw [Cursor.word_of_fits (c := (Cursor.start data).advance 2 hcode) hflags]
  show ((Cursor.word 4 _ >>= _) >>= _) = _
  rw [Cursor.word_of_fits (c := ((Cursor.start data).advance 2 hcode).advance 2 hflags) hsize]
  show ((Cursor.word 4 _ >>= _) >>= _) = _
  rw [Cursor.word_of_fits
    (c := (((Cursor.start data).advance 2 hcode).advance 2 hflags).advance 4 hsize) hdata]
  simp only [Cursor.rest_eq]
  rfl

/-- With fewer than twelve bytes there is no header. -/
theorem Stage.recordHeader_first_eq_error {data : Bytes} (h : data.length < headerBytes) :
    ∃ cause, recordHeader.first data = .error cause := by
  have htakes : Decode.Takes recordHeader (2 + (2 + (4 + (4 + 0)))) :=
    (Cursor.takes_word 2).bind fun _ => (Cursor.takes_word 2).bind fun _ =>
      (Cursor.takes_word 4).bind fun _ => (Cursor.takes_word 4).map _
  obtain ⟨cause, hread⟩ := htakes.fails (Cursor.start data) h
  exact ⟨cause, by rw [Decode.first, hread]; rfl⟩

/-- The bytes of a whole record begin with a record, whatever follows them. -/
theorem IsRecord.starts {record : Bytes} (h : IsRecord record) (rest : Bytes) :
    StartsRecord (record ++ rest) ∧ codeOf (record ++ rest) = codeOf record ∧
      flagsOf (record ++ rest) = flagsOf record ∧
      declaredSize (record ++ rest) = record.length ∧
      declaredData (record ++ rest) = declaredData record := by
  obtain ⟨hheader, hsize, hkind⟩ := h
  have hlong : 12 ≤ record.length := hheader
  -- the four numbers lie in the header, and that is the same with other bytes behind it
  have hfield (n width : Nat) (hfits : n + width ≤ 12) :
      ((record ++ rest).drop n).take width = (record.drop n).take width := by
    rw [List.drop_append_of_le_length (by omega),
      List.take_append_of_le_length (by rw [List.length_drop]; omega)]
  have hcode : codeOf (record ++ rest) = codeOf record :=
    congrArg Bytes.toNat (hfield 0 2 (by decide))
  have hdeclared : declaredSize (record ++ rest) = record.length :=
    (congrArg Bytes.toNat (hfield 4 4 (by decide))).trans hsize
  have hlength : record.length ≤ (record ++ rest).length := by
    rw [List.length_append]
    exact Nat.le_add_right ..
  refine ⟨⟨Nat.le_trans hheader hlength, ?_, ?_, ?_⟩, hcode, ?_, hdeclared, ?_⟩
  · rw [hdeclared]
    exact hheader
  · rw [hdeclared]
    exact hlength
  · rw [hcode]
    exact hkind
  · exact congrArg Bytes.toNat (hfield 2 2 (by decide))
  · exact congrArg Bytes.toNat (hfield 8 4 (by decide))

namespace Assembly

/-! ### The walk over the records -/

/-- Bytes that begin with a record have this record first, and go on behind it. -/
theorem records_of_starts {data : Bytes} (h : StartsRecord data) :
    ∃ kind, Kind.ofCode? (codeOf data) = some kind ∧
      records data =
        (kind, flagsOf data, ((data.take (declaredSize data)).drop Stage.headerBytes).take
          (declaredData data)) :: records (data.drop (declaredSize data)) := by
  obtain ⟨kind, hkind⟩ := Option.isSome_iff_exists.1 ((Kind.ofCode?_isSome _).2 h.kind)
  -- a size that is not too small and not beyond the end passes both checks
  have hfits : ¬(declaredSize data < Stage.headerBytes ∨
      (data.take (declaredSize data)).length < declaredSize data) := by
    have hsize := h.size
    have hlength := List.length_take_of_le h.fits
    omega
  refine ⟨kind, hkind, ?_⟩
  rw [records, Stage.recordHeader_first_eq_ok h.header]
  simp only [dif_neg hfits, hkind]

/-- Bytes that do not begin with a record have no records. -/
theorem records_of_not_starts {data : Bytes} (h : ¬StartsRecord data) : records data = [] := by
  rw [records]
  by_cases hheader : Stage.headerBytes ≤ data.length
  · rw [Stage.recordHeader_first_eq_ok hheader]
    by_cases hsize : declaredSize data < Stage.headerBytes ∨
        (data.take (declaredSize data)).length < declaredSize data
    · exact dif_pos hsize
    · -- the size is right, so it must be the kind
      have hkind : Kind.ofCode? (codeOf data) = none := by
        refine Option.not_isSome_iff_eq_none.1 (fun hsome => h ⟨hheader, ?_, ?_, ?_⟩)
        · omega
        · have hlength := List.length_take_le' (declaredSize data) data
          omega
        · exact (Kind.ofCode?_isSome _).1 hsome
      simp only [dif_neg hsize, hkind]
  · obtain ⟨cause, hcause⟩ := Stage.recordHeader_first_eq_error (Nat.lt_of_not_le hheader)
    rw [hcause]

/-- A whole record in front of other bytes adds its own record to theirs. -/
theorem records_record_append {record : Bytes} (h : IsRecord record) (rest : Bytes) :
    records (record ++ rest) = records record ++ records rest := by
  -- one record comes off the bytes, and the same one alone
  have hone (rest : Bytes) : ∃ kind, Kind.ofCode? (codeOf record) = some kind ∧
      records (record ++ rest) = (kind, flagsOf record,
        (record.drop Stage.headerBytes).take (declaredData record)) :: records rest := by
    obtain ⟨hstarts, hcode, hflags, hsize, hdata⟩ := h.starts rest
    obtain ⟨kind, hkind, hrecords⟩ := records_of_starts hstarts
    rw [hcode] at hkind
    rw [hflags, hsize, hdata, List.take_left, List.drop_left] at hrecords
    exact ⟨kind, hkind, hrecords⟩
  obtain ⟨kind, hkind, hfirst⟩ := hone rest
  obtain ⟨alone, halone, hsecond⟩ := hone []
  rw [List.append_nil, records_nil] at hsecond
  obtain rfl : kind = alone := Option.some.inj (hkind.symm.trans halone)
  rw [hfirst, hsecond]
  rfl

/-- The records of whole records and then other bytes are those of both. -/
theorem records_append {whole : List Bytes} (h : ∀ record ∈ whole, IsRecord record)
    (rest : Bytes) : records (whole.flatten ++ rest) = records whole.flatten ++ records rest := by
  induction whole with
  | nil => rw [List.flatten_nil, records_nil]; rfl
  | cons record whole ih =>
      have hrecord := h record List.mem_cons_self
      have hrest := ih fun other hmem => h other (List.mem_cons_of_mem record hmem)
      rw [List.flatten_cons, List.append_assoc, records_record_append hrecord, hrest,
        records_record_append hrecord, List.append_assoc]

end Assembly

/-! ### Playing -/

namespace Stage

/-- The records of whole records and then other bytes are played one after the other. -/
theorem Comment.cues_append (scale : Float) {whole : List Bytes}
    (h : ∀ record ∈ whole, IsRecord record) (rest : Bytes) :
    Comment.cues ⟨scale, whole.flatten ++ rest⟩ =
      Comment.cues ⟨scale, whole.flatten⟩ ++ Comment.cues ⟨scale, rest⟩ := by
  simp only [Comment.cues, Assembly.records_append h, List.map_append]

/-- To play the bytes of whole records and any bytes after them is to play the whole records, and
then the other bytes. If the other bytes do not begin with a record, they change nothing. The
stages agree in the player and in what was drawn; only messages may differ, since they tell the
place of a record in its comment. -/
theorem play_append (verbose : Bool) (scale : Float) (s : Stage) {whole : List Bytes}
    (h : ∀ record ∈ whole, IsRecord record) (rest : Bytes) :
    Alike (s.play verbose scale (whole.flatten ++ rest))
        ((s.play verbose scale whole.flatten).play verbose scale rest) ∧
      (¬StartsRecord rest → Alike (s.play verbose scale (whole.flatten ++ rest))
        (s.play verbose scale whole.flatten)) := by
  -- all three are the playing of records
  have hplay (data : Bytes) {s t : Stage} (h : Alike s t) :
      Alike (s.play verbose scale data) (t.playCues (Comment.cues ⟨scale, data⟩)) :=
    h.play verbose ⟨scale, data⟩
  have hall := hplay (whole.flatten ++ rest) (.refl s)
  have hwhole := hplay whole.flatten (.refl s)
  have hboth := hplay rest hwhole
  rw [Comment.cues_append scale h, playCues_append] at hall
  refine ⟨hall.trans hboth.symm, fun hrest => ?_⟩
  have hnone : Comment.cues ⟨scale, rest⟩ = [] := by
    rw [Comment.cues, Assembly.records_of_not_starts hrest]
    rfl
  rw [hnone] at hall
  exact hall.trans hwhole.symm

/-- A record that saves a state under the number 1, and one that restores it. -/
def savingRecords : List Bytes :=
  [[0x25, 0x40, 0, 0, 16, 0, 0, 0, 4, 0, 0, 0, 1, 0, 0, 0],
    [0x26, 0x40, 0, 0, 16, 0, 0, 0, 4, 0, 0, 0, 1, 0, 0, 0]]

/-- Two whole records are played, and three bytes after them change nothing: they are too short
for a header. -/
theorem play_append_short :
    (∀ record ∈ savingRecords, IsRecord record) ∧ ¬StartsRecord [0x25, 0x40, 0] ∧
      Alike (Stage.play true 1 (savingRecords.flatten ++ [0x25, 0x40, 0]) ⟨.initial, #[], #[]⟩)
        (Stage.play true 1 [0x25, 0x40, 0]
          (Stage.play true 1 savingRecords.flatten ⟨.initial, #[], #[]⟩)) ∧
      Alike (Stage.play true 1 (savingRecords.flatten ++ [0x25, 0x40, 0]) ⟨.initial, #[], #[]⟩)
        (Stage.play true 1 savingRecords.flatten ⟨.initial, #[], #[]⟩) ∧
      (Stage.play true 1 savingRecords.flatten ⟨.initial, #[], #[]⟩).player.records = 2 := by
  have hwhole : ∀ record ∈ savingRecords, IsRecord record := by
    intro record hmem
    simp only [savingRecords, List.mem_cons, List.not_mem_nil, or_false] at hmem
    rcases hmem with rfl | rfl
    · exact ⟨by decide, by decide, by decide, by decide⟩
    · exact ⟨by decide, by decide, by decide, by decide⟩
  have hshort : ¬StartsRecord [0x25, 0x40, 0] := fun h => absurd h.header (by decide)
  obtain ⟨hsplit, hnone⟩ := play_append true 1 ⟨.initial, #[], #[]⟩ hwhole [0x25, 0x40, 0]
  exact ⟨hwhole, hshort, hsplit, hnone hshort, by decide +kernel⟩

end Stage

end Metafile.Plus
