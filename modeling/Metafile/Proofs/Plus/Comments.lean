import Metafile.Proofs.Bytes.Width
import Metafile.Proofs.Plus.Assembly
import Metafile.Proofs.Record.Reading

/-!
# `Metafile.Proofs.Plus.Comments`: the records of comments, and what playing them comes to

A comment is a span of bytes, and what it says is said by its records (`Assembly.records`). Two
stages are `Stage.Alike` if they differ at most in their messages. Up to that, playing comments is
playing their records one after the other, each at the scale of its comment
(`Stage.playAll_alike`), so the borders between comments leave no trace.

`recordBytes` writes a record. `Assembly.records_flatMap` states that the bytes of a sequence of
records are taken apart into this sequence. So every sequence of records that can be written is
what some comment holds, and so is every way to spread it over comments
(`Stage.Comment.records_ofRecords`).
-/

set_option autoImplicit false

namespace Metafile.Plus

/-! ### Records in bytes -/

/-- The bytes of a record. -/
def recordBytes (kind : Kind) (flags : Nat) (payload : Bytes) : Bytes :=
  Bytes.ofNat 2 kind.code ++ (Bytes.ofNat 2 flags ++
    (Bytes.ofNat 4 (Stage.headerBytes + payload.length) ++
      (Bytes.ofNat 4 payload.length ++ payload)))

/-- A record is as long as its header and its payload. -/
theorem length_recordBytes (kind : Kind) (flags : Nat) (payload : Bytes) :
    (recordBytes kind flags payload).length = Stage.headerBytes + payload.length := by
  simp only [recordBytes, List.length_append, Bytes.length_ofNat, Stage.headerBytes]
  omega

/-- The numbers before the payload of a record are read as they were written, if they fit. -/
theorem recordHeader_recordBytes {kind : Kind} {flags : Nat} {payload : Bytes}
    (hflags : flags < 0x10000) (hsize : Stage.headerBytes + payload.length < 0x100000000)
    (rest : Bytes) :
    Stage.recordHeader.first (recordBytes kind flags payload ++ rest) =
      .ok (kind.code, flags, Stage.headerBytes + payload.length, payload.length) := by
  have hcode : kind.code < 0x10000 :=
    Nat.lt_of_le_of_lt (Kind.code_mem_range kind).2 (by decide)
  have hpayload : payload.length < 0x100000000 := Nat.lt_of_add_left_lt hsize
  have hrest : (Cursor.start (recordBytes kind flags payload ++ rest)).rest =
      Bytes.ofNat 2 kind.code ++ (Bytes.ofNat 2 flags ++
        (Bytes.ofNat 4 (Stage.headerBytes + payload.length) ++
          (Bytes.ofNat 4 payload.length ++ (payload ++ rest)))) := by
    simp only [Cursor.start, recordBytes, List.append_assoc]
  -- each number is read where the one before it ends
  obtain ⟨c₁, hread₁, hrest₁⟩ := Cursor.word_of_ofNat 2 hcode hrest
  obtain ⟨c₂, hread₂, hrest₂⟩ := Cursor.word_of_ofNat 2 hflags hrest₁
  obtain ⟨c₃, hread₃, hrest₃⟩ := Cursor.word_of_ofNat 4 hsize hrest₂
  obtain ⟨c₄, hread₄, _⟩ := Cursor.word_of_ofNat 4 hpayload hrest₃
  show ((Cursor.word 2 (Cursor.start (recordBytes kind flags payload ++ rest)) >>= fun p =>
    Cursor.word 2 p.2 >>= fun q => Cursor.word 4 q.2 >>= fun r => Cursor.word 4 r.2 >>= fun t =>
      pure ((p.1, q.1, r.1, t.1), t.2)) >>= fun r => pure r.1) =
    Except.ok (kind.code, flags, Stage.headerBytes + payload.length, payload.length)
  rw [hread₁]
  show ((Cursor.word 2 c₁ >>= _) >>= _) = _
  rw [hread₂]
  show ((Cursor.word 4 c₂ >>= _) >>= _) = _
  rw [hread₃]
  show ((Cursor.word 4 c₃ >>= _) >>= _) = _
  rw [hread₄]
  rfl

namespace Assembly

/-- A record at the beginning of a comment is its first record. -/
theorem records_recordBytes {kind : Kind} {flags : Nat} {payload : Bytes}
    (hflags : flags < 0x10000) (hsize : Stage.headerBytes + payload.length < 0x100000000)
    (rest : Bytes) :
    records (recordBytes kind flags payload ++ rest) =
      (kind, flags, payload) :: records rest := by
  have hlength := length_recordBytes kind flags payload
  have htake : (recordBytes kind flags payload ++ rest).take
      (Stage.headerBytes + payload.length) = recordBytes kind flags payload :=
    List.take_left' hlength
  have hpayload : ((recordBytes kind flags payload).drop Stage.headerBytes).take
      payload.length = payload := by
    have hdrop : (recordBytes kind flags payload).drop Stage.headerBytes = payload := by
      simp only [recordBytes, ← List.append_assoc]
      exact List.drop_left' (by simp only [List.length_append, Bytes.length_ofNat]; rfl)
    rw [hdrop, List.take_length]
  rw [records, recordHeader_recordBytes hflags hsize]
  have hfits : ¬(Stage.headerBytes + payload.length < Stage.headerBytes ∨
      (recordBytes kind flags payload).length < Stage.headerBytes + payload.length) := by
    omega
  simp only [htake, dif_neg hfits, Kind.ofCode?_code, hpayload, List.drop_left' hlength]

/-- There is no record in an empty comment. -/
theorem records_nil : records [] = [] := by
  rw [records]
  rfl

/-- The payload of a record is bounded, since its size is a number of four bytes. -/
theorem length_payload_lt {data : Bytes} {r : Kind × Nat × Bytes} (h : r ∈ records data) :
    r.2.2.length < 0x100000000 := by
  have hbound : Stage.recordHeader.Yields fun header => header.2.2.2 < 0x100000000 :=
    Decode.yields_bind fun code => Decode.yields_bind fun flags => Decode.yields_bind fun size =>
      Decode.Yields.map (P := fun dataSize => dataSize < Nat.pow 256 4)
        (fun _ _ _ hread => Cursor.word_lt hread) fun _ hlt => hlt
  fun_induction records data with
  | case1 data cause hheader => cases h
  | case2 data code flags size dataSize hheader hsize => cases h
  | case3 data code flags size dataSize hheader hsize hkind => cases h
  | case4 data code flags size dataSize hheader hsize kind hkind ih =>
      rcases List.mem_cons.1 h with rfl | hrest
      · exact Nat.lt_of_le_of_lt (List.length_take_le _ _) (hbound.first hheader)
      · exact ih hrest

/-- The bytes of records that can be written are taken apart into these records. -/
theorem records_flatMap (rs : List (Kind × Nat × Bytes))
    (h : ∀ r ∈ rs, r.2.1 < 0x10000 ∧ Stage.headerBytes + r.2.2.length < 0x100000000) :
    records (rs.flatMap fun r => recordBytes r.1 r.2.1 r.2.2) = rs := by
  induction rs with
  | nil => exact records_nil
  | cons r rest ih =>
      obtain ⟨hflags, hsize⟩ := h r List.mem_cons_self
      rw [List.flatMap_cons, records_recordBytes hflags hsize,
        ih fun q hq => h q (List.mem_cons_of_mem r hq)]

end Assembly

/-! ### Stages up to their messages -/

namespace Stage

/-- Two stages that differ at most in their messages. -/
structure Alike (s t : Stage) : Prop where
  player : s.player = t.player
  drawn : s.drawn = t.drawn

namespace Alike

variable {s t : Stage}

/-- A stage has its own messages. -/
theorem refl (s : Stage) : Alike s s := ⟨rfl, rfl⟩

/-- Which of two stages has more messages does not matter. -/
theorem symm (h : Alike s t) : Alike t s := ⟨h.player.symm, h.drawn.symm⟩

/-- Stages that differ from the same one in messages differ from each other in messages. -/
theorem trans {u : Stage} (h : Alike s t) (k : Alike t u) : Alike s u :=
  ⟨h.player.trans k.player, h.drawn.trans k.drawn⟩

/-- Messages may be left on either side. -/
theorem notes (h : Alike s t) (level level' : Level) (text text' : String) :
    Alike (s.note level text) (t.note level' text') :=
  ⟨h.player, h.drawn⟩

/-- A message more on one side makes no difference. -/
theorem note_left (h : Alike s t) (level : Level) (text : String) : Alike (s.note level text) t :=
  ⟨h.player, h.drawn⟩

/-- A change of the player is the same on both sides, for their players are. -/
theorem update (h : Alike s t) (f : Player → Player) : Alike (s.update f) (t.update f) :=
  ⟨congrArg f h.player, h.drawn⟩

/-- The same content is stored on both sides, or both leave a message. -/
theorem store (h : Alike s t) (type id : Nat) (content : Bytes) :
    Alike (s.store type id content) (t.store type id content) := by
  unfold Stage.store
  cases Object.ofBytes type content with
  | ok o => exact h.update _
  | error cause => exact h.notes ..

/-- The pending object is given up on both sides. -/
theorem flush (h : Alike s t) : Alike s.flush t.flush := by
  unfold Stage.flush
  rw [h.player]
  cases t.player.pending with
  | none => exact h
  | some p => exact (h.update _).store ..

/-- A piece is taken on both sides, and both find the same object pending. -/
theorem receive (h : Alike s t) (type id : Nat) (fragment : Fragment) :
    Alike (s.receive type id fragment) (t.receive type id fragment) := by
  cases fragment with
  | last content =>
      simp only [Stage.receive, h.player]
      cases t.player.pending.append? type id content with
      | some p => exact (h.update _).flush
      | none => exact h.flush.store ..
  | part total content =>
      -- an object that is complete is stored at once
      have hsettled {s t : Stage} (h : Alike s t) :
          Alike (if s.player.pending.isComplete then s.flush else s)
            (if t.player.pending.isComplete then t.flush else t) := by
        rw [h.player]
        split
        · exact h.flush
        · exact h
      simp only [Stage.receive, h.player]
      cases t.player.pending.append? type id content with
      | some p => exact hsettled (h.update _)
      | none => exact hsettled (h.flush.update _)

/-- A header is read on both sides, with the same fault or none. -/
theorem header (h : Alike s t) (dual : Bool) (resolution : Except Fault (Nat × Nat)) :
    Alike (s.header dual resolution).1 (t.header dual resolution).1 ∧
      (s.header dual resolution).2 = (t.header dual resolution).2 := by
  unfold Stage.header
  cases resolution with
  | error cause => exact ⟨h.update fun p => { p with dual }, rfl⟩
  | ok resolution =>
      obtain ⟨x, y⟩ := resolution
      exact ⟨((h.update fun p => { p with dual }).update (·.setResolution x y)).notes .., rfl⟩

/-- Messages have no influence on what a command does. -/
theorem perform (h : Alike s t) (scale : Float) (c : Command) :
    Alike (s.perform scale c).1 (t.perform scale c).1 ∧
      (s.perform scale c).2 = (t.perform scale c).2 := by
  have hdrawing (c : Command) :
      Alike { s with drawn := s.drawn ++ (s.player.drawing scale c).toArray }
        { t with drawn := t.drawn ++ (t.player.drawing scale c).toArray } :=
    ⟨h.player, by rw [h.drawn, h.player]⟩
  cases c with
  | header dual resolution => exact h.header dual resolution
  | object type id fragment => exact ⟨h.receive type id fragment, rfl⟩
  | fill | stroke | label => exact ⟨hdrawing _, rfl⟩
  | restore index =>
      simp only [Stage.perform, h.player]
      cases t.player.restore? index with
      | some p => exact ⟨⟨rfl, h.drawn⟩, rfl⟩
      | none => exact ⟨h.notes .., rfl⟩
  | save index => exact ⟨h.update (·.save index), rfl⟩
  | container target source index =>
      exact ⟨h.update fun p =>
        { p.save index with world := enterContainer target source p.world }, rfl⟩
  | world change => exact ⟨h.update fun p => { p with world := change.onto p.world }, rfl⟩
  | page unit scale => exact ⟨h.update (·.setPage unit scale), rfl⟩
  | nothing => exact ⟨h, rfl⟩

/-- Messages have no influence on what playing a record does. -/
theorem playRecord (h : Alike s t) (scale : Float) (kind : Kind) (flags : Nat)
    (payload : Bytes) :
    Alike (s.playRecord scale kind flags payload) (t.playRecord scale kind flags payload) := by
  -- another record ends what is pending, in both stages or in none
  have hready {s t : Stage} (h : Alike s t) (text : String) :
      Alike (if kind ≠ .object && s.player.pending.isSome then (s.note .debug text).flush else s)
        (if kind ≠ .object && t.player.pending.isSome then (t.note .debug text).flush
          else t) := by
    rw [h.player]
    split
    · exact (h.notes ..).flush
    · exact h
  have hcounted := hready (h.update fun p => { p with records := p.records + 1 })
    s!"EMF+ {kind.name} ends a pending object early"
  unfold Stage.playRecord
  dsimp only
  cases Command.ofRecord kind flags payload with
  | error cause => exact hcounted.notes ..
  | ok c =>
      obtain ⟨hperformed, hfault⟩ := hcounted.perform scale c
      dsimp only
      -- the two results are alike and fail alike, whatever they are
      generalize Stage.perform scale (if kind ≠ .object && (s.update _).player.pending.isSome
        then _ else _) c = left at hperformed hfault ⊢
      generalize Stage.perform scale (if kind ≠ .object && (t.update _).player.pending.isSome
        then _ else _) c = right at hperformed hfault ⊢
      obtain ⟨left, leftFault⟩ := left
      obtain ⟨right, rightFault⟩ := right
      obtain rfl : leftFault = rightFault := hfault
      cases leftFault with
      | none => exact hperformed
      | some f => exact hperformed.notes ..

end Alike

/-! ### Comments -/

/-- A comment and the scale that it is played at. -/
structure Comment where
  scale : Float
  data : Bytes

/-- The comment with the bytes of some records. -/
def Comment.ofRecords (scale : Float) (rs : List (Kind × Nat × Bytes)) : Comment :=
  ⟨scale, rs.flatMap fun r => recordBytes r.1 r.2.1 r.2.2⟩

/-- In whatever way records are spread over comments, the comments have these records. -/
theorem Comment.records_ofRecords (scale : Float) (groups : List (List (Kind × Nat × Bytes)))
    (h : ∀ r ∈ groups.flatten, r.2.1 < 0x10000 ∧ headerBytes + r.2.2.length < 0x100000000) :
    (groups.map (Comment.ofRecords scale)).flatMap (fun c => Assembly.records c.data) =
      groups.flatten := by
  induction groups with
  | nil => rfl
  | cons group rest ih =>
      have hgroup : Assembly.records (Comment.ofRecords scale group).data = group :=
        Assembly.records_flatMap group fun r hr => h r (List.mem_append_left _ hr)
      rw [List.map_cons, List.flatMap_cons, hgroup,
        ih fun r hr => h r (List.mem_append_right _ hr), List.flatten_cons]

/-- A record and the scale that it is played at. -/
structure Cue where
  scale : Float
  kind : Kind
  flags : Nat
  payload : Bytes

/-- The records of a comment. -/
def Comment.cues (c : Comment) : List Cue :=
  (Assembly.records c.data).map fun r => ⟨c.scale, r.1, r.2.1, r.2.2⟩

/-- Plays comments, one after the other. -/
def playAll (verbose : Bool) (comments : List Comment) (s : Stage) : Stage :=
  comments.foldl (fun s c => s.play verbose c.scale c.data) s

/-- Plays records, one after the other. -/
def playCues (cues : List Cue) (s : Stage) : Stage :=
  cues.foldl (fun s q => s.playRecord q.scale q.kind q.flags q.payload) s

/-- Records are played one after the other, so those behind start from where those before end. -/
theorem playCues_append (before after : List Cue) (s : Stage) :
    s.playCues (before ++ after) = (s.playCues before).playCues after :=
  List.foldl_append

/-- Playing a comment is playing its records. -/
theorem Alike.play {s t : Stage} (h : Alike s t) (verbose : Bool) (c : Comment) :
    Alike (s.play verbose c.scale c.data) (t.playCues c.cues) := by
  rw [Comment.cues, playCues, List.foldl_map]
  exact playFrom_foldl (R := fun t s => Alike s t) (fun _ _ _ _ h => h.note_left ..)
    (fun _ _ r h => h.playRecord c.scale r.1 r.2.1 r.2.2) h verbose 0 c.data

/-- Playing comments is playing their records, one after the other. -/
theorem Alike.playAll {s t : Stage} (h : Alike s t) (verbose : Bool) (comments : List Comment) :
    Alike (s.playAll verbose comments) (t.playCues (comments.flatMap Comment.cues)) := by
  induction comments generalizing s t with
  | nil => exact h
  | cons c rest ih =>
      rw [List.flatMap_cons, playCues_append]
      exact ih (h.play verbose c)

/-- The borders between comments leave no trace. -/
theorem playAll_alike (verbose : Bool) (comments : List Comment) (s : Stage) :
    Alike (s.playAll verbose comments) (s.playCues (comments.flatMap Comment.cues)) :=
  Alike.playAll (.refl s) verbose comments

end Stage

end Metafile.Plus
