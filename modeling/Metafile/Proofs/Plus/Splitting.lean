import Metafile.Proofs.Plus.Reassembly

/-!
# `Metafile.Proofs.Plus.Splitting`: an object in pieces is the object in one piece

A writer may cut the content of an object into pieces and put them into several records, which may
stand in several comments. Each piece but the last carries the continuation flag and the total;
the last one may carry them too. `Stage.playAll_split` states that a player makes no difference
between that and one record with the whole content, whatever else it holds, unless an object of
the same type and number is already pending.

`Player.Settles` compares players in everything but the pending object and the count of records.
It is what is carried through the pieces: until the last one nothing changes but the pending
object.
-/

set_option autoImplicit false

namespace Metafile.Plus

/-! ### Records in pieces -/

/-- The flags of a record about an object. -/
def objectFlags (continued : Bool) (type id : Nat) : Nat :=
  (if continued then 0x8000 else 0) + (0x100 * type + id)

/-- A record with the whole content of an object, or with its last piece. -/
def wholeRecord (type id : Nat) (content : Bytes) : Kind × Nat × Bytes :=
  (.object, objectFlags false type id, content)

/-- A record with a piece of an object, after the total. -/
def pieceRecord (type id total : Nat) (content : Bytes) : Kind × Nat × Bytes :=
  (.object, objectFlags true type id, Bytes.ofNat 4 total ++ content)

/-- The records of an object in pieces. The last piece stands alone if it is bare, and in the form
of the others if not. -/
def splitRecords (type id total : Nat) (pieces : List Bytes) (last : Bytes) (bare : Bool) :
    List (Kind × Nat × Bytes) :=
  pieces.map (pieceRecord type id total) ++
    [if bare then wholeRecord type id last else pieceRecord type id total last]

section

variable {type id total : Nat}

/-- The highest bit of the flags says whether more of the object follows. -/
theorem hasFlag_objectFlags (htype : type < 0x80) (hid : id < 0x100) (continued : Bool) :
    hasFlag (objectFlags continued type id) 0x8000 = continued := by
  unfold hasFlag
  cases continued with
  | false =>
      have hclear : objectFlags false type id / 0x8000 % 2 = 0 := by
        show (0 + (0x100 * type + id)) / 0x8000 % 2 = 0
        omega
      rw [hclear]
      rfl
  | true =>
      have hset : objectFlags true type id / 0x8000 % 2 = 1 := by
        show (0x8000 + (0x100 * type + id)) / 0x8000 % 2 = 1
        omega
      rw [hset]
      rfl

/-- The type of the object is found in the flags again. -/
theorem type_objectFlags (htype : type < 0x80) (hid : id < 0x100) (continued : Bool) :
    objectFlags continued type id / 0x100 % 0x80 = type := by
  unfold objectFlags
  split <;> omega

/-- The number of the object is found in the lowest byte of the flags again. -/
theorem objectId_objectFlags (hid : id < 0x100) (continued : Bool) :
    objectId (objectFlags continued type id) = id := by
  unfold objectId objectFlags
  split <;> omega

/-- A whole content is read as such. -/
theorem Command.ofRecord_whole (htype : type < 0x80) (hid : id < 0x100) (content : Bytes) :
    ofRecord .object (objectFlags false type id) content =
      .ok (.object type id (.last content)) := by
  rw [ofRecord_object, hasFlag_objectFlags htype hid, type_objectFlags htype hid,
    objectId_objectFlags hid, if_neg Bool.false_ne_true]

/-- A piece is read with the total before it. -/
theorem Command.ofRecord_piece (htype : type < 0x80) (hid : id < 0x100)
    (htotal : total < 0x100000000) (content : Bytes) :
    ofRecord .object (objectFlags true type id) (Bytes.ofNat 4 total ++ content) =
      .ok (.object type id (.part total content)) := by
  have hlength := Bytes.length_ofNat 4 total
  have hread : Bytes.toNat (Bytes.ofNat 4 total) = total := Bytes.toNat_ofNat htotal
  have hroom : 4 ≤ (Bytes.ofNat 4 total ++ content).length := by
    rw [List.length_append]
    omega
  rw [ofRecord_object, hasFlag_objectFlags htype hid, type_objectFlags htype hid,
    objectId_objectFlags hid, if_pos rfl, if_pos hroom, List.take_left' hlength,
    List.drop_left' hlength, hread]

end

/-! ### What is stored meanwhile -/

namespace Stage

/-- The player without what is pending and without the count of its records. -/
def settled (s : Stage) : Player := { s.player with pending := none, records := 0 }

/-- What storing a content makes of a player. -/
def placed (p : Player) (d : Delivery) : Player :=
  match Object.ofBytes d.type d.content with
  | .ok o => { p with objects := p.objects.setIfInBounds d.id (some o) }
  | .error _ => p

/-- What giving up the pending object stores. -/
def given (s : Stage) : List Delivery :=
  (s.player.pending.map fun p => ⟨p.type, p.id, p.content⟩).toList

/-- From one stage to another some contents were stored and some records counted, and besides at
most messages were left and the pending object was changed. -/
structure Leads (stored : List Delivery) (n : Nat) (s t : Stage) : Prop where
  settled : t.settled = stored.foldl placed s.settled
  drawn : t.drawn = s.drawn
  records : t.player.records = s.player.records + n

namespace Leads

variable {stored more : List Delivery} {n m : Nat} {s t u : Stage}

/-- A stage leads to itself. -/
theorem refl (s : Stage) : Leads [] 0 s s := ⟨rfl, rfl, rfl⟩

/-- What is stored and counted on two ways adds up. -/
theorem trans (h : Leads stored n s t) (k : Leads more m t u) :
    Leads (stored ++ more) (n + m) s u where
  settled := by rw [k.settled, h.settled, List.foldl_append]
  drawn := k.drawn.trans h.drawn
  records := by rw [k.records, h.records, Nat.add_assoc]

/-- A record that is counted and nothing else. -/
theorem counted (s : Stage) :
    Leads [] 1 s (s.update fun p => { p with records := p.records + 1 }) :=
  ⟨rfl, rfl, rfl⟩

/-- Which object is pending does not count on the way. -/
theorem await (h : Leads stored n s t) (pending : Gather) :
    Leads stored n s (t.update fun p => { p with pending }) :=
  ⟨h.settled, h.drawn, h.records⟩

/-- A content is stored, or it cannot be read and is none. Both are what `placed` says. -/
theorem store (s : Stage) (type id : Nat) (content : Bytes) :
    Leads [⟨type, id, content⟩] 0 s (s.store type id content) := by
  unfold Stage.store
  cases hread : Object.ofBytes type content with
  | ok o =>
      refine ⟨?_, rfl, rfl⟩
      rw [List.foldl_cons, List.foldl_nil, placed, hread]
      rfl
  | error cause =>
      refine ⟨?_, rfl, rfl⟩
      rw [List.foldl_cons, List.foldl_nil, placed, hread]
      rfl

/-- The pending object is stored when it is given up. -/
theorem flush (s : Stage) : Leads s.given 0 s s.flush := by
  unfold Stage.flush given
  cases s.player.pending with
  | none => exact ⟨rfl, rfl, rfl⟩
  | some p =>
      exact ((refl s).await none).trans (store _ p.type p.id p.content)

/-- An object that is complete is stored. -/
theorem complete (h : Leads stored n s t) (p : Pending) :
    Leads (stored ++ [⟨p.type, p.id, p.content⟩]) n s
      (t.update fun q => { q with pending := some p }).flush :=
  (h.await (some p)).trans (flush _)

/-- Two stages with the same stored contents have equal players, if nothing is pending. -/
theorem player_eq (h : Leads stored n s t) (k : Leads stored m s u)
    (ht : t.player.pending = none) (hu : u.player.pending = none) :
    { t.player with records := 0 } = { u.player with records := 0 } := by
  have hsettled {v : Stage} (hv : v.player.pending = none) :
      { v.player with records := 0 } = v.settled := by
    rw [Stage.settled, ← hv]
  rw [hsettled ht, hsettled hu, h.settled, k.settled]

end Leads

/-! ### Playing pieces -/

/-- A record about an object is counted, and its piece is taken. -/
theorem playRecord_object {type id flags : Nat} {payload : Bytes} {fragment : Fragment}
    (h : Command.ofRecord .object flags payload = .ok (.object type id fragment))
    (scale : Float) (s : Stage) :
    s.playRecord scale .object flags payload =
      (s.update fun p => { p with records := p.records + 1 }).receive type id fragment := by
  unfold playRecord
  rw [h]
  rfl

section

variable {type id : Nat}

/-- Nothing of the object with this type and number is pending. -/
def Apart (type id : Nat) (s : Stage) : Prop :=
  ∀ p, s.player.pending = some p → ¬(p.type = type ∧ p.id = id)

/-- A piece of an object is not put behind another pending object. -/
theorem Apart.append? {s : Stage} (h : Apart type id s) (content : Bytes) :
    s.player.pending.append? type id content = none := by
  unfold Gather.append?
  cases hpending : s.player.pending with
  | none => rfl
  | some p => exact if_neg (h p hpending)

/-- A piece of the pending object is added to what is there of it. -/
theorem append?_pending {s : Stage} {total : Nat} {there : Bytes}
    (h : s.player.pending = some ⟨type, id, total, there⟩) (content : Bytes) :
    s.player.pending.append? type id content = some ⟨type, id, total, there ++ content⟩ := by
  rw [h]
  exact if_pos ⟨rfl, rfl⟩

/-- A whole content is stored, after the object that was pending. -/
theorem Leads.receive_last {s : Stage} (h : Apart type id s) (content : Bytes) :
    Leads (s.given ++ [⟨type, id, content⟩]) 0 s (s.receive type id (.last content)) ∧
      (s.receive type id (.last content)).player.pending = none := by
  have hreceive : s.receive type id (.last content) = s.flush.store type id content := by
    simp only [receive, h.append? content]
  rw [hreceive]
  exact ⟨(flush s).trans (store _ type id content),
    (pending_store _ type id content).trans (pending_flush s)⟩

/-- The first piece is pending, if it does not have all the bytes that were announced. -/
theorem Leads.receive_first {s : Stage} (h : Apart type id s) {total : Nat} {content : Bytes}
    (hshort : content.length < total) :
    Leads s.given 0 s (s.receive type id (.part total content)) ∧
      (s.receive type id (.part total content)).player.pending =
        some ⟨type, id, total, content⟩ := by
  have hreceive : s.receive type id (.part total content) =
      s.flush.update fun p => { p with pending := some ⟨type, id, total, content⟩ } := by
    simp only [receive, h.append? content]
    exact if_neg fun hcomplete => Nat.not_le_of_lt hshort (of_decide_eq_true hcomplete)
  rw [hreceive]
  exact ⟨(flush s).await _, rfl⟩

/-- A first piece with all the bytes that were announced is a whole content. -/
theorem Leads.receive_only {s : Stage} (h : Apart type id s) (content : Bytes) :
    Leads (s.given ++ [⟨type, id, content⟩]) 0 s
        (s.receive type id (.part content.length content)) ∧
      (s.receive type id (.part content.length content)).player.pending = none := by
  have hreceive : s.receive type id (.part content.length content) =
      (s.flush.update fun p =>
        { p with pending := some ⟨type, id, content.length, content⟩ }).flush := by
    simp only [receive, h.append? content]
    exact if_pos (decide_eq_true (Nat.le_refl _))
  rw [hreceive]
  exact ⟨(flush s).complete ⟨type, id, content.length, content⟩, pending_flush _⟩

/-- A further piece is added to the pending object, as long as bytes are missing. -/
theorem Leads.receive_more {s : Stage} {total : Nat} {there content : Bytes}
    (h : s.player.pending = some ⟨type, id, total, there⟩)
    (hshort : (there ++ content).length < total) :
    Leads [] 0 s (s.receive type id (.part total content)) ∧
      (s.receive type id (.part total content)).player.pending =
        some ⟨type, id, total, there ++ content⟩ := by
  have hreceive : s.receive type id (.part total content) =
      s.update fun p => { p with pending := some ⟨type, id, total, there ++ content⟩ } := by
    simp only [receive, append?_pending h content]
    exact if_neg fun hcomplete => Nat.not_le_of_lt hshort (of_decide_eq_true hcomplete)
  rw [hreceive]
  exact ⟨(refl s).await _, rfl⟩

/-- The last piece completes the pending object, in either form. -/
theorem Leads.receive_final {s : Stage} {total : Nat} {there content : Bytes}
    (h : s.player.pending = some ⟨type, id, total, there⟩)
    (htotal : total = (there ++ content).length) {fragment : Fragment}
    (hfragment : fragment = .last content ∨ fragment = .part total content) :
    Leads [⟨type, id, there ++ content⟩] 0 s (s.receive type id fragment) ∧
      (s.receive type id fragment).player.pending = none := by
  have hreceive : s.receive type id fragment = (s.update fun p =>
      { p with pending := some ⟨type, id, total, there ++ content⟩ }).flush := by
    rcases hfragment with rfl | rfl
    · simp only [receive, append?_pending h content]
    · simp only [receive, append?_pending h content]
      exact if_pos (decide_eq_true (Nat.le_of_eq htotal))
  rw [hreceive]
  exact ⟨(refl s).complete ⟨type, id, total, there ++ content⟩,
    pending_flush _⟩

/-! ### Playing all pieces -/

/-- The kind, the flags and the payload of a record. -/
def Cue.record (q : Cue) : Kind × Nat × Bytes := (q.kind, q.flags, q.payload)

/-- The records of a comment, without the scale that they are played with. -/
theorem Comment.map_record (c : Comment) : c.cues.map Cue.record = Assembly.records c.data := by
  unfold Comment.cues
  rw [List.map_map]
  exact List.map_id _

/-- The records of comments, without their scales. -/
theorem map_record_cues (comments : List Comment) :
    (comments.flatMap Comment.cues).map Cue.record =
      comments.flatMap fun c => Assembly.records c.data := by
  rw [List.map_flatMap]
  exact List.flatMap_congr fun c _ => c.map_record

/-- Plays one record. -/
def playCue (q : Cue) (s : Stage) : Stage := s.playRecord q.scale q.kind q.flags q.payload

/-- A record with the whole content is counted, and the content is taken as the last piece. -/
theorem playCue_whole (htype : type < 0x80) (hid : id < 0x100) {q : Cue} {content : Bytes}
    (hq : q.record = wholeRecord type id content) (s : Stage) :
    s.playCue q =
      (s.update fun p => { p with records := p.records + 1 }).receive type id
        (.last content) := by
  obtain ⟨scale, kind, flags, payload⟩ := q
  obtain ⟨rfl, rfl, rfl⟩ : kind = .object ∧ flags = objectFlags false type id ∧
      payload = content := by simpa [Cue.record, wholeRecord] using hq
  exact playRecord_object (Command.ofRecord_whole htype hid payload) scale s

/-- A record with a piece is counted, and the piece is taken with the total. -/
theorem playCue_piece (htype : type < 0x80) (hid : id < 0x100) {total : Nat}
    (htotal : total < 0x100000000) {q : Cue} {content : Bytes}
    (hq : q.record = pieceRecord type id total content) (s : Stage) :
    s.playCue q = (s.update fun p => { p with records := p.records + 1 }).receive type id
      (.part total content) := by
  obtain ⟨scale, kind, flags, payload⟩ := q
  obtain ⟨rfl, rfl, rfl⟩ : kind = .object ∧ flags = objectFlags true type id ∧
      payload = Bytes.ofNat 4 total ++ content := by simpa [Cue.record, pieceRecord] using hq
  exact playRecord_object (Command.ofRecord_piece htype hid htotal content) scale s

/-- The last piece, in either form. -/
theorem playCue_last (htype : type < 0x80) (hid : id < 0x100) {total : Nat}
    (htotal : total < 0x100000000) {q : Cue} {content : Bytes} {bare : Bool}
    (hq : q.record = if bare then wholeRecord type id content
      else pieceRecord type id total content) :
    ∃ fragment, (fragment = .last content ∨ fragment = .part total content) ∧
      ∀ s : Stage, s.playCue q =
        (s.update fun p => { p with records := p.records + 1 }).receive type id fragment := by
  cases bare with
  | true => exact ⟨_, Or.inl rfl, playCue_whole htype hid hq⟩
  | false => exact ⟨_, Or.inr rfl, playCue_piece htype hid htotal hq⟩

/-- The pieces after the first one: nothing is stored before the last one, and then the content as
a whole. -/
theorem Leads.playPieces (htype : type < 0x80) (hid : id < 0x100) {total : Nat}
    (htotal : total < 0x100000000) {pieces : List Bytes} {last : Bytes} (hlast : last ≠ [])
    {bare : Bool} {cues : List Cue}
    (hcues : cues.map Cue.record = splitRecords type id total pieces last bare) {s : Stage}
    {there : Bytes} (hpending : s.player.pending = some ⟨type, id, total, there⟩)
    (hlength : total = (there ++ (pieces.flatten ++ last)).length) :
    Leads [⟨type, id, there ++ (pieces.flatten ++ last)⟩] (pieces.length + 1) s
        (s.playCues cues) ∧
      (s.playCues cues).player.pending = none := by
  induction pieces generalizing cues s there with
  | nil =>
      obtain ⟨q, rest, rfl, hq, hrest⟩ := List.map_eq_cons_iff.1 hcues
      obtain rfl := List.map_eq_nil_iff.1 hrest
      obtain ⟨fragment, hfragment, hplay⟩ := playCue_last htype hid htotal hq
      show Leads _ _ s (s.playCue q) ∧ (s.playCue q).player.pending = none
      rw [hplay]
      obtain ⟨hleads, hnone⟩ := receive_final
        (s := s.update fun p => { p with records := p.records + 1 }) hpending hlength hfragment
      exact ⟨(counted s).trans hleads, hnone⟩
  | cons piece pieces ih =>
      obtain ⟨q, rest, rfl, hq, hrest⟩ := List.map_eq_cons_iff.1 hcues
      have hplay := playCue_piece htype hid htotal hq s
      -- bytes are missing as long as the last piece is
      have hshort : (there ++ piece).length < total := by
        have hpositive := List.length_pos_of_ne_nil hlast
        rw [hlength]
        simp only [List.flatten_cons, List.length_append]
        omega
      obtain ⟨hleads, hmore⟩ := receive_more
        (s := s.update fun p => { p with records := p.records + 1 }) hpending hshort
      rw [← hplay] at hleads hmore
      obtain ⟨hrun, hnone⟩ := ih hrest hmore (by
        rw [hlength]
        simp only [List.flatten_cons, List.append_assoc])
      have hall := ((counted s).trans hleads).trans hrun
      rw [List.flatten_cons, ← List.append_assoc, ← List.append_assoc,
        List.append_assoc (there ++ piece)]
      refine ⟨?_, hnone⟩
      rw [List.length_cons, Nat.add_comm pieces.length 1, Nat.add_assoc]
      exact hall

/-- All pieces of an object: what was pending is stored, and then the content as a whole. -/
theorem Leads.playSplit (htype : type < 0x80) (hid : id < 0x100) {s : Stage}
    (hapart : Apart type id s) {pieces : List Bytes} {last : Bytes}
    (hlast : pieces ≠ [] → last ≠ []) {bare : Bool} {cues : List Cue}
    (hlength : (pieces.flatten ++ last).length < 0x100000000)
    (hcues : cues.map Cue.record =
      splitRecords type id (pieces.flatten ++ last).length pieces last bare) :
    Leads (s.given ++ [⟨type, id, pieces.flatten ++ last⟩]) (pieces.length + 1) s
        (s.playCues cues) ∧
      (s.playCues cues).player.pending = none := by
  have hcounted : Apart type id (s.update fun p => { p with records := p.records + 1 }) := hapart
  -- an object that is not cut arrives at once, otherwise its first piece sets it aside
  cases pieces with
  | nil =>
      obtain ⟨q, rest, rfl, hq, hrest⟩ := List.map_eq_cons_iff.1 hcues
      obtain rfl := List.map_eq_nil_iff.1 hrest
      obtain ⟨fragment, hfragment, hplay⟩ := playCue_last htype hid hlength hq
      show Leads _ _ s (s.playCue q) ∧ (s.playCue q).player.pending = none
      rw [hplay]
      rcases hfragment with rfl | rfl
      · obtain ⟨hleads, hnone⟩ := receive_last hcounted last
        exact ⟨(counted s).trans hleads, hnone⟩
      · obtain ⟨hleads, hnone⟩ := receive_only hcounted last
        exact ⟨(counted s).trans hleads, hnone⟩
  | cons first pieces =>
      obtain ⟨q, rest, rfl, hq, hrest⟩ := List.map_eq_cons_iff.1 hcues
      have hplay := playCue_piece htype hid hlength hq s
      have hrest' := hlast (List.cons_ne_nil _ _)
      -- the first piece is not all of the object, since the last one adds to it
      have hshort : first.length < (((first :: pieces).flatten) ++ last).length := by
        have hpositive := List.length_pos_of_ne_nil hrest'
        simp only [List.flatten_cons, List.length_append]
        omega
      obtain ⟨hleads, hfirst⟩ := receive_first hcounted hshort
      rw [← hplay] at hleads hfirst
      obtain ⟨hrun, hnone⟩ := playPieces htype hid hlength hrest' hrest hfirst (by
        rw [List.flatten_cons, List.append_assoc])
      have hall := ((counted s).trans hleads).trans hrun
      refine ⟨?_, hnone⟩
      rw [List.flatten_cons, List.append_assoc, List.length_cons, Nat.add_comm pieces.length 1,
        Nat.add_assoc]
      exact hall

end

/-- Splitting an object is invisible. Pieces of an object, in any number of comments, leave the
same player and the same drawing as one record with the whole content, and nothing is pending
afterwards; only the count of records tells them apart. This holds for every player, unless it has
already an object of this type and number pending. -/
theorem playAll_split (verbose : Bool) (s : Stage) {type id : Nat} (htype : type < 0x80)
    (hid : id < 0x100)
    (hapart : ∀ p, s.player.pending = some p → ¬(p.type = type ∧ p.id = id))
    (pieces : List Bytes) (last : Bytes) (hlast : pieces ≠ [] → last ≠ []) (bare : Bool)
    (comments : List Comment) (whole : Comment)
    (hsplit : comments.flatMap (fun c => Assembly.records c.data) =
      splitRecords type id (pieces.flatten ++ last).length pieces last bare)
    (hwhole : Assembly.records whole.data = [wholeRecord type id (pieces.flatten ++ last)]) :
    let split := s.playAll verbose comments
    let one := s.playAll verbose [whole]
    { split.player with records := 0 } = { one.player with records := 0 } ∧
      split.drawn = one.drawn ∧
      split.player.pending = none ∧ one.player.pending = none ∧
      split.player.records = s.player.records + (pieces.length + 1) ∧
      one.player.records = s.player.records + 1 := by
  intro split one
  have hmem : wholeRecord type id (pieces.flatten ++ last) ∈ Assembly.records whole.data := by
    rw [hwhole]
    exact List.mem_cons_self
  have hlength : (pieces.flatten ++ last).length < 0x100000000 := Assembly.length_payload_lt hmem
  -- one whole record is the case of no pieces before the last one
  have hsingle : whole.cues.map Cue.record = splitRecords type id
      (([] : List Bytes).flatten ++ (pieces.flatten ++ last)).length [] (pieces.flatten ++ last)
      true := whole.map_record.trans hwhole
  obtain ⟨hleads, hnone⟩ := Leads.playSplit htype hid hapart hlast hlength
    ((map_record_cues comments).trans hsplit)
  obtain ⟨hleads', hnone'⟩ := Leads.playSplit htype hid hapart (fun h => absurd rfl h) hlength
    hsingle
  have halike : Alike split (s.playCues (comments.flatMap Comment.cues)) :=
    playAll_alike verbose comments s
  have halike' : Alike one (s.playCues whole.cues) := by
    have hone := playAll_alike verbose [whole] s
    rwa [List.flatMap_cons, List.flatMap_nil, List.append_nil] at hone
  rw [halike.player, halike.drawn, halike'.player, halike'.drawn]
  exact ⟨hleads.player_eq hleads' hnone hnone', hleads.drawn.trans hleads'.drawn.symm, hnone,
    hnone', hleads.records, hleads'.records⟩

/-- A brush in three pieces and two comments, while a pen is pending that never becomes complete.
-/
theorem playAll_split_brush :
    let s : Stage := ⟨{ Player.initial with pending := some ⟨2, 7, 64, [1, 2, 3]⟩ }, #[], #[]⟩
    let first := [pieceRecord 1 3 12 [0x02, 0x10, 0xC0, 0xDB], pieceRecord 1 3 12 [0, 0, 0, 0]]
    let second := [wholeRecord 1 3 [0x56, 0x34, 0x12, 0xFF]]
    let whole := [wholeRecord 1 3 [0x02, 0x10, 0xC0, 0xDB, 0, 0, 0, 0, 0x56, 0x34, 0x12, 0xFF]]
    let split := s.playAll false [Comment.ofRecords 1 first, Comment.ofRecords 1 second]
    let one := s.playAll false [Comment.ofRecords 1 whole]
    { split.player with records := 0 } = { one.player with records := 0 } ∧
      split.drawn = one.drawn ∧
      split.player.pending = none ∧ one.player.pending = none ∧
      split.player.records = 3 ∧ one.player.records = 1 := by
  intro s first second whole split one
  have hapart : ∀ p, s.player.pending = some p → ¬(p.type = 1 ∧ p.id = 3) := by
    intro p hp
    rw [← Option.some.inj hp]
    decide
  have hsplit := Comment.records_ofRecords 1 [first, second] (by decide)
  have hwhole := Comment.records_ofRecords 1 [whole] (by decide)
  rw [List.map_singleton, List.flatMap_singleton] at hwhole
  exact playAll_split false s (by decide) (by decide) hapart
    [[0x02, 0x10, 0xC0, 0xDB], [0, 0, 0, 0]] [0x56, 0x34, 0x12, 0xFF] (by decide) true
    [Comment.ofRecords 1 first, Comment.ofRecords 1 second] (Comment.ofRecords 1 whole) hsplit
    hwhole

end Stage

end Metafile.Plus
