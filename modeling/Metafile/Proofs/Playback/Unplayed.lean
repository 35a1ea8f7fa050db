import Metafile.Proofs.Playback.Alike

/-!
# `Metafile.Proofs.Playback.Unplayed`: records that nothing is done about

Records of most kinds are played. Those that say how a path is painted are not played, but the
survey takes note of them. What is left is `Entry.isUnplayed`: records of the other kinds, records
of no kind at all, and comments without EMF+ records, or all comments if EMF+ records are not
drawn.

The survey has something to say about some of them too. It notes where a path is widened, and it
counts comments. `Entry.inert_of_isUnplayed` states that none of this is ever used, so the
unplayed records can be left out of a stream, in `convert_without_unplayed`.
-/

set_option autoImplicit false

namespace Metafile.Record

/-! ### Unplayed records -/

/-- Whether records of a kind are played. -/
def Kind.isPlayed : Kind → Bool
  -- the document
  | .header | .endOfFile
  -- shapes
  | .polyBezier | .polyBezier16 | .polyBezierTo | .polyBezierTo16 | .polygon | .polygon16
  | .polyline | .polyline16 | .polylineTo | .polylineTo16 | .polyPolygon | .polyPolygon16
  | .polyPolyline | .polyPolyline16 | .polyDraw | .polyDraw16 | .lineTo | .rectangle | .roundRect
  | .ellipse | .arc | .arcTo | .chord | .pie | .angleArc
  -- brackets
  | .beginPath | .endPath | .closeFigure | .abortPath | .flattenPath
  -- the context
  | .setMapMode | .setBackgroundMode | .setPolyFillMode | .setRasterOperation | .setStretchMode
  | .setTextAlign | .setTextColor | .setBackgroundColor | .setArcDirection | .setMiterLimit
  | .setLayout | .setWindowExtent | .setWindowOrigin | .setViewportExtent | .setViewportOrigin
  | .scaleWindowExtent | .scaleViewportExtent | .moveTo | .saveContext | .restoreContext
  | .setWorldTransform | .modifyWorldTransform
  -- tools
  | .createPen | .createExtendedPen | .createBrush | .createMonoBrush | .createPatternBrush
  | .createFont | .selectObject | .deleteObject
  -- clip regions
  | .intersectClipRect | .excludeClipRect | .selectClipPath | .offsetClipRegion
  | .selectClipRegion
  -- pictures, texts and comments
  | .bitBlt | .stretchBlt | .stretchBits | .alphaBlend | .textOutNarrow | .textOutWide
  | .smallTextOut | .comment => true
  | _ => false

/-- Whether records of a kind say how the last path is painted. -/
def Kind.paintsPath : Kind → Bool
  | .fillPath | .strokePath | .strokeAndFillPath => true
  | _ => false

/-- Whether a record is neither played nor says how a path is painted, where EMF+ records are
drawn or not. -/
def Entry.isUnplayed (plus : Bool) (e : Entry) : Bool :=
  match e.kind? with
  | none => true
  | some .comment => !(plus && isPlusComment e.body)
  | some kind => !kind.isPlayed && !kind.paintsPath

/-- A record of a kind that is not played asks for nothing, whatever follows its header. -/
theorem Command.ofRecord_of_unplayed (plus : Bool) {kind : Kind} {body : Bytes}
    (h : kind.isPlayed = false) (hheader : headerBytes ≤ body.length) :
    Command.ofRecord plus kind body = .ok .nothing := by
  have hpassed : (do Cursor.seek headerBytes; return .nothing : Decode Command).first body =
      .ok .nothing := by
    rw [Decode.first_seek_bind, Decode.from_of_le hheader]
    rfl
  cases kind <;> first | contradiction | exact hpassed

namespace Walk

variable {e : Entry} {kind : Kind}

/-- A change without effect on a path has no effect on a walk. -/
theorem effect_amend_self {f : PathUse → PathUse} (h : ∀ p, (f p).effect = p.effect) (w : Walk) :
    (w.amend f).effect = w.effect := by
  have hamended : (w.amend f).effect = (w.amend id).effect :=
    effect_amend rfl fun p p' hp => (h p').trans hp
  rwa [amend_id (f := id) fun _ => rfl] at hamended

/-- Besides comments, records of a kind that is not played have no effect on the walk, unless they
paint a path. -/
theorem note_of_unplayed (hkind : e.kind? = some kind) (hplayed : kind.isPlayed = false)
    (hpaints : kind.paintsPath = false) (w : Walk) :
    (w.note e).map effect = .ok w.effect := by
  -- a kind that is not played paints no path, changes no transform and draws nothing
  have hkeeps (p : PathUse) : (p.note e.offset kind).effect = p.effect := by
    unfold PathUse.note
    split <;> first | rfl | cases hpaints
  have htransform : (kind == .setWorldTransform || kind == .modifyWorldTransform) = false := by
    cases kind <;> first | rfl | cases hplayed
  have hdraws : kind.drawsGeometry = false := by
    cases kind <;> first | rfl | cases hplayed
  unfold note
  rw [hkind]
  split
  · contradiction
  · rename_i heq
    obtain rfl := Option.some.inj heq
    cases hplayed
  · rename_i heq
    obtain rfl := Option.some.inj heq
    cases hplayed
  · rename_i heq
    obtain rfl := Option.some.inj heq
    cases hplayed
  · rename_i heq
    obtain rfl := Option.some.inj heq
    rw [htransform, hdraws, Bool.and_false, if_neg Bool.false_ne_true, if_neg Bool.false_ne_true]
    exact congrArg Except.ok (effect_amend_self hkeeps w)

end Walk

/-- An unplayed record says nothing. -/
theorem Entry.inert_of_isUnplayed {plus : Bool} {e : Entry} (h : e.isUnplayed plus = true)
    (hheader : headerBytes ≤ e.body.length) : Inert plus e := by
  -- a code that is not known, a comment that is skipped, or a kind that is never played
  unfold isUnplayed at h
  split at h
  · rename_i hkind
    refine ⟨?_, by simp [hkind], by simp [hkind], fun w => ?_⟩
    · unfold command
      rw [hkind]
    · unfold Walk.note
      rw [hkind]
      rfl
  · rename_i hkind
    refine ⟨?_, by simp [hkind], by simp [hkind], fun w => ?_⟩
    · unfold command Command.ofRecord Command.isSkipped
      rw [hkind]
      dsimp only
      rw [h, beq_self_eq_true, Bool.true_and, if_pos rfl]
    · unfold Walk.note
      rw [hkind]
      rfl
  · rename_i kind _ hkind
    rw [Bool.and_eq_true, Bool.not_eq_true', Bool.not_eq_true'] at h
    obtain ⟨hplayed, hpaints⟩ := h
    refine ⟨?_, ?_, ?_, Walk.note_of_unplayed hkind hplayed hpaints⟩
    · unfold command
      rw [hkind]
      exact Command.ofRecord_of_unplayed plus hplayed hheader
    · rw [hkind]
      rintro ⟨⟩
      cases hplayed
    · rw [hkind]
      rintro ⟨⟩
      cases hplayed

/-- What is kept of some records says the same as all of them, where only unplayed records are not
kept. The places of the records that are kept shift. -/
theorem counterparts_filter {plus : Bool} {keep : Entry → Bool} (records : List Bytes)
    (offset offset' : Nat) (hmeasured : ∀ record ∈ records, Measured record)
    (h : ∀ e ∈ placed offset records, keep e = false → e.isUnplayed plus = true) :
    Counterparts plus (placed offset records)
      (placed offset' (((placed offset records).filter keep).map Entry.body)) := by
  induction records generalizing offset offset' with
  | nil => exact .nil
  | cons record rest ih =>
      rw [placed] at h ⊢
      obtain ⟨hrecord, hmeasured⟩ := List.forall_mem_cons.1 hmeasured
      obtain ⟨hfirst, hrest⟩ := List.forall_mem_cons.1 h
      cases hkeep : keep ⟨offset, codeOf record, record⟩ with
      | true =>
          rw [List.filter_cons_of_pos hkeep, List.map_cons, placed]
          exact .both (.of_same plus rfl rfl) (ih _ _ hmeasured hrest)
      | false =>
          rw [List.filter_cons_of_neg (by rw [hkeep]; exact Bool.false_ne_true)]
          exact .idle (Entry.inert_of_isUnplayed (hfirst hkeep) hrecord.header)
            (ih _ _ hmeasured hrest)

/-! ### Comments -/

/-- Only a comment that holds EMF+ records asks for EMF+ records to be played, and only if they
are drawn. -/
theorem Command.ofRecord_plus {plus : Bool} {kind : Kind} {body records : Bytes}
    (h : Command.ofRecord plus kind body = .ok (.plus records)) :
    kind = .comment ∧ plus = true ∧ isPlusComment body = true := by
  have hread : (decode kind body.length).Yields
      fun c => ∀ records, c = .plus records → kind = .comment := by
    unfold decode decodeFields
    simp only [penCommand, extendedPenCommand, brushCommand, patternCommand, fontCommand,
      regionCommand, labelCommand, smallLabelCommand]
    -- whatever is read before it, the command comes last
    repeat first
      | exact Decode.yields_pure fun _ _ => rfl
      | exact Decode.yields_pure fun _ hc => by cases hc
      | refine Decode.yields_bind fun _ => ?_
      | split
  unfold ofRecord at h
  split at h
  · cases h
  · rename_i hskipped
    obtain rfl := hread.first h records rfl
    unfold isSkipped at hskipped
    rw [beq_self_eq_true, Bool.true_and, Bool.not_eq_true', Bool.not_eq_false,
      Bool.and_eq_true] at hskipped
    exact ⟨rfl, hskipped⟩

/-- The walk remembers whether a comment held EMF+ records. -/
theorem Walk.hasPlus_observe {w v : Walk} {e : Entry} (h : w.observe e = .ok v)
    (hplus : v.hasPlus = false) :
    w.hasPlus = false ∧ (e.kind? = some .comment → isPlusComment e.body = false) := by
  have hamend (f : PathUse → PathUse) (u : Walk) : (u.amend f).hasPlus = u.hasPlus := by
    unfold amend
    split <;> rfl
  replace h := note_of_observe h
  unfold note at h
  split at h
  case h_1 hkind | h_2 hkind | h_3 hkind =>
    -- a record without a kind and the two ends of a bracket
    obtain rfl := Except.ok.inj h
    exact ⟨hplus, by simp [hkind]⟩
  case h_4 =>
    obtain rfl := Except.ok.inj h
    obtain ⟨hbefore, hcomment⟩ := Bool.or_eq_false_iff.1 hplus
    exact ⟨hbefore, fun _ => hcomment⟩
  case h_5 kind _ _ hcomment hkind =>
    have hother : e.kind? = some .comment → isPlusComment e.body = false := fun heq =>
      absurd (Option.some.inj (hkind ▸ heq)) hcomment
    split at h
    · split at h
      · obtain rfl := Except.ok.inj h
        rw [hamend] at hplus
        exact ⟨hplus, hother⟩
      · cases h
    · split at h
      · obtain rfl := Except.ok.inj h
        exact ⟨hplus, hother⟩
      · obtain rfl := Except.ok.inj h
        rw [hamend] at hplus
        exact ⟨hplus, hother⟩

/-- Once EMF+ records were found the walk does not forget it, so a walk that found none met none.
-/
theorem Walk.hasPlus_foldlM {entries : List Entry} {w v : Walk}
    (h : entries.foldlM observe w = .ok v) (hplus : v.hasPlus = false) :
    w.hasPlus = false ∧
      ∀ e ∈ entries, e.kind? = some .comment → isPlusComment e.body = false := by
  induction entries generalizing w with
  | nil =>
      obtain rfl := Except.ok.inj h
      exact ⟨hplus, by simp⟩
  | cons e rest ih =>
      obtain ⟨u, hu, hafter⟩ := foldlM_observe_cons h
      obtain ⟨hrest, hall⟩ := ih hafter
      obtain ⟨hfirst, hcomment⟩ := hasPlus_observe hu hrest
      exact ⟨hfirst, List.forall_mem_cons.2 ⟨hcomment, hall⟩⟩

/-- If the survey has found no EMF+ records, no comment holds any. -/
theorem Survey.comment_of_hasPlus {stream : Bytes} {survey : Survey}
    (h : Survey.ofBytes stream = .ok survey) (hplus : survey.hasPlus = false) {e : Entry}
    (he : e ∈ survey.entries) (hkind : e.kind? = some .comment) :
    isPlusComment e.body = false := by
  obtain ⟨hcut, w, hwalk, _⟩ := ofBytes_eq_ok h
  have hsurvey : Survey.ofBytes stream = .ok ⟨survey.entries, w.paths.reverse, w.hasPlus⟩ := by
    rw [ofBytes, hcut]
    simp only [hwalk]
    rfl
  have hwalked : survey.hasPlus = w.hasPlus :=
    congrArg Survey.hasPlus (Except.ok.inj (h.symm.trans hsurvey))
  rw [hwalked] at hplus
  exact (Walk.hasPlus_foldlM hwalk hplus).2 e he hkind

end Metafile.Record

namespace Metafile.Playback

open Metafile.Record (Command Entry Kind Matches Survey isPlusComment)

/-- Where no comment holds EMF+ records, every record asks for the same whether they are drawn or
not, and none asks for EMF+ records to be played. -/
theorem command_of_no_plus {stream : Bytes} {survey : Survey}
    (h : Survey.ofBytes stream = .ok survey) (hplus : survey.hasPlus = false) {e : Entry}
    (he : e ∈ survey.entries) (plus plus' : Bool) :
    e.command plus' = e.command plus ∧ ∀ records, e.command plus ≠ .ok (.plus records) := by
  have hcomment := Survey.comment_of_hasPlus h hplus he
  unfold Entry.command
  cases hkind : e.kind? with
  | none => exact ⟨rfl, fun records => by simp⟩
  | some kind =>
      -- the option only decides whether comments are skipped, and here all of them are
      have hskipped (plus : Bool) :
          Command.isSkipped plus kind e.body = (kind == .comment) := by
        unfold Command.isSkipped
        by_cases heq : kind = .comment
        · subst heq
          rw [hcomment hkind, Bool.and_false, Bool.not_false, Bool.and_true]
        · rw [beq_false_of_ne heq, Bool.false_and]
      refine ⟨?_, fun records heq => ?_⟩
      · dsimp only
        unfold Command.ofRecord
        rw [hskipped plus, hskipped plus']
      · obtain ⟨rfl, _, hholds⟩ := Command.ofRecord_plus heq
        rw [hcomment hkind] at hholds
        cases hholds

/-- Unplayed records are invisible. Any of them can be left out of an accepted stream, and any
bytes may follow its end record: the stream is still accepted and gives the same picture, which is
complete if it was before. Where the survey has found no EMF+ records it does not matter whether
they are drawn. -/
theorem convert_without_unplayed (setup : Setup) {stream : Bytes} {survey : Survey}
    (h : Survey.ofBytes stream = .ok survey) :
    (∀ keep : Entry → Bool,
      (∀ e ∈ survey.entries, keep e = false → e.isUnplayed setup.options.plus = true) →
      ∀ tail, ∃ c log log', convert setup stream = .ok (c, log) ∧
        convert setup ((survey.entries.filter keep).flatMap Entry.body ++ tail) = .ok (c, log')) ∧
    (survey.hasPlus = false → ∀ plus, ∃ c log log', convert setup stream = .ok (c, log) ∧
      convert { setup with options := { setup.options with plus } } stream = .ok (c, log')) := by
  refine ⟨fun keep hkeep tail => ?_, fun hplus plus => ?_⟩
  · -- what is left over is framed in the same way, and asks for the same
    obtain ⟨records, rest, _, hframed, hentries⟩ := Survey.framed_of_ofBytes h
    rw [hentries] at hkeep
    have hsame := Record.counterparts_filter records 0 0 hframed.measured hkeep
    rw [← hentries] at hsame
    rw [List.flatMap_def]
    refine convert_of_counterparts setup h (fun record hrecord => ?_) hsame tail
    obtain ⟨e, he, rfl⟩ := List.mem_map.1 hrecord
    refine hframed.measured _ ?_
    rw [← Record.map_body_placed 0 records, ← hentries]
    exact List.mem_map_of_mem (List.mem_filter.1 he).1
  · -- without comments the option is never looked at
    have hsame : Matches (State.SameRequest setup.options.plus plus)
        (fun e => e.command setup.options.plus = .ok .nothing) survey.entries survey.entries :=
      .self fun e he => congrArg Except.toOption (command_of_no_plus h hplus he _ _).1
    have hplayed := (play_alike setup hsame (SameView.refl id setup.encode) rfl
      (.inr fun e he => (command_of_no_plus h hplus he _ plus).2)).ofState_eq setup.options plus
    refine ⟨_, _, (Conversion.ofSurvey (setup.vary plus setup.encode) survey).2,
      convert_of_accepted setup h, ?_⟩
    rw [convert_of_accepted _ h]
    exact congrArg Except.ok (Prod.ext hplayed rfl)

/-- A line in a path that is widened, between a pixel, a comment of another program and a record
of a kind that the format does not define. -/
def interleavedRecords : List Bytes :=
  [Kind.header.record (List.replicate 80 0), Kind.setPixel.record (List.replicate 12 0),
    Kind.beginPath.record [], Bytes.ofNat 4 200 ++ Bytes.ofNat 4 8,
    Kind.lineTo.record (Bytes.ofNat 4 30 ++ Bytes.ofNat 4 40), Kind.endPath.record [],
    Kind.comment.record (Bytes.ofNat 4 4 ++ [71, 68, 73, 67]), Kind.widenPath.record [],
    Kind.strokePath.record [], Kind.endOfFile.record []]

/-- What is left of the line without the records that are not played. -/
def playedRecords : List Bytes :=
  [Kind.header.record (List.replicate 80 0), Kind.beginPath.record [],
    Kind.lineTo.record (Bytes.ofNat 4 30 ++ Bytes.ofNat 4 40), Kind.endPath.record [],
    Kind.strokePath.record [], Kind.endOfFile.record []]

/-- The line is the same without them, and whether EMF+ records are drawn or not. -/
theorem convert_interleaved :
    (∃ c log log', convert .plain interleavedRecords.flatten = .ok (c, log) ∧
      convert .plain (playedRecords.flatten ++ [1, 2, 3]) = .ok (c, log')) ∧
    ∃ c log log', convert .plain interleavedRecords.flatten = .ok (c, log) ∧
      convert { Setup.plain with options := { Setup.plain.options with plus := false } }
        interleavedRecords.flatten = .ok (c, log') := by
  have haccepted := Survey.ofBytes_ofStream
    (by decide +kernel : (Survey.ofBytes interleavedRecords.flatten).isOk = true)
  have hinvisible := convert_without_unplayed .plain haccepted
  have hkept : ((Survey.ofStream interleavedRecords.flatten).entries.filter
      fun e => !e.isUnplayed Setup.plain.options.plus).flatMap Entry.body =
        playedRecords.flatten := by decide +kernel
  refine ⟨?_, hinvisible.2 (by decide +kernel) false⟩
  rw [← hkept]
  exact hinvisible.1 _ (fun e _ hdropped => by simpa using hdropped) [1, 2, 3]

end Metafile.Playback
