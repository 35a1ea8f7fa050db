import Metafile.Proofs.Playback.Sorts
import Metafile.Proofs.Record.Refusals

/-!
# `Metafile.Proofs.Playback.Outcome`: how a conversion ends

A conversion is refused before anything is drawn, or it gives a document. Playing can stop at a
record, but that is no reason to refuse: `Ends` lists the two ends that there are. All records
were played, or one of them could not be done and the picture is left as incomplete.

`convert_error_iff` states that the survey of the stream is the only reason to refuse it, whatever
the records hold and whatever the encoder of the pictures answers. The conversion would pass on
any fault of a record that is not out of bounds, and any fault of the survey, but the first kind
does not occur (`State.next_bounded`), and the second is structural (`Survey.ofBytes_eq_error`).
`convert_iff_framed` says which streams are accepted, by the shape of their records.
-/

set_option autoImplicit false

namespace Metafile.Playback

open Metafile.Record (Entry Framed Kind PathUse Survey headerBytes placed)

/-! ### The end of the playing -/

/-- Records are played one after the other, up to the last of them or to the first that cannot be
done. -/
theorem State.steps_outcome (setup : Setup) (uses : List PathUse) (entries : List Entry)
    (s : State) :
    (∃ t, s.steps setup uses entries = (t, none)) ∨
      ∃ earlier e later t u fault, entries = earlier ++ e :: later ∧
        s.steps setup uses earlier = (t, none) ∧ t.next setup uses e = (u, some fault) ∧
        s.steps setup uses entries = (u, some (e, fault)) := by
  induction entries generalizing s with
  | nil => exact .inl ⟨s, rfl⟩
  | cons first rest ih =>
      cases hfirst : s.next setup uses first with
      | mk v failed =>
          cases failed with
          | some fault =>
              have hstops : s.steps setup uses (first :: rest) = (v, some (first, fault)) := by
                rw [steps, ← next, hfirst]
              exact .inr ⟨[], first, rest, s, v, fault, rfl, rfl, hfirst, hstops⟩
          | none =>
              -- the first record goes well, so the induction tells what the others do
              have hgoes (entries : List Entry) :
                  s.steps setup uses (first :: entries) = v.steps setup uses entries := by
                rw [steps, ← next, hfirst]
              rw [hgoes]
              rcases ih v with ⟨t, ht⟩ | ⟨earlier, e, later, t, u, fault, rfl, ht, hnext, hu⟩
              · exact .inl ⟨t, ht⟩
              · exact .inr ⟨first :: earlier, e, later, t, u, fault, rfl,
                  (hgoes earlier).trans ht, hnext, hu⟩

/-- How playing an accepted stream ends, with the state that is left behind. -/
inductive Ends (setup : Setup) (stream : Bytes) (survey : Survey) : State → Prop
  /-- All records were played. -/
  | complete {t : State} (h : Reaches setup stream survey survey.entries [] t) :
      Ends setup stream survey t
  /-- Something was out of bounds for a record. What was drawn up to then is kept. -/
  | halted {earlier later : List Entry} {e : Entry} {t u : State} {cause : OutOfBounds}
      (h : Reaches setup stream survey earlier (e :: later) t)
      (hnext : t.next setup survey.paths e = (u, some (.outOfBounds cause))) :
      Ends setup stream survey (u.fail (State.haltText e cause))

/-- Playing an accepted stream comes to one of its ends. -/
theorem play_ends {stream : Bytes} {survey : Survey} (setup : Setup)
    (h : Survey.ofBytes stream = .ok survey) : Ends setup stream survey (play setup survey) := by
  rcases State.steps_outcome setup survey.paths survey.entries (State.start survey) with
    ⟨t, ht⟩ | ⟨earlier, e, later, t, u, fault, hsplit, ht, hnext, hu⟩
  · rw [play_of_done ht]
    exact .complete ⟨h, (List.append_nil _).symm, ht⟩
  · obtain ⟨cause, rfl, hplay⟩ := play_of_halted hu
    rw [hplay]
    exact .halted ⟨h, hsplit, ht⟩ hnext

section Invariants

variable {setup : Setup} {stream : Bytes} {survey : Survey} {I : State → Prop}

/-- What holds at the start, and every record keeps, holds at every boundary. -/
theorem Reaches.of_next {earlier later : List Entry} {t : State}
    (h : Reaches setup stream survey earlier later t) (start : I (State.start survey))
    (next : ∀ {earlier e later s}, Reaches setup stream survey earlier (e :: later) s → I s →
      I (s.next setup survey.paths e).1) : I t := by
  refine h.induction (motive := fun _ _ t => I t) start ?_
  intro earlier e later s t c hs ih hc hperform
  have hkept := next hs ih
  rwa [State.next_of_command hc, hperform] at hkept

/-- What every record keeps, also where it cannot be done, holds of what the playing leaves
behind, if a message does not matter. -/
theorem play_of_next (h : Survey.ofBytes stream = .ok survey) (start : I (State.start survey))
    (next : ∀ {earlier e later s}, Reaches setup stream survey earlier (e :: later) s → I s →
      I (s.next setup survey.paths e).1)
    (fail : ∀ {s} (text : String), I s → I (s.fail text)) : I (play setup survey) := by
  have hends := play_ends setup h
  generalize play setup survey = t at hends
  cases hends with
  | complete hreaches => exact hreaches.of_next start next
  | halted hreaches hnext =>
      have hkept := next hreaches (hreaches.of_next start next)
      rw [hnext] at hkept
      exact fail _ hkept

end Invariants

/-! ### Refusals -/

/-- An accepted stream is converted. -/
theorem convert_of_accepted {stream : Bytes} {survey : Survey} (setup : Setup)
    (h : Survey.ofBytes stream = .ok survey) :
    convert setup stream = .ok (Conversion.ofSurvey setup survey) := by
  rw [convert, h]
  dsimp only
  rw [playThrough_fault]

/-- A refused stream is not converted, and the fault is that of the survey. -/
theorem convert_of_refused {stream : Bytes} {fault : Fault} (setup : Setup)
    (h : Survey.ofBytes stream = .error fault) : convert setup stream = .error fault := by
  rw [convert, h]

/-- A conversion is refused exactly if the survey of the stream is, for the same fault, and that
fault is structural. A record that fails, in any state and whatever its bytes are, fails because
something is out of bounds. So an accepted stream is converted, whatever records are damaged and
whatever the encoder answers: the document is what the end of the playing leaves behind. -/
theorem convert_error_iff (setup : Setup) (stream : Bytes) :
    (∀ fault, convert setup stream = .error fault ↔ Survey.ofBytes stream = .error fault) ∧
    (∀ fault, convert setup stream = .error fault → ∃ cause, fault = .structural cause) ∧
    (∀ uses e s fault, (State.next setup uses e s).2 = some fault →
      ∃ cause, fault = .outOfBounds cause) ∧
    ∀ survey, Survey.ofBytes stream = .ok survey →
      ∃ t, Ends setup stream survey t ∧ ∃ log,
        convert setup stream = .ok (Conversion.ofState setup.options t, log) := by
  -- once the survey is there, whatever happens becomes a result
  have hsame (fault : Fault) :
      convert setup stream = .error fault ↔ Survey.ofBytes stream = .error fault := by
    cases hread : Survey.ofBytes stream with
    | ok survey =>
        rw [convert_of_accepted setup hread]
        exact iff_of_false nofun nofun
    | error refused =>
        rw [convert_of_refused setup hread]
        exact ⟨fun h => congrArg _ (Except.error.inj h), fun h => congrArg _ (Except.error.inj h)⟩
  refine ⟨hsame, fun fault hrefused => Survey.ofBytes_eq_error ((hsame fault).1 hrefused),
    fun uses e s => State.next_bounded setup uses e s, fun survey haccepted => ?_⟩
  exact ⟨play setup survey, play_ends setup haccepted, _, convert_of_accepted setup haccepted⟩

/-- The record of a brush that repeats a picture of one pixel with two colours. -/
def monoBrushFields (index : UInt8) : Bytes :=
  [index, 0, 0, 0, 0, 0, 0, 0, 32, 0, 0, 0, 40, 0, 0, 0, 72, 0, 0, 0, 4, 0, 0, 0] ++
    [40, 0, 0, 0, 1, 0, 0, 0, 1, 0, 0, 0, 1, 0, 1, 0] ++ List.replicate 24 0 ++ [0x80, 0, 0, 0]

/-- A stream with a brush that repeats a picture, a return to a context that was not saved, a
comment of which the EMF+ record is cut short, and a line to no point. -/
def damagedStream : Bytes :=
  Record.streamOf [(.header, List.replicate 48 0 ++ [3, 0] ++ List.replicate 30 0),
    (.createMonoBrush, monoBrushFields 1), (.restoreContext, [5, 0, 0, 0]),
    (.comment, [8, 0, 0, 0, 0x45, 0x4D, 0x46, 0x2B, 1, 0x40, 0, 0]), (.lineTo, []),
    (.endOfFile, List.replicate 12 0)]

/-- A conversion in which every picture is refused by the encoder, for some fault. -/
def Setup.refusing (fault : Fault) : Setup :=
  { Setup.plain with encode := fun _ => .error fault }

/-- A fault of each sort. -/
def faultsOfAllSorts : List Fault :=
  [.structural .noEnd, .outOfBounds .shortRead, .undecodable .zeroWidth, .badOptions,
    .io "no space left"]

/-- The stream is converted, as incomplete, for whatever sort of fault the encoder refuses the
picture. Without its last byte it is refused as broken. -/
theorem convert_damaged :
    (∀ fault ∈ faultsOfAllSorts, ∃ t,
      Ends (.refusing fault) damagedStream (.ofStream damagedStream) t ∧
      (∃ log,
        convert (.refusing fault) damagedStream = .ok (Conversion.ofState .initial t, log)) ∧
      (Conversion.ofState .initial t).complete = false) ∧
    (∀ fault, convert .plain (damagedStream.take 223) = .error fault →
      ∃ cause, fault = .structural cause) ∧
    ∃ fault, convert .plain (damagedStream.take 223) = .error fault := by
  have haccepted := Survey.ofBytes_ofStream
    (by decide +kernel : (Survey.ofBytes damagedStream).isOk = true)
  have hcut : (Survey.ofBytes (damagedStream.take 223)).isOk = false := by decide +kernel
  have hincomplete : ∀ fault ∈ faultsOfAllSorts,
      (Conversion.ofSurvey (.refusing fault) (.ofStream damagedStream)).1.complete = false := by
    decide +kernel
  refine ⟨fun fault hfault => ?_, (convert_error_iff .plain _).2.1, ?_⟩
  · obtain ⟨t, hends, log, hconvert⟩ :=
      (convert_error_iff (.refusing fault) damagedStream).2.2.2 _ haccepted
    -- the result is the one that the conversion was seen to give
    have hresult : (Conversion.ofSurvey (.refusing fault) (.ofStream damagedStream)).1 =
        Conversion.ofState .initial t := by
      rw [convert_of_accepted _ haccepted] at hconvert
      exact congrArg Prod.fst (Except.ok.inj hconvert)
    exact ⟨t, hends, ⟨log, hconvert⟩, hresult ▸ hincomplete fault hfault⟩
  · cases hread : Survey.ofBytes (damagedStream.take 223) with
    | ok survey => rw [hread] at hcut; cases hcut
    | error fault => exact ⟨fault, ((convert_error_iff .plain _).1 fault).2 hread⟩

/-! ### Framed streams -/

/-- Exactly the streams that begin with the records of a metafile are converted. The survey of
such a stream lists the records at their places. Whatever follows the end record changes nothing,
and a stream that stops before the end of it is refused. -/
theorem convert_iff_framed (setup : Setup) (stream : Bytes) :
    ((∃ survey, Survey.ofBytes stream = .ok survey) ↔
      ∃ records tail, stream = records.flatten ++ tail ∧ Framed records) ∧
    (∀ records tail, stream = records.flatten ++ tail → Framed records →
      (∃ survey, Survey.ofBytes stream = .ok survey ∧ survey.entries = placed 0 records) ∧
      (∀ more, convert setup (records.flatten ++ more) = convert setup stream) ∧
      ∀ n < records.flatten.length, ∃ cause,
        Survey.ofBytes (stream.take n) = .error (.structural cause) ∧
          convert setup (stream.take n) = .error (.structural cause)) ∧
    ((¬∃ records tail, stream = records.flatten ++ tail ∧ Framed records) →
      ∃ cause, Survey.ofBytes stream = .error (.structural cause) ∧
        convert setup stream = .error (.structural cause)) := by
  -- a survey and a framing come from each other
  have haccepts : (∃ survey, Survey.ofBytes stream = .ok survey) ↔
      ∃ records tail, stream = records.flatten ++ tail ∧ Framed records := by
    constructor
    · rintro ⟨survey, hread⟩
      obtain ⟨records, tail, hstream, hframed, _⟩ := Survey.framed_of_ofBytes hread
      exact ⟨records, tail, hstream, hframed⟩
    · rintro ⟨records, tail, rfl, hframed⟩
      obtain ⟨survey, _, hread⟩ := Survey.ofBytes_of_framed hframed
      exact ⟨survey, hread tail⟩
  refine ⟨haccepts, ?_, ?_⟩
  · rintro records tail rfl hframed
    obtain ⟨survey, hentries, hread⟩ := Survey.ofBytes_of_framed hframed
    refine ⟨⟨survey, hread tail, hentries⟩, fun more => ?_, fun n hn => ?_⟩
    · rw [convert_of_accepted setup (hread more), convert_of_accepted setup (hread tail)]
    · -- a stream that ends early is refused, and every refusal is structural
      obtain ⟨fault, hrefused⟩ := Survey.ofBytes_prefix hframed tail hn
      obtain ⟨cause, rfl⟩ := Survey.ofBytes_eq_error hrefused
      exact ⟨cause, hrefused, convert_of_refused setup hrefused⟩
  · intro hunframed
    rw [← haccepts] at hunframed
    cases hread : Survey.ofBytes stream with
    | ok survey => exact absurd ⟨survey, hread⟩ hunframed
    | error fault =>
        obtain ⟨cause, rfl⟩ := Survey.ofBytes_eq_error hread
        exact ⟨cause, rfl, convert_of_refused setup hread⟩

/-- The records of a metafile that sets the world transform in a bracket. -/
def turnedRecords : List Bytes :=
  [Kind.header.record (List.replicate 80 0), Kind.beginPath.record [],
    Kind.setWorldTransform.record (List.replicate 24 0), Kind.endPath.record [],
    Kind.endOfFile.record (List.replicate 12 0)]

/-- They are accepted with any bytes after them, and not without the last byte. -/
theorem convert_turned :
    (∃ survey, Survey.ofBytes (turnedRecords.flatten ++ [1]) = .ok survey ∧
      survey.entries = placed 0 turnedRecords) ∧
    (∀ more, convert .plain (turnedRecords.flatten ++ more) =
      convert .plain (turnedRecords.flatten ++ [1])) ∧
    ∃ cause, convert .plain ((turnedRecords.flatten ++ [1]).take 155) =
      .error (.structural cause) := by
  have hframed : Framed turnedRecords := by decide +kernel
  obtain ⟨haccepted, hmore, hrefused⟩ :=
    (convert_iff_framed .plain (turnedRecords.flatten ++ [1])).2.1 turnedRecords [1] rfl hframed
  obtain ⟨cause, _, hcause⟩ := hrefused 155 (by decide +kernel)
  exact ⟨haccepted, hmore, cause, hcause⟩

end Metafile.Playback
