import Metafile.Proofs.Playback.History

/-!
# `Metafile.Proofs.Playback.OpenPath`: when the two passes agree that a path is open

A stream is walked over twice, and each pass keeps track of the open bracket by itself. The survey
knows the records that begin and end brackets. Playing also closes a bracket at the record that
aborts it, and the survey does not: `PathUse.note` only keeps the place of that record.

`Reaches.walk_inPath_iff` states what follows. At a record that is about to be played the passes
agree exactly if the bracket that the survey holds open has not been aborted. In an aborted
bracket a change of the world transform is deferred by the survey and also done at once by the
playing. `passes_disagree_after_abort` is a stream in which this happens.
-/

set_option autoImplicit false

namespace Metafile.Playback

open Metafile.Record (Entry Kind Survey Walk insideAfter sinceBegin)

/-- The survey holds a bracket open although a record has aborted it. -/
def AbortedInside (records : List Entry) : Prop :=
  ∃ inside, sinceBegin records = some inside ∧ ∃ e ∈ inside, e.kind? = some .abortPath

/-- Whether a record has aborted the open bracket can be computed. -/
instance (records : List Entry) : Decidable (AbortedInside records) :=
  decidable_of_iff
    ((sinceBegin records).any fun inside => inside.any (·.kind? == some .abortPath)) (by
      unfold AbortedInside
      cases sinceBegin records with
      | none => simp
      | some inside => simp)

/-- Whether a bracket was begun and neither ended nor aborted since. -/
def openUnaborted (records : List Entry) : Bool :=
  (sinceBegin records).any fun inside => inside.all (·.kind? != some .abortPath)

/-- A bracket that the survey holds open is either aborted or open in both passes. -/
theorem openUnaborted_eq_true_iff (records : List Entry) :
    openUnaborted records = true ↔
      (sinceBegin records).isSome = true ∧ ¬AbortedInside records := by
  unfold openUnaborted AbortedInside
  cases sinceBegin records with
  | none => simp
  | some inside => simp

namespace Reaches

variable {setup : Setup} {stream : Bytes} {survey : Survey} {earlier later : List Entry}
  {e : Entry} {t : State}

/-- Before a record is played, a path is open exactly if a record has begun it and no record has
ended or aborted it since. -/
theorem inPath_eq (h : Reaches setup stream survey earlier (e :: later) t) :
    t.inPath = openUnaborted earlier := by
  -- the end record closes the bracket too, but no record follows it
  suffices hstrong : e :: later ≠ [] → t.inPath = openUnaborted earlier from
    hstrong (List.cons_ne_nil e later)
  refine h.induction (motive := fun earlier later t =>
    later ≠ [] → t.inPath = openUnaborted earlier) (fun _ => rfl) ?_
  intro earlier e later s t c hs ih hc hperform hmore
  have hlast : e.kind? ≠ some .endOfFile := fun hend =>
    hmore ((Survey.end_last hs.accepted hs.split).2.1 hend)
  rw [(State.perform_bracket hperform).1, (State.announce_adds setup e s).inPath,
    ih (List.cons_ne_nil e later), State.inPathAfter_eq hc]
  unfold openUnaborted
  rw [Record.sinceBegin_concat]
  split
  · rename_i hkind
    simp [insideAfter, hkind]
  · rename_i hkind
    simp [insideAfter, hkind]
  · rename_i hkind
    simp [insideAfter, hkind, Option.any_map]
  · rename_i hkind
    exact absurd hkind hlast
  · rename_i hbegin hend habort _
    have hother : (e.kind? != some .abortPath) = true := bne_iff_ne.2 habort
    rw [Record.insideAfter_other hbegin hend, Option.any_map]
    simp [hother]

/-- Before a record is played, the two passes agree that a path is open or that none is, unless
the bracket that the survey holds open has been aborted. -/
theorem walk_inPath_iff (h : Reaches setup stream survey earlier (e :: later) t) :
    ∃ w, Walk.ofEntries earlier = .ok w ∧ (w.inPath = t.inPath ↔ ¬AbortedInside earlier) := by
  obtain ⟨w, hw⟩ := h.walk
  refine ⟨w, hw, ?_⟩
  rw [Walk.inPath_eq hw, h.inPath_eq]
  constructor
  · intro hagree haborted
    obtain ⟨inside, hinside, _⟩ := id haborted
    -- the survey holds the bracket open, so the playing would too
    rw [hinside] at hagree
    exact ((openUnaborted_eq_true_iff earlier).1 hagree.symm).2 haborted
  · intro hkept
    rw [Bool.eq_iff_iff, openUnaborted_eq_true_iff]
    exact ⟨fun hopen => ⟨hopen, hkept⟩, fun hboth => hboth.1⟩

end Reaches

/-! ### A bracket that is aborted -/

/-- A bracket that is begun and aborted, and then a change of the world transform. -/
def abortedStream : Bytes :=
  Record.streamOf [(.header, List.replicate 80 0), (.beginPath, []), (.abortPath, []),
    (.setWorldTransform, List.replicate 24 0), (.endOfFile, List.replicate 12 0)]

/-- The records of the stream with an aborted bracket. -/
def abortedEntries : List Entry := (Survey.ofStream abortedStream).entries

/-- Before the record that aborts the bracket the passes agree, as they do where nothing was
aborted. -/
theorem walk_inPath_iff_before_abort :
    ∃ e later t w,
      Reaches .plain abortedStream (.ofStream abortedStream) (abortedEntries.take 2)
        (e :: later) t ∧
      e.kind? = some .abortPath ∧ Walk.ofEntries (abortedEntries.take 2) = .ok w ∧
      w.inPath = t.inPath := by
  have h : Reaches .plain abortedStream _ (abortedEntries.take 2) (abortedEntries.drop 2) _ :=
    .of_steps 2 (by decide +kernel) (by decide +kernel)
  rw [show abortedEntries.drop 2 = ⟨96, 68, Kind.abortPath.record []⟩ :: abortedEntries.drop 3 by
    decide +kernel] at h
  obtain ⟨w, hw, hagree⟩ := h.walk_inPath_iff
  exact ⟨_, _, _, w, h, by decide, hw, hagree.2 (by decide +kernel)⟩

/-- Before the change of the world transform that follows the aborted bracket, the survey holds
the bracket open and the playing does not. -/
theorem passes_disagree_after_abort :
    ∃ e later t w,
      Reaches .plain abortedStream (.ofStream abortedStream) (abortedEntries.take 3)
        (e :: later) t ∧
      e.kind? = some .setWorldTransform ∧ Walk.ofEntries (abortedEntries.take 3) = .ok w ∧
      w.inPath = true ∧ t.inPath = false := by
  have h : Reaches .plain abortedStream _ (abortedEntries.take 3) (abortedEntries.drop 3) _ :=
    .of_steps 3 (by decide +kernel) (by decide +kernel)
  rw [show abortedEntries.drop 3 =
    ⟨104, 35, Kind.setWorldTransform.record (List.replicate 24 0)⟩ :: abortedEntries.drop 4 by
    decide +kernel] at h
  obtain ⟨w, hw⟩ := h.walk
  refine ⟨_, _, _, w, h, by decide, hw, ?_, ?_⟩
  · rw [Walk.inPath_eq hw]
    decide +kernel
  · rw [h.inPath_eq]
    decide +kernel

end Metafile.Playback
