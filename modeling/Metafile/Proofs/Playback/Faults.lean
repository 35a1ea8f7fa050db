import Metafile.Proofs.Playback.References

/-!
# `Metafile.Proofs.Playback.Faults`: what a record leaves behind that cannot be done

A record that cannot be done should leave everything as it was. A record that cannot be read does,
because nothing is done before all of it is read. Of the commands that are a fault, those that
look at a slot of the object table first do so too. A brush that repeats a picture is the
exception: its picture is defined before the slot is looked at.

`State.perform_fault` goes through the commands, and `Reaches.fault` says of every record that
cannot be done what is left behind: the state before it, up to the messages, unless the record
asks for a brush of a picture that is not yet defined, and no path is open. Then the picture
counts as known, and its definition is written.
-/

set_option autoImplicit false

namespace Metafile

namespace Playback

open Metafile.Record (Command Entry PathUse Survey)

namespace State

variable {s t u : State}

/-- The state without its messages. -/
def silenced (s : State) : State := { s with log := #[] }

/-! ### Commands -/

/-- A handle outside of the table changes no slot. -/
theorem put_fault {index : Nat} {tool : Device.Tool} {fault : Fault}
    (h : s.put index tool = (t, some fault)) : t = s := by
  unfold put at h
  split at h
  · cases h
  · exact (Prod.mk.inj h).1.symm

/-- A handle outside of the table selects nothing. -/
theorem select_fault {handle : Nat} {fault : Fault}
    (h : s.select handle = (t, some fault)) : t = s := by
  unfold select at h
  split at h
  · split at h <;> cases h
  · split at h
    · cases h
    · exact (Prod.mk.inj h).1.symm

/-- A handle outside of the table deletes nothing. -/
theorem delete_fault {handle : Nat} {fault : Fault}
    (h : s.delete handle = (t, some fault)) : t = s := by
  unfold delete at h
  split at h
  · cases h
  · split at h
    · cases h
    · exact (Prod.mk.inj h).1.symm

/-- A path that the survey does not know is not ended. -/
theorem endPath_fault {uses : List PathUse} {fault : Fault}
    (h : s.endPath uses = (t, some fault)) : t = s := by
  unfold endPath at h
  split at h
  · cases h
  · split at h
    · exact (Prod.mk.inj h).1.symm
    · cases h

/-- A brush with a handle outside of the table leaves what looking for its picture has left. -/
theorem createPattern_fault {encode : Bitmap.Encoder} {index : Nat} {picture : Bitmap.Picture}
    {fromContext : Bool} {fault : Fault}
    (h : s.createPattern encode index picture fromContext = (t, some fault)) :
    t.silenced = (s.patternOf encode picture fromContext).1.silenced := by
  unfold createPattern at h
  rw [put_fault h]
  rfl

/-- A command that is a fault leaves the state as it was. Only a brush that repeats a picture may
have defined it. -/
theorem perform_fault {setup : Setup} {uses : List PathUse} {c : Command} {fault : Fault}
    (hbegin : c = .beginPath → ∃ use, uses[s.brackets]? = some use)
    (h : s.perform setup uses c = (t, some fault)) :
    (∃ index picture fromContext, c = .createPattern index picture fromContext ∧
        t.silenced = (s.patternOf setup.encode picture fromContext).1.silenced) ∨
      (∀ index picture fromContext, c ≠ .createPattern index picture fromContext) ∧ t = s := by
  -- only tools, and the brackets that the survey does not know, can fail
  cases c with
  | createPattern index picture fromContext =>
      exact Or.inl ⟨index, picture, fromContext, rfl, createPattern_fault h⟩
  | beginPath =>
      obtain ⟨use, huse⟩ := hbegin rfl
      change s.beginPath uses = (t, some fault) at h
      rw [beginPath_of_use huse] at h
      cases h
  | endPath => exact Or.inr ⟨nofun, endPath_fault h⟩
  | create index tool => exact Or.inr ⟨nofun, put_fault h⟩
  | select handle => exact Or.inr ⟨nofun, select_fault h⟩
  | delete handle => exact Or.inr ⟨nofun, delete_fault h⟩
  | restore relative =>
      change s.restore relative = (t, some fault) at h
      cases (congrArg Prod.snd h).symm.trans (restore_snd relative s)
  | _ => cases h

/-! ### Records -/

/-- Whether a record asks for a brush that repeats a picture which has to be defined for it. -/
def Defines (setup : Setup) (e : Entry) (picture : Bitmap.Picture) (fromContext : Bool)
    (s : State) : Prop :=
  (∃ index, e.command setup.options.plus = .ok (.createPattern index picture fromContext)) ∧
    s.inPath = false ∧ s.images.find? picture = none

/-- The state after the definition of a picture under the next number. -/
def withPicture (setup : Setup) (picture : Bitmap.Picture) (fromContext : Bool) (s : State) :
    State :=
  { s with
    images := s.images.push picture
    written := s.written.push
      (s.patternPiece setup.encode picture fromContext (s.images.size + 1)) }

/-- A definition is never without effect. -/
theorem withPicture_ne (setup : Setup) (picture : Bitmap.Picture) (fromContext : Bool)
    (s : State) :
    (s.withPicture setup picture fromContext).silenced ≠ s.silenced := by
  intro h
  have himages : s.images.push picture = s.images := congrArg images h
  have hsize := congrArg Array.size himages
  rw [Array.size_push] at hsize
  omega

/-- Looking for a picture defines it where it has to be, and does nothing otherwise. -/
theorem patternOf_silenced (setup : Setup) (picture : Bitmap.Picture) (fromContext : Bool)
    (s : State) :
    (s.patternOf setup.encode picture fromContext).1.silenced =
      if s.inPath = false ∧ s.images.find? picture = none then
        (s.withPicture setup picture fromContext).silenced
      else s.silenced := by
  rcases patternOf_cases setup.encode picture fromContext s with
    ⟨hopen, heq⟩ | ⟨_, id, hknown, heq⟩ | ⟨hclosed, hunknown, log, heq⟩
  · rw [heq, if_neg (by rw [hopen]; simp)]
  · rw [heq, if_neg (by rw [hknown]; simp)]
  · rw [heq, if_pos ⟨hclosed, hunknown⟩]
    rfl

end State

namespace Reaches

variable {setup : Setup} {stream : Bytes} {survey : Survey} {earlier later : List Entry}
  {e : Entry} {t u : State} {refusal : Fault}

/-- What a record leaves behind that cannot be done: the state after the definition of a picture,
where the record asks for one, and otherwise the state before it. -/
theorem next_fault (h : Reaches setup stream survey earlier (e :: later) t)
    (hnext : t.next setup survey.paths e = (u, some refusal)) :
    (∃ picture fromContext, t.Defines setup e picture fromContext ∧
        u.silenced = (t.withPicture setup picture fromContext).silenced) ∨
      (∀ picture fromContext, ¬ t.Defines setup e picture fromContext) ∧
        u.silenced = t.silenced := by
  obtain ⟨log, hlog⟩ := State.announce_eq setup e t
  rw [State.next, State.step_eq, hlog] at hnext
  -- a record that cannot be read has drawn nothing
  cases hc : e.command setup.options.plus with
  | error refused =>
      rw [hc] at hnext
      refine Or.inr ⟨fun picture fromContext hdefines => ?_, ?_⟩
      · obtain ⟨⟨index, hbrush⟩, _⟩ := hdefines
        cases hc.symm.trans hbrush
      · rw [← (Prod.mk.inj hnext).1]
        rfl
  | ok c =>
      rw [hc] at hnext
      -- the survey knows every bracket, so its beginning cannot fail
      have hbegin : c = .beginPath → ∃ use, survey.paths[t.brackets]? = some use := by
        rintro rfl
        exact h.use_of_begin ((Entry.command_soleKind? hc rfl).1 rfl)
      rcases State.perform_fault (s := { t with log }) hbegin hnext with
        ⟨index, picture, fromContext, rfl, hleft⟩ | ⟨hother, hsame⟩
      · -- a pattern may have been defined before its slot is missed
        rw [State.patternOf_silenced] at hleft
        split at hleft
        case isTrue hnew =>
          exact Or.inl ⟨picture, fromContext, ⟨⟨index, hc⟩, hnew⟩, hleft⟩
        case isFalse hknown =>
          refine Or.inr ⟨fun picture' fromContext' hdefines => ?_, hleft⟩
          obtain ⟨⟨index', hbrush⟩, hnew⟩ := hdefines
          obtain ⟨_, rfl, _⟩ := Command.createPattern.inj (Except.ok.inj (hc.symm.trans hbrush))
          exact hknown hnew
      · refine Or.inr ⟨fun picture fromContext hdefines => ?_, by rw [hsame]; rfl⟩
        obtain ⟨⟨index, hbrush⟩, _⟩ := hdefines
        exact hother _ _ _ (Except.ok.inj (hc.symm.trans hbrush))

/-- A record that cannot be done leaves everything but the messages as it was, exactly if it does
not ask for a brush of a picture that has to be defined. If it does, the picture counts as known
and its definition is written. -/
theorem fault (h : Reaches setup stream survey earlier (e :: later) t)
    (hnext : t.next setup survey.paths e = (u, some refusal)) :
    (u.silenced = t.silenced ↔
        ∀ picture fromContext, ¬ t.Defines setup e picture fromContext) ∧
      ∀ picture fromContext, t.Defines setup e picture fromContext →
        u.silenced = (t.withPicture setup picture fromContext).silenced := by
  rcases h.next_fault hnext with ⟨picture, fromContext, hdefines, hleft⟩ | ⟨hnone, hleft⟩
  · refine ⟨⟨fun hsame => ?_, fun hnone => absurd hdefines (hnone _ _)⟩, ?_⟩
    · exact (State.withPicture_ne _ _ _ _ (hleft.symm.trans hsame)).elim
    · intro picture' fromContext' hdefines'
      -- a record asks for one brush only
      obtain ⟨⟨index, hbrush⟩, _⟩ := hdefines
      obtain ⟨⟨index', hbrush'⟩, _⟩ := hdefines'
      obtain ⟨_, rfl, rfl⟩ :=
        Command.createPattern.inj (Except.ok.inj (hbrush.symm.trans hbrush'))
      exact hleft
  · exact ⟨⟨fun _ => hnone, fun _ => hleft⟩,
      fun picture fromContext hdefines => absurd hdefines (hnone _ _)⟩

end Reaches

/-- A stream of some records between a header that declares no handles and the end. -/
def enclosedStream (records : List (Record.Kind × Bytes)) : Bytes :=
  Record.streamOf
    ((.header, List.replicate 80 0) :: records ++ [(.endOfFile, List.replicate 12 0)])

/-- What is left behind before the last of these records. -/
def stateBeforeLast (records : List (Record.Kind × Bytes)) : State :=
  let survey := Survey.ofStream (enclosedStream records)
  ((State.start survey).steps .plain survey.paths (survey.entries.take records.length)).1

/-- The playing comes to the last of these records, if nothing went wrong before, and stops there
if it cannot be done. -/
theorem enclosed_reaches_last (records : List (Record.Kind × Bytes)) (e : Entry)
    (hok : (Survey.ofBytes (enclosedStream records)).isOk = true)
    (hplayed : ((State.start (.ofStream (enclosedStream records))).steps .plain
      (Survey.ofStream (enclosedStream records)).paths
      ((Survey.ofStream (enclosedStream records)).entries.take records.length)).2 = none)
    (hdrop : (Survey.ofStream (enclosedStream records)).entries.drop records.length =
      e :: (Survey.ofStream (enclosedStream records)).entries.drop (records.length + 1))
    (hfault : ((stateBeforeLast records).next .plain
      (Survey.ofStream (enclosedStream records)).paths e).2.isSome = true) :
    Reaches .plain (enclosedStream records) (.ofStream (enclosedStream records))
        ((Survey.ofStream (enclosedStream records)).entries.take records.length)
        (e :: (Survey.ofStream (enclosedStream records)).entries.drop (records.length + 1))
        (stateBeforeLast records) ∧
      ∃ u fault, (stateBeforeLast records).next .plain
        (Survey.ofStream (enclosedStream records)).paths e = (u, some fault) := by
  obtain ⟨fault, hcause⟩ := Option.isSome_iff_exists.1 hfault
  exact ⟨hdrop ▸ .of_steps records.length hok hplayed, _, fault, Prod.ext rfl hcause⟩

/-- The fields of a record that selects a handle which no slot has. -/
def strayHandle : Bytes := [9, 0, 0, 0]

/-- The record that selects a handle which no slot has, at an offset. -/
def straySelection (offset : Nat) : Entry :=
  ⟨offset, 37, Record.Kind.selectObject.record strayHandle⟩

/-- Selecting a handle that no slot has leaves everything as it was. -/
theorem fault_stray_selection :
    ∃ stream survey earlier later t u fault,
      Reaches .plain stream survey earlier (straySelection 88 :: later) t ∧
        t.next .plain survey.paths (straySelection 88) = (u, some fault) ∧
        u.silenced = t.silenced := by
  obtain ⟨h, u, fault, hnext⟩ := enclosed_reaches_last [(.selectObject, strayHandle)]
    (straySelection 88) (by decide +kernel) (by decide +kernel) (by decide +kernel)
    (by decide +kernel)
  have hcommand : (straySelection 88).command Setup.plain.options.plus = .ok (.select 9) := by rfl
  refine ⟨_, _, _, _, _, u, fault, h, hnext, ?_⟩
  refine (h.fault hnext).1.mpr fun picture fromContext hdefines => ?_
  obtain ⟨⟨index, hbrush⟩, _⟩ := hdefines
  cases hcommand.symm.trans hbrush

/-- A record that puts a brush with a picture into a slot that does not exist. -/
def strayBrush : Entry := ⟨88, 93, Record.Kind.createMonoBrush.record (monoBrushFields 9)⟩

/-- A brush for a slot that does not exist is a fault, and yet its picture counts as known and its
definition is written. -/
theorem stray_brush_is_defined :
    ∃ stream survey earlier later t u fault,
      Reaches .plain stream survey earlier (strayBrush :: later) t ∧
        t.next .plain survey.paths strayBrush = (u, some fault) ∧
        u.images.size = t.images.size + 1 ∧ u.written.size = t.written.size + 1 := by
  obtain ⟨h, u, fault, hnext⟩ := enclosed_reaches_last [(.createMonoBrush, monoBrushFields 9)]
    strayBrush (by decide +kernel) (by decide +kernel) (by decide +kernel) (by decide +kernel)
  obtain rfl : _ = u := congrArg Prod.fst hnext
  exact ⟨_, _, _, _, _, _, fault, h, hnext, by decide +kernel, by decide +kernel⟩

end Playback

end Metafile
