import Metafile.Proofs.Playback.History
import Metafile.Proofs.Record.Causes

/-!
# `Metafile.Proofs.Playback.Sorts`: which faults come out of playing records

What plays a record may answer a fault of any sort, and `State.run` passes on every fault but one
that is out of bounds. `Bounded` says of a result that its fault, if there is one, is out of
bounds. `State.perform_bounded` goes through the commands, each by what its handler looks up, and
`State.next_bounded` adds the reading of a record, which blames nothing but its bytes. So playing
passes on no fault (`playThrough_fault`), whatever the records hold, and whatever the encoder of
the pictures and the combiner of the clip regions answer.
-/

set_option autoImplicit false

namespace Metafile

namespace Device.ObjectTable

variable {table : ObjectTable} {index : Nat} {fault : Fault}

/-- An index is refused for being too large, and for nothing else. -/
theorem checkIndex_eq_error {size : Nat} (h : checkIndex size index = .error fault) :
    fault = .outOfBounds (.objectIndex size index) := by
  unfold checkIndex at h
  split at h
  · cases h
  · exact (Except.error.inj h).symm

/-- Nothing is put into a slot only where there is no such slot. -/
theorem set_eq_error {tool : Option Tool} (h : table.set index tool = .error fault) :
    fault = .outOfBounds (.objectIndex table.size index) := by
  rcases of_bind_eq_error h with hcheck | ⟨_, _, hnone⟩
  · exact checkIndex_eq_error hcheck
  · cases hnone

/-- No tool is selected only where there is no such slot. -/
theorem select_eq_error {c : Context} (h : table.select index c = .error fault) :
    fault = .outOfBounds (.objectIndex table.size index) := by
  rcases of_bind_eq_error h with hget | ⟨_, _, hnone⟩
  · rcases of_bind_eq_error hget with hcheck | ⟨_, _, hnone⟩
    · exact checkIndex_eq_error hcheck
    · cases hnone
  · cases hnone

end Device.ObjectTable

namespace Playback

open Metafile.Record (Command Entry PathUse Survey)

/-- The fault of a result, if there is one, is that something is out of bounds. -/
def Bounded {α : Type} (r : α × Option Fault) : Prop :=
  ∀ fault, r.2 = some fault → ∃ cause, fault = .outOfBounds cause

/-- What is done without a fault. -/
theorem bounded_none {α : Type} (a : α) : Bounded (a, none) := nofun

/-- A fault that is out of bounds. -/
theorem bounded_outOfBounds {α : Type} (a : α) (cause : OutOfBounds) :
    Bounded (a, some (.outOfBounds cause)) :=
  fun _ h => ⟨cause, (Option.some.inj h).symm⟩

namespace State

variable {s : State}

/-! ### Handlers -/

/-- A tool that is not put into a slot lacks the slot. -/
theorem put_bounded (index : Nat) (tool : Device.Tool) (s : State) :
    Bounded (s.put index tool) := by
  unfold put
  split
  · exact bounded_none _
  · rename_i refused
    exact Device.ObjectTable.set_eq_error refused ▸ bounded_outOfBounds _ _

/-- A brush with a picture fails only where a tool without one would. -/
theorem createPattern_bounded (encode : Bitmap.Encoder) (index : Nat) (picture : Bitmap.Picture)
    (fromContext : Bool) (s : State) :
    Bounded (s.createPattern encode index picture fromContext) :=
  -- a picture that cannot be decoded or encoded has the placeholder, and is no fault
  put_bounded index _ _

/-- A tool that is not selected lacks the slot. An empty slot is no fault. -/
theorem select_bounded (handle : Nat) (s : State) : Bounded (s.select handle) := by
  unfold select
  split
  · split <;> exact bounded_none _
  · split
    · exact bounded_none _
    · rename_i refused
      exact Device.ObjectTable.select_eq_error refused ▸ bounded_outOfBounds _ _

/-- A slot that is not emptied does not exist. -/
theorem delete_bounded (handle : Nat) (s : State) : Bounded (s.delete handle) := by
  unfold delete
  split
  · exact bounded_none _
  · split
    · exact bounded_none _
    · rename_i refused
      exact Device.ObjectTable.set_eq_error refused ▸ bounded_outOfBounds _ _

/-- A bracket fails to begin only if the survey did not count it. -/
theorem beginPath_bounded (uses : List PathUse) (s : State) : Bounded (s.beginPath uses) := by
  unfold beginPath
  dsimp only
  split
  · exact bounded_outOfBounds _ _
  · exact bounded_none _

/-- A bracket fails to end only if the survey did not count it. -/
theorem endPath_bounded (uses : List PathUse) (s : State) : Bounded (s.endPath uses) := by
  unfold endPath
  split
  · exact bounded_none _
  · split
    · exact bounded_outOfBounds _ _
    · exact bounded_none _

/-- Returning to a context that was not saved is no fault, and there is no other reason to fail.
-/
theorem restore_bounded (relative : Int) (s : State) : Bounded (s.restore relative) :=
  fun _ h => nomatch (restore_snd relative s).symm.trans h

/-- A command fails because something is out of bounds, or not at all. -/
theorem perform_bounded (setup : Setup) (uses : List PathUse) (c : Command) (s : State) :
    Bounded (s.perform setup uses c) := by
  cases c with
  | beginPath => exact beginPath_bounded uses s
  | endPath => exact endPath_bounded uses s
  | restore relative => exact restore_bounded relative s
  | create index tool => exact put_bounded index tool s
  | createPattern index picture fromContext => exact createPattern_bounded _ _ _ _ s
  | select handle => exact select_bounded handle s
  | delete handle => exact delete_bounded handle s
  | _ => exact bounded_none _

/-! ### Records -/

/-- A record fails because something is out of bounds, or not at all, in any state and whatever
its bytes are. -/
theorem next_bounded (setup : Setup) (uses : List PathUse) (e : Entry) (s : State) :
    Bounded (s.next setup uses e) := by
  rw [next, step_eq]
  split
  · exact perform_bounded setup uses _ _
  · rename_i fault hread
    obtain ⟨cause, rfl⟩ := Fault.eq_outOfBounds (Entry.command_blames_bytes hread)
    exact bounded_outOfBounds _ _

/-- Records are played to the end, or up to one for which something is out of bounds. -/
theorem steps_bounded {setup : Setup} {uses : List PathUse} {entries : List Entry} {s t : State}
    {e : Entry} {fault : Fault} (h : s.steps setup uses entries = (t, some (e, fault))) :
    ∃ cause, fault = .outOfBounds cause := by
  induction entries generalizing s with
  | nil => cases h
  | cons first rest ih =>
      rw [steps, ← next] at h
      have hfirst := next_bounded setup uses first s
      split at h
      · exact ih h
      · rename_i u refused hnext
        obtain ⟨_, heq⟩ := Prod.mk.inj h
        obtain ⟨_, rfl⟩ := Prod.mk.inj (Option.some.inj heq)
        exact hfirst refused (by rw [hnext])

/-- Where all records are played, nothing is left to say. -/
theorem run_of_done {setup : Setup} {uses : List PathUse} {entries : List Entry} {s t : State}
    (h : s.steps setup uses entries = (t, none)) : s.run setup uses entries = (t, none) := by
  rw [run, h]

/-- Where a record cannot be done, the picture is incomplete, and no fault is passed on. -/
theorem run_of_halted {setup : Setup} {uses : List PathUse} {entries : List Entry} {s t : State}
    {e : Entry} {fault : Fault} (h : s.steps setup uses entries = (t, some (e, fault))) :
    ∃ cause, fault = .outOfBounds cause ∧
      s.run setup uses entries = (t.fail (haltText e cause), none) := by
  obtain ⟨cause, rfl⟩ := steps_bounded h
  exact ⟨cause, rfl, by rw [run, h]⟩

end State

/-- Playing passes on no fault. -/
theorem playThrough_fault (setup : Setup) (survey : Survey) :
    (playThrough setup survey).2 = none := by
  show ((State.start survey).run setup survey.paths survey.entries).2 = none
  cases hsteps : (State.start survey).steps setup survey.paths survey.entries with
  | mk t halted =>
      cases halted with
      | none => rw [State.run_of_done hsteps]
      | some stopped =>
          obtain ⟨_, _, hrun⟩ := State.run_of_halted hsteps
          rw [hrun]

/-- What playing leaves behind when all records are played. -/
theorem play_of_done {setup : Setup} {survey : Survey} {t : State}
    (h : (State.start survey).steps setup survey.paths survey.entries = (t, none)) :
    play setup survey = t :=
  congrArg Prod.fst (State.run_of_done h)

/-- What playing leaves behind when a record cannot be done. -/
theorem play_of_halted {setup : Setup} {survey : Survey} {t : State} {e : Entry} {fault : Fault}
    (h : (State.start survey).steps setup survey.paths survey.entries = (t, some (e, fault))) :
    ∃ cause, fault = .outOfBounds cause ∧
      play setup survey = t.fail (State.haltText e cause) := by
  obtain ⟨cause, hcause, hrun⟩ := State.run_of_halted h
  exact ⟨cause, hcause, congrArg Prod.fst hrun⟩

end Playback

end Metafile
