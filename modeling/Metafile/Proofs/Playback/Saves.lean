import Metafile.Proofs.Playback.Outcome

/-!
# `Metafile.Proofs.Playback.Saves`: saved contexts over a whole playing

Records save the context and return to a saved one. Which saves can still be returned to is known
from the records alone: `liveSaves` lists the places of the live ones, the last one first. A
return by a number of steps ends that many of them, and a return that goes too far ends none.

The stack of a state holds the contexts of the live saves (`Reaches.saved_of_live`), each on top
of the stack that was there when it was saved. `Reaches.restores_lifo` says what follows of every
record: a return gives back the context and the stack of its save, one that goes too far changes
nothing and leaves the picture incomplete, and no other record touches the stack.
-/

set_option autoImplicit false

namespace Metafile

namespace Device.Saved

variable {relative : Int} {s : Saved}

/-- Whether there are enough saved contexts to return by so many steps. -/
def InReach (relative : Int) (depth : Nat) : Prop :=
  1 ≤ relative.natAbs ∧ relative.natAbs ≤ depth

/-- Whether a return is within reach is a comparison of two numbers. -/
instance (relative : Int) (depth : Nat) : Decidable (InReach relative depth) :=
  inferInstanceAs (Decidable (_ ∧ _))

/-- Within reach there is a context so many steps down. -/
theorem exists_of_inReach (hreach : InReach relative s.length) :
    ∃ c, s[relative.natAbs - 1]? = some c ∧
      s.drop (relative.natAbs - 1) = c :: s.drop relative.natAbs := by
  obtain ⟨hone, hdepth⟩ := hreach
  have hplace : relative.natAbs - 1 < s.length := by omega
  have hdrop := List.drop_eq_getElem_cons hplace
  rw [Nat.sub_add_cancel hone] at hdrop
  exact ⟨s[relative.natAbs - 1], List.getElem?_eq_getElem hplace, hdrop⟩

/-- Returning within reach gives the context that is so many steps down, and what is below it. -/
theorem restore_of_inReach {c : Context} {rest : Saved} (hreach : InReach relative s.length)
    (hdrop : s.drop (relative.natAbs - 1) = c :: rest) : s.restore relative = .ok (c, rest) := by
  unfold restore
  rw [if_neg (fun hzero => by rw [hzero] at hreach; exact absurd hreach.1 (by decide)), hdrop]

/-- Returning by no step or by too many is refused. -/
theorem restore_of_not_inReach (hreach : ¬InReach relative s.length) :
    s.restore relative = .error (.outOfBounds (.savedContext relative s.length)) := by
  unfold restore
  by_cases hzero : relative = 0
  · rw [if_pos hzero]
  · have hfar : s.drop (relative.natAbs - 1) = [] := by
      unfold InReach at hreach
      rw [List.drop_eq_nil_iff]
      omega
    rw [if_neg hzero, hfar]

end Device.Saved

namespace Playback

open Metafile.Device (Saved)
open Metafile.Record (Command Entry PathUse Survey)

/-! ### Stacks that records change -/

/-- A stack after a command: a save puts something on top of it, and a return within reach takes
as many off as it goes back. -/
def stackAfter {α : Type} (c : Command) (top : α) (stack : List α) : List α :=
  match c with
  | .save => top :: stack
  | .restore relative =>
    if Saved.InReach relative stack.length then stack.drop relative.natAbs else stack
  | _ => stack

/-- A command that neither saves nor returns leaves a stack as it is. -/
theorem stackAfter_other {α : Type} {c : Command} (hsave : c ≠ .save)
    (hrestore : ∀ relative, c ≠ .restore relative) (top : α) (stack : List α) :
    stackAfter c top stack = stack := by
  cases c <;> first | rfl | exact absurd rfl hsave | exact absurd rfl (hrestore _)

/-- The places of the live saves after one more record, which stands at a place. -/
def liveAfter (plus : Bool) (live : List Nat) (record : Entry × Nat) : List Nat :=
  match record.1.command plus with
  | .ok c => stackAfter c record.2 live
  | .error _ => live

/-- The places of the records whose saves are live after some records, the last one first. -/
def liveSaves (plus : Bool) (records : List Entry) : List Nat :=
  records.zipIdx.foldl (liveAfter plus) []

/-- One more record changes the stack of live saves as its command does. -/
theorem liveSaves_concat {plus : Bool} (records : List Entry) {e : Entry} {c : Command}
    (hc : e.command plus = .ok c) :
    liveSaves plus (records ++ [e]) = stackAfter c records.length (liveSaves plus records) := by
  rw [liveSaves, List.zipIdx_append, List.foldl_append, Nat.zero_add]
  show liveAfter plus (liveSaves plus records) (e, records.length) = _
  unfold liveAfter
  dsimp only
  rw [hc]

/-- Two stacks of the same height, where each place in the second belongs to what is in the first
from that height down. -/
inductive Stacked {α : Type} (P : List α → Nat → Prop) : List α → List Nat → Prop
  | nil : Stacked P [] []
  | cons {top : α} {stack : List α} {place : Nat} {places : List Nat} :
    P (top :: stack) place → Stacked P stack places → Stacked P (top :: stack) (place :: places)

namespace Stacked

variable {α : Type} {P Q : List α → Nat → Prop} {stack : List α} {places : List Nat}

/-- Both stacks have the same height. -/
theorem length_eq (h : Stacked P stack places) : stack.length = places.length := by
  induction h with
  | nil => rfl
  | cons _ _ ih => rw [List.length_cons, List.length_cons, ih]

/-- What is known of the places may be weakened. -/
theorem mono (h : Stacked P stack places) (hPQ : ∀ s place, P s place → Q s place) :
    Stacked Q stack places := by
  induction h with
  | nil => exact .nil
  | cons htop _ ih => exact .cons (hPQ _ _ htop) ih

/-- Below some height the places belong to what is there. -/
theorem drop (h : Stacked P stack places) (n : Nat) :
    Stacked P (stack.drop n) (places.drop n) := by
  induction h generalizing n with
  | nil => rw [List.drop_nil, List.drop_nil]; exact .nil
  | cons htop hrest ih =>
      cases n with
      | zero => exact .cons htop hrest
      | succ n => exact ih n

/-- What is known of a place holds of the stack from its height down. -/
theorem get (h : Stacked P stack places) {i place : Nat} (hplace : places[i]? = some place) :
    P (stack.drop i) place := by
  induction h generalizing i with
  | nil => cases hplace
  | cons htop _ ih =>
      cases i with
      | zero => exact Option.some.inj hplace ▸ htop
      | succ i => exact ih hplace

/-- A command changes both stacks in the same way. -/
theorem after (h : Stacked P stack places) (c : Command) {top : α} {place : Nat}
    (htop : c = .save → P (top :: stack) place) :
    Stacked P (stackAfter c top stack) (stackAfter c place places) := by
  cases c with
  | save => exact .cons (htop rfl) h
  | restore relative =>
      unfold stackAfter
      dsimp only
      rw [h.length_eq]
      split
      · exact h.drop relative.natAbs
      · exact h
  | _ => exact h

end Stacked

/-- A record that returns to a saved context holds the number of steps behind its header. -/
theorem command_of_restore {plus : Bool} {e : Entry} {relative : Int}
    (hkind : e.kind? = some .restoreContext)
    (hread : (Cursor.i32.from e.body Record.headerBytes).toOption = some relative) :
    e.command plus = .ok (.restore relative) := by
  have hcommand : e.command plus =
      (Cursor.i32.from e.body Record.headerBytes).map Command.restore := by
    rw [← Decode.from_map, ← Decode.first_seek_bind]
    unfold Entry.command
    rw [hkind]
    rfl
  rw [hcommand, eq_ok_of_toOption hread]
  rfl

namespace State

/-! ### What the commands leave alone -/

/-- The saved contexts, and whether a record could not be done. -/
def savings (s : State) : Saved × Bool := (s.saved, s.failed)

/-- No command but those that save a context or return to one changes the saved contexts, and no
other can leave the picture incomplete without being a fault. -/
theorem perform_savings (setup : Setup) (uses : List PathUse) {c : Command} (s : State)
    (hsave : c ≠ .save) (hrestore : ∀ relative, c ≠ .restore relative) :
    (s.perform setup uses c).1.savings = s.savings := by
  -- most commands change nothing but what is drawn, and the others leave the saves alone too
  by_cases hplaces : keepsPlaces c = true
  · obtain ⟨_, _, _, _, _, _, _, _, _, _, heq⟩ := perform_eq_of_keepsPlaces setup uses s hplaces
    exact (congrArg savings heq).trans rfl
  cases c with
  | save => exact absurd rfl hsave
  | restore relative => exact absurd rfl (hrestore relative)
  | header header =>
      obtain ⟨written, held, log, heq⟩ := beginDocument_eq setup.options header s
      exact (congrArg savings heq).trans rfl
  | endOfFile =>
      obtain ⟨player, log, heq⟩ := endDocument_eq setup.options s
      obtain ⟨written, held, hgiven⟩ := abandon_eq s
      rw [hgiven] at heq
      exact (congrArg savings heq).trans rfl
  | draw shape =>
      obtain ⟨bracket, trail, position, written, held, heq⟩ := draw_eq shape s
      exact (congrArg savings heq).trans rfl
  | beginPath =>
      obtain ⟨world, bracket, brackets, trail, wrapped, written, held, heq⟩ := beginPath_eq uses s
      exact (congrArg savings heq).trans rfl
  | endPath =>
      obtain ⟨world, bracket, wrapped, written, held, heq⟩ := endPath_eq uses s
      exact (congrArg savings heq).trans rfl
  | closeFigure =>
      obtain ⟨bracket, trail, position, heq⟩ := closeFigure_eq s
      exact (congrArg savings heq).trans rfl
  | abortPath =>
      obtain ⟨written, held, heq⟩ := abandon_eq s
      exact (congrArg savings heq).trans rfl
  | mapMode code =>
      obtain ⟨mapping, log, heq⟩ := setMapMode_eq code s
      exact (congrArg savings heq).trans rfl
  | moveTo p =>
      obtain ⟨bracket, trail, position, heq⟩ := moveTo_eq (.ofInt p) s
      exact (congrArg savings heq).trans rfl
  | transform change =>
      obtain ⟨world, wrapped, written, held, log, heq⟩ := transform_eq change s
      exact (congrArg savings heq).trans rfl
  | select handle =>
      obtain ⟨context, log, heq⟩ := select_eq handle s
      exact (congrArg savings heq).trans rfl
  | set _ => rfl
  | _ => exact absurd rfl hplaces

/-- Returning within reach gives back a context and the stack below it. -/
theorem restore_of_inReach {relative : Int} {s : State} {c : Device.Context} {rest : Saved}
    (hreach : Saved.InReach relative s.saved.length)
    (hdrop : s.saved.drop (relative.natAbs - 1) = c :: rest) :
    (s.restore relative).1.context = c ∧
      (s.restore relative).1.savings = (rest, s.failed) := by
  unfold restore
  rw [Saved.restore_of_inReach hreach hdrop]
  dsimp only
  split
  · obtain ⟨wrapped, written, held, heq⟩ := wrap_eq { s with context := c, saved := rest }
    rw [heq]
    exact ⟨rfl, rfl⟩
  · exact ⟨rfl, rfl⟩

/-- Returning too far changes nothing and leaves the picture incomplete. -/
theorem restore_of_not_inReach {relative : Int} {s : State}
    (hreach : ¬Saved.InReach relative s.saved.length) :
    ∃ log, s.restore relative = ({ s with failed := true, log }, none) := by
  unfold restore
  rw [Saved.restore_of_not_inReach hreach]
  exact ⟨_, rfl⟩

/-- What a command does to the saved contexts. -/
theorem perform_saved (setup : Setup) (uses : List PathUse) (c : Command) (s : State) :
    (s.perform setup uses c).1.saved = stackAfter c s.context s.saved := by
  by_cases hsave : c = .save
  · rw [hsave]
    rfl
  by_cases hrestore : ∃ relative, c = .restore relative
  · obtain ⟨relative, rfl⟩ := hrestore
    show (s.restore relative).1.saved = if _ then _ else _
    by_cases hreach : Saved.InReach relative s.saved.length
    · obtain ⟨c, _, hdrop⟩ := Saved.exists_of_inReach hreach
      rw [if_pos hreach]
      exact congrArg Prod.fst (restore_of_inReach hreach hdrop).2
    · obtain ⟨log, hrefused⟩ := restore_of_not_inReach hreach
      rw [if_neg hreach, hrefused]
  · have hother : ∀ relative, c ≠ .restore relative := fun relative hc => hrestore ⟨relative, hc⟩
    rw [stackAfter_other hsave hother]
    exact congrArg Prod.fst (perform_savings setup uses s hsave hother)

variable {setup : Setup} {uses : List PathUse}

/-- What a record does to the saved contexts. -/
theorem next_saved {e : Entry} {c : Command} (s : State)
    (hc : e.command setup.options.plus = .ok c) :
    (s.next setup uses e).1.saved = stackAfter c s.context s.saved := by
  obtain ⟨log, hlog⟩ := announce_eq setup e s
  rw [next_of_command hc, perform_saved, hlog]

/-- A record that cannot be read leaves the saved contexts as they are. -/
theorem next_saved_of_unread {e : Entry} {fault : Fault} (s : State)
    (hc : e.command setup.options.plus = .error fault) :
    (s.next setup uses e).1.saved = s.saved := by
  obtain ⟨log, hlog⟩ := announce_eq setup e s
  rw [next, step_eq, hc, hlog]

/-- So does a record that neither saves a context nor returns to one. -/
theorem next_saved_of_other {e : Entry} (s : State) (hsave : e.kind? ≠ some .saveContext)
    (hrestore : e.kind? ≠ some .restoreContext) : (s.next setup uses e).1.saved = s.saved := by
  cases hc : e.command setup.options.plus with
  | error cause => exact next_saved_of_unread s hc
  | ok c =>
      have hsoleSave : c ≠ .save := by
        rintro rfl
        exact hsave ((Entry.command_soleKind? hc rfl).1 rfl)
      have hsoleRestore : ∀ relative, c ≠ .restore relative := by
        rintro relative rfl
        exact hrestore ((Entry.command_soleKind? hc rfl).1 rfl)
      rw [next_saved s hc, stackAfter_other hsoleSave hsoleRestore]

/-! ### An incomplete picture -/

/-- Returning does not complete a picture. -/
theorem restore_failed {relative : Int} {s : State} (h : s.failed = true) :
    (s.restore relative).1.failed = true := by
  by_cases hreach : Saved.InReach relative s.saved.length
  · obtain ⟨c, _, hdrop⟩ := Saved.exists_of_inReach hreach
    exact (congrArg Prod.snd (restore_of_inReach hreach hdrop).2).trans h
  · obtain ⟨log, hrefused⟩ := restore_of_not_inReach hreach
    rw [hrefused]

/-- A picture that is incomplete before a record is incomplete after it. -/
theorem next_failed {e : Entry} {s : State} (h : s.failed = true) :
    (s.next setup uses e).1.failed = true := by
  obtain ⟨log, hlog⟩ := announce_eq setup e s
  rw [next, step_eq, hlog]
  cases e.command setup.options.plus with
  | error cause => exact h
  | ok c =>
      by_cases hsave : c = .save
      · rw [hsave]
        exact h
      by_cases hrestore : ∃ relative, c = .restore relative
      · obtain ⟨relative, rfl⟩ := hrestore
        exact restore_failed (s := { s with log }) h
      · have hkept := perform_savings setup uses { s with log } hsave
          fun relative hc => hrestore ⟨relative, hc⟩
        exact (congrArg Prod.snd hkept).trans h

/-- A picture that is incomplete between two records stays so to the end. -/
theorem run_failed {entries : List Entry} {s : State} (h : s.failed = true) :
    (s.run setup uses entries).1.failed = true := by
  -- no record takes the failure back
  have hsteps : (s.steps setup uses entries).1.failed = true := by
    induction entries generalizing s with
    | nil => exact h
    | cons e rest ih =>
        have hnext : (s.next setup uses e).1.failed = true := next_failed h
        rw [steps, ← next]
        cases hplayed : s.next setup uses e with
        | mk t fault =>
            rw [hplayed] at hnext
            cases fault with
            | none => exact ih hnext
            | some fault => exact hnext
  unfold run
  split
  · rename_i heq
    rwa [heq] at hsteps
  · rfl
  · rename_i heq
    rwa [heq] at hsteps

end State

namespace Reaches

variable {setup : Setup} {stream : Bytes} {survey : Survey} {earlier later : List Entry}
  {e : Entry} {s t : State}

/-- A picture that is incomplete at a boundary is converted to an incomplete picture. -/
theorem incomplete (h : Reaches setup stream survey earlier later t) (hfailed : t.failed = true) :
    ∃ result log, convert setup stream = .ok (result, log) ∧ result.complete = false := by
  refine ⟨_, _, convert_of_accepted setup h.accepted, ?_⟩
  have hplay : play setup survey = (t.run setup survey.paths later).1 := by
    show ((State.start survey).run setup survey.paths survey.entries).1 = _
    rw [State.run, h.split, State.steps_append h.played]
    rfl
  show (!(play setup survey).failed) = false
  rw [hplay, State.run_failed hfailed]
  rfl

/-- What a live save is: a record that saves the context. The stack down from it begins with the
context of the moment, on top of the stack that was there. -/
def SavedAt (setup : Setup) (stream : Bytes) (survey : Survey) (records : List Entry)
    (stack : Saved) (place : Nat) : Prop :=
  place < records.length ∧ ∃ record rest u,
    Reaches setup stream survey (records.take place) (record :: rest) u ∧
    record.kind? = some .saveContext ∧ stack = u.context :: u.saved

/-- A save of some records is one of more records. -/
theorem SavedAt.concat {records : List Entry} {stack : Saved} {place : Nat}
    (h : SavedAt setup stream survey records stack place) (e : Entry) :
    SavedAt setup stream survey (records ++ [e]) stack place := by
  obtain ⟨hinside, hsaved⟩ := h
  refine ⟨by rw [List.length_append]; exact Nat.lt_add_right _ hinside, ?_⟩
  rwa [List.take_append_of_le_length (Nat.le_of_lt hinside)]

/-- The stack at a boundary holds the contexts of the live saves. -/
theorem saved_of_live (h : Reaches setup stream survey earlier later t) :
    Stacked (SavedAt setup stream survey earlier) t.saved
      (liveSaves setup.options.plus earlier) := by
  refine h.induction (motive := fun earlier _ t =>
    Stacked (SavedAt setup stream survey earlier) t.saved (liveSaves setup.options.plus earlier))
    .nil ?_
  intro earlier e later s t c hs ih hc hperform
  have hsaved : (s.next setup survey.paths e).1.saved = stackAfter c s.context s.saved :=
    State.next_saved s hc
  rw [State.next_of_command hc, hperform] at hsaved
  rw [hsaved, liveSaves_concat earlier hc]
  refine (ih.mono fun stack place hplace => hplace.concat e).after c fun hsave => ?_
  rw [hsave] at hc
  refine ⟨by simp, e, later, s, ?_, (Entry.command_soleKind? hc rfl).1 rfl, rfl⟩
  rwa [List.take_left' rfl]

/-- A return within reach gives back the context and the stack of the live save that it names. -/
theorem returns_to_save {relative : Int}
    (h : Reaches setup stream survey earlier (e :: later) s)
    (hc : e.command setup.options.plus = .ok (.restore relative))
    (hreach : Saved.InReach relative (liveSaves setup.options.plus earlier).length) :
    ∃ place record rest u t,
      (liveSaves setup.options.plus earlier)[relative.natAbs - 1]? = some place ∧
      Reaches setup stream survey (earlier.take place) (record :: rest) u ∧
      record.kind? = some .saveContext ∧
      s.next setup survey.paths e = (t, none) ∧
      t.context = u.context ∧ t.saved = u.saved := by
  -- the stack is as high as there are live saves, and each entry is that of its save
  have hlive := h.saved_of_live
  obtain ⟨hone, hdepth⟩ := id hreach
  have hplace := List.getElem?_eq_getElem (l := liveSaves setup.options.plus earlier)
    (i := relative.natAbs - 1) (by omega)
  obtain ⟨_, record, rest, u, hu, hkind, hdrop⟩ := hlive.get hplace
  rw [← hlive.length_eq] at hreach
  obtain ⟨log, hlog⟩ := State.announce_eq setup e s
  obtain ⟨hcontext, hsavings⟩ :=
    State.restore_of_inReach (s := { s with log }) (by exact hreach) hdrop
  refine ⟨_, record, rest, u, _, hplace, hu, hkind, ?_, hcontext, congrArg Prod.fst hsavings⟩
  rw [State.next_of_command hc, hlog]
  exact Prod.ext rfl (State.restore_snd relative _)

/-- A return that is out of reach changes nothing but that the conversion will be incomplete, and
the playing goes on with the next record. -/
theorem returns_too_far {relative : Int}
    (h : Reaches setup stream survey earlier (e :: later) s)
    (hc : e.command setup.options.plus = .ok (.restore relative))
    (hfar : ¬Saved.InReach relative (liveSaves setup.options.plus earlier).length) :
    ∃ log result messages,
      s.next setup survey.paths e = ({ s with failed := true, log }, none) ∧
      Reaches setup stream survey (earlier ++ [e]) later { s with failed := true, log } ∧
      convert setup stream = .ok (result, messages) ∧ result.complete = false := by
  rw [← h.saved_of_live.length_eq] at hfar
  obtain ⟨log, hlog⟩ := State.announce_eq setup e s
  obtain ⟨log', hrefused⟩ := State.restore_of_not_inReach (s := { s with log }) (by exact hfar)
  have hnext : s.next setup survey.paths e = ({ s with failed := true, log := log' }, none) := by
    rw [State.next_of_command hc, hlog]
    exact hrefused
  have hreaches := h.concat hnext
  obtain ⟨result, messages, hresult, hcomplete⟩ := hreaches.incomplete rfl
  exact ⟨log', result, messages, hnext, hreaches, hresult, hcomplete⟩

/-- Saving and returning is last in, first out. At every record the stack is as high as there are
live saves. A return by as many steps as there are live saves, or fewer, gives back the context
and the stack that the last save but so many was made in. Any other return changes nothing but
that the conversion will be incomplete, and the playing goes on with the next record. A save puts
the context on the stack. No other record changes the stack, nor does one that cannot be read. -/
theorem restores_lifo (h : Reaches setup stream survey earlier (e :: later) s) :
    s.saved.length = (liveSaves setup.options.plus earlier).length ∧
    (∀ relative, e.command setup.options.plus = .ok (.restore relative) →
      (Saved.InReach relative (liveSaves setup.options.plus earlier).length →
        ∃ place record rest u t,
          (liveSaves setup.options.plus earlier)[relative.natAbs - 1]? = some place ∧
          Reaches setup stream survey (earlier.take place) (record :: rest) u ∧
          record.kind? = some .saveContext ∧
          s.next setup survey.paths e = (t, none) ∧
          t.context = u.context ∧ t.saved = u.saved) ∧
      (¬Saved.InReach relative (liveSaves setup.options.plus earlier).length →
        ∃ log result messages,
          s.next setup survey.paths e = ({ s with failed := true, log }, none) ∧
          Reaches setup stream survey (earlier ++ [e]) later { s with failed := true, log } ∧
          convert setup stream = .ok (result, messages) ∧ result.complete = false)) ∧
    (e.command setup.options.plus = .ok .save →
      (s.next setup survey.paths e).1.saved = s.context :: s.saved) ∧
    (e.kind? ≠ some .saveContext → e.kind? ≠ some .restoreContext →
      (s.next setup survey.paths e).1.saved = s.saved) ∧
    ∀ cause, e.command setup.options.plus = .error cause →
      (s.next setup survey.paths e).1.saved = s.saved :=
  ⟨h.saved_of_live.length_eq,
    fun _ hc => ⟨h.returns_to_save hc, h.returns_too_far hc⟩,
    fun hc => State.next_saved s hc,
    State.next_saved_of_other s,
    fun _ hc => State.next_saved_of_unread s hc⟩

end Reaches

/-- A stream that saves two contexts with different colours, goes back two steps, and then goes
back farther than it can. -/
def savingStream : Bytes :=
  Record.streamOf [(.header, List.replicate 80 0), (.saveContext, []),
    (.setTextColor, [1, 0, 0, 0]), (.saveContext, []), (.setTextColor, [2, 0, 0, 0]),
    (.restoreContext, [0xfe, 0xff, 0xff, 0xff]), (.restoreContext, [5, 0, 0, 0]),
    (.endOfFile, List.replicate 12 0)]

/-- The records of the stream that saves two contexts. -/
def savingEntries : List Entry := (Survey.ofStream savingStream).entries

/-- Going back two steps gives the context of the first save. Going back farther leaves the state
as it is and the picture incomplete. -/
theorem restores_lifo_twice :
    (∃ e later s record rest u t,
      Reaches .plain savingStream (.ofStream savingStream) (savingEntries.take 5) (e :: later) s ∧
      e.command true = .ok (.restore (-2)) ∧
      Reaches .plain savingStream (.ofStream savingStream) (savingEntries.take 1)
        (record :: rest) u ∧
      s.next .plain (Survey.ofStream savingStream).paths e = (t, none) ∧
      t.context = u.context ∧ t.saved = u.saved) ∧
    ∃ e later s log result messages,
      Reaches .plain savingStream (.ofStream savingStream) (savingEntries.take 6) (e :: later) s ∧
      e.command true = .ok (.restore 5) ∧
      s.next .plain (Survey.ofStream savingStream).paths e =
        ({ s with failed := true, log }, none) ∧
      convert .plain savingStream = .ok (result, messages) ∧ result.complete = false := by
  have hback : Reaches .plain savingStream _ (savingEntries.take 5) (savingEntries.drop 5) _ :=
    .of_steps 5 (by decide +kernel) (by decide +kernel)
  have hfar : Reaches .plain savingStream _ (savingEntries.take 6) (savingEntries.drop 6) _ :=
    .of_steps 6 (by decide +kernel) (by decide +kernel)
  rw [show savingEntries.drop 5 =
    ⟨128, 34, Record.Kind.restoreContext.record [0xfe, 0xff, 0xff, 0xff]⟩ ::
      savingEntries.drop 6 by decide +kernel] at hback
  rw [show savingEntries.drop 6 =
    ⟨140, 34, Record.Kind.restoreContext.record [5, 0, 0, 0]⟩ :: savingEntries.drop 7 by
    decide +kernel] at hfar
  have hlive : liveSaves Setup.plain.options.plus (savingEntries.take 5) = [3, 1] := by
    decide +kernel
  have hnone : liveSaves Setup.plain.options.plus (savingEntries.take 6) = [] := by decide +kernel
  have hcommand : Entry.command Setup.plain.options.plus
      ⟨128, 34, Record.Kind.restoreContext.record [0xfe, 0xff, 0xff, 0xff]⟩ =
        .ok (.restore (-2)) :=
    command_of_restore rfl (by decide +kernel)
  have hcommand' : Entry.command Setup.plain.options.plus
      ⟨140, 34, Record.Kind.restoreContext.record [5, 0, 0, 0]⟩ = .ok (.restore 5) :=
    command_of_restore rfl (by decide +kernel)
  -- the first return goes past a save to the one before, and the second one goes too far
  constructor
  · obtain ⟨place, record, rest, u, t, hplace, hu, _, hnext, hcontext, hsaved⟩ :=
      (hback.restores_lifo.2.1 (-2) hcommand).1 (by rw [hlive]; decide)
    rw [hlive] at hplace
    obtain rfl : 1 = place := Option.some.inj hplace
    rw [List.take_take] at hu
    exact ⟨_, _, _, record, rest, u, t, hback, hcommand, hu, hnext, hcontext, hsaved⟩
  · obtain ⟨log, result, messages, hnext, _, hresult, hcomplete⟩ :=
      (hfar.restores_lifo.2.1 5 hcommand').2 (by rw [hnone]; decide)
    exact ⟨_, _, _, log, result, messages, hfar, hcommand', hnext, hresult, hcomplete⟩

end Playback

end Metafile
