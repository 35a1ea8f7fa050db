import Metafile.Convert
import Metafile.Proofs.Playback.Changes
import Metafile.Proofs.Record.Walk

/-!
# `Metafile.Proofs.Playback.History`: the boundaries between records

The records of an accepted stream are played one after the other. `Reaches` says that the playing
comes to the boundary between two records, and in which state. A property of all boundaries is
proved by `Reaches.induction`, one record at a time. The state before a record is the one in which
the record is listed, and then the command of the record is performed.

`Reaches.brackets_eq` counts the brackets of a boundary: there is one for each record that begins
one. So the path that the survey has for a bracket is always found (`Reaches.use_of_begin`,
`Reaches.use_of_end`), and a record that begins or ends a bracket never fails.
-/

set_option autoImplicit false

namespace Metafile.Playback

open Metafile.Record (Command Entry Kind PathUse Survey begins sinceBegin)

/-- A conversion with the initial options, in which every clip region replaces the one before and
pictures have the beginning of a PNG file. -/
def Setup.plain : Setup := ⟨.initial, .replacing, Bitmap.Png.head⟩

namespace State

/-- The state before the first record of a survey. -/
def start (survey : Survey) : State :=
  { State.initial with log := #[survey.message, Conversion.startMessage survey] }

/-- Lists a record and plays it. -/
def next (setup : Setup) (uses : List PathUse) (e : Entry) (s : State) :
    State × Option Fault :=
  (s.announce setup e).step setup uses e

/-- Playing a record performs its command, if the record can be read. -/
theorem step_eq (setup : Setup) (uses : List PathUse) (e : Entry) (s : State) :
    s.step setup uses e =
      match e.command setup.options.plus with
      | .ok c => s.perform setup uses c
      | .error fault => (s, some fault) := by
  unfold step Entry.command
  cases e.kind? <;> rfl

/-- A record that can be read is listed, and its command is performed. -/
theorem next_of_command {setup : Setup} {uses : List PathUse} {e : Entry} {c : Command}
    {s : State} (hc : e.command setup.options.plus = .ok c) :
    s.next setup uses e = (s.announce setup e).perform setup uses c := by
  rw [next, step_eq, hc]

/-- A record that was played without a fault was read, and its command was performed. -/
theorem next_eq_ok {setup : Setup} {uses : List PathUse} {e : Entry} {s t : State}
    (h : s.next setup uses e = (t, none)) :
    ∃ c, e.command setup.options.plus = .ok c ∧
      (s.announce setup e).perform setup uses c = (t, none) := by
  rw [next, step_eq] at h
  split at h
  · rename_i c hc
    exact ⟨c, hc, h⟩
  · cases h

/-- Records that were played without a fault were played so up to any place between them, and from
there on. -/
theorem steps_split {setup : Setup} {uses : List PathUse} {earlier later : List Entry}
    {s t : State} (h : s.steps setup uses (earlier ++ later) = (t, none)) :
    ∃ u, s.steps setup uses earlier = (u, none) ∧ u.steps setup uses later = (t, none) := by
  induction earlier generalizing s with
  | nil => exact ⟨s, rfl, h⟩
  | cons first rest ih =>
      rw [List.cons_append, steps] at h
      rw [steps]
      split at h
      · exact ih h
      · cases h

/-- Playing a list of one record is playing the record. -/
theorem steps_singleton {setup : Setup} {uses : List PathUse} {e : Entry} {s t : State} :
    s.steps setup uses [e] = (t, none) ↔ s.next setup uses e = (t, none) := by
  rw [steps, ← next]
  cases s.next setup uses e with
  | mk u fault =>
      cases fault with
      | none =>
          -- both say that the state after the record is the same
          constructor <;> intro h <;> obtain ⟨rfl, _⟩ := Prod.mk.inj h <;> rfl
      | some fault => simp

/-! ### Commands and brackets -/

/-- Whether a bracket is open after a command, where one is open before it or not. -/
def inPathAfter (c : Command) (before : Bool) : Bool :=
  match c with
  | .beginPath => true
  | .endPath | .abortPath | .endOfFile => false
  | _ => before

/-- Which records open and close brackets is known from their kinds. -/
theorem inPathAfter_eq {plus : Bool} {e : Entry} {c : Command} (hc : e.command plus = .ok c)
    (before : Bool) :
    inPathAfter c before =
      match e.kind? with
      | some .beginPath => true
      | some .endPath | some .abortPath | some .endOfFile => false
      | _ => before := by
  have hsole (kind : Kind) (h : kind.isSole = true) :
      c.soleKind? = some kind ↔ e.kind? = some kind :=
    Entry.command_soleKind? hc h
  unfold inPathAfter
  split
  · rw [(hsole .beginPath rfl).1 rfl]
  · rw [(hsole .endPath rfl).1 rfl]
  · rw [(hsole .abortPath rfl).1 rfl]
  · rw [(hsole .endOfFile rfl).1 rfl]
  · -- no other command is that of a record which opens or closes a bracket
    split
    · have hkind := (hsole .beginPath rfl).2 ‹_›
      cases c <;> first | contradiction | cases hkind
    · have hkind := (hsole .endPath rfl).2 ‹_›
      cases c <;> first | contradiction | cases hkind
    · have hkind := (hsole .abortPath rfl).2 ‹_›
      cases c <;> first | contradiction | cases hkind
    · have hkind := (hsole .endOfFile rfl).2 ‹_›
      cases c <;> first | contradiction | cases hkind
    · rfl

/-- Opening a bracket without a fault. -/
theorem beginPath_eq_ok {uses : List PathUse} {s t : State} (h : s.beginPath uses = (t, none)) :
    t.inPath = true ∧ t.brackets = s.brackets + 1 := by
  unfold beginPath at h
  simp only at h
  split at h
  · cases h
  · obtain ⟨rfl, _⟩ := Prod.mk.inj h
    refine ⟨rfl, ?_⟩
    exact (replay_keeps _ _).2.2.2.trans (congrArg (· + 1) (abandon_keeps s).2.1)

/-- Closing a bracket without a fault. -/
theorem endPath_eq_ok {uses : List PathUse} {s t : State} (h : s.endPath uses = (t, none)) :
    t.inPath = false ∧ t.brackets = s.brackets := by
  unfold endPath at h
  split at h
  · rename_i hbracket
    obtain ⟨rfl, _⟩ := Prod.mk.inj h
    exact ⟨by rw [inPath, hbracket]; rfl, rfl⟩
  · rename_i bracket _
    split at h
    · cases h
    · rename_i use _
      obtain ⟨rfl, _⟩ := Prod.mk.inj h
      obtain ⟨_, _, hbracket, hbrackets⟩ :=
        replay_keeps use.after (s.close (s.pathPaint use) bracket)
      exact ⟨by rw [inPath, hbracket]; rfl, hbrackets⟩

/-- A command opens and closes brackets, and counts those that it opens. -/
theorem perform_bracket {setup : Setup} {uses : List PathUse} {c : Command} {s t : State}
    (h : s.perform setup uses c = (t, none)) :
    t.inPath = inPathAfter c s.inPath ∧
      t.brackets = s.brackets + if c.soleKind? = some .beginPath then 1 else 0 := by
  -- what only adds leaves the brackets alone, and each of the others is looked at
  cases honly : onlyAdds c with
  | true =>
      obtain ⟨pieces, hadds, _⟩ := perform_adds setup uses s honly
      rw [h] at hadds
      have hkeeps : t.inPath = s.inPath ∧ t.brackets = s.brackets + 0 :=
        ⟨hadds.inPath, hadds.brackets⟩
      cases c <;> first | exact hkeeps | cases honly
  | false =>
      cases c with
      | beginPath => exact beginPath_eq_ok h
      | endPath => exact endPath_eq_ok h
      | endOfFile =>
          obtain ⟨rfl, _⟩ := Prod.mk.inj h
          obtain ⟨player, log, heq⟩ := endDocument_eq setup.options s
          obtain ⟨hbracket, hbrackets, _⟩ := abandon_keeps s
          rw [heq]
          exact ⟨congrArg Option.isSome hbracket, hbrackets⟩
      | abortPath =>
          obtain ⟨rfl, _⟩ := Prod.mk.inj h
          obtain ⟨hbracket, hbrackets, _⟩ := abandon_keeps s
          exact ⟨congrArg Option.isSome hbracket, hbrackets⟩
      | save =>
          obtain ⟨rfl, _⟩ := Prod.mk.inj h
          exact ⟨rfl, rfl⟩
      | restore relative =>
          obtain ⟨context, saved, wrapped, failed, written, held, log, heq⟩ :=
            restore_eq relative s
          obtain ⟨rfl, _⟩ := Prod.mk.inj (heq.symm.trans h)
          exact ⟨rfl, rfl⟩
      | transform change =>
          obtain ⟨rfl, _⟩ := Prod.mk.inj h
          obtain ⟨world, wrapped, written, held, log, heq⟩ := transform_eq change s
          rw [heq]
          exact ⟨rfl, rfl⟩
      | header _ | draw _ | closeFigure | flattenPath | set _ | mapMode _ | layout _ | moveTo _
      | create _ _ | createPattern _ _ _ | select _ | delete _ | clip _ | blit _ | label _ _
      | plus _ | nothing => cases honly

end State

/-! ### Boundaries -/

/-- Playing an accepted stream comes to the boundary between two of its records. -/
structure Reaches (setup : Setup) (stream : Bytes) (survey : Survey) (earlier later : List Entry)
    (t : State) : Prop where
  accepted : Survey.ofBytes stream = .ok survey
  split : survey.entries = earlier ++ later
  played : (State.start survey).steps setup survey.paths earlier = (t, none)

namespace Reaches

variable {setup : Setup} {stream : Bytes} {survey : Survey} {earlier later : List Entry}
  {e : Entry} {s t : State}

/-- A boundary after one more record. -/
theorem concat (h : Reaches setup stream survey earlier (e :: later) s)
    (hnext : s.next setup survey.paths e = (t, none)) :
    Reaches setup stream survey (earlier ++ [e]) later t := by
  refine ⟨h.accepted, by rw [h.split, List.append_assoc]; rfl, ?_⟩
  rw [State.steps_append h.played]
  exact State.steps_singleton.2 hnext

/-- What holds before the first record and is preserved by every record that is played without a
fault holds at every boundary. -/
theorem induction {motive : List Entry → List Entry → State → Prop}
    (start : motive [] survey.entries (State.start survey))
    (concat : ∀ earlier e later s t c, Reaches setup stream survey earlier (e :: later) s →
      motive earlier (e :: later) s → e.command setup.options.plus = .ok c →
      (s.announce setup e).perform setup survey.paths c = (t, none) →
      motive (earlier ++ [e]) later t)
    (h : Reaches setup stream survey earlier later t) : motive earlier later t := by
  -- the last record is the first of the reversed list
  obtain ⟨reversed, rfl⟩ : ∃ reversed : List Entry, earlier = reversed.reverse :=
    ⟨earlier.reverse, earlier.reverse_reverse.symm⟩
  induction reversed generalizing later t with
  | nil =>
      obtain ⟨rfl, _⟩ := Prod.mk.inj h.played
      obtain rfl : survey.entries = later := h.split
      exact start
  | cons e rest ih =>
      have hsplit := h.split
      have hplayed := h.played
      rw [List.reverse_cons] at hsplit hplayed ⊢
      obtain ⟨s, hs, hlast⟩ := State.steps_split hplayed
      have hbefore : Reaches setup stream survey rest.reverse (e :: later) s :=
        ⟨h.accepted, by rw [hsplit, List.append_assoc]; rfl, hs⟩
      obtain ⟨c, hc, hperform⟩ := State.next_eq_ok (State.steps_singleton.1 hlast)
      exact concat rest.reverse e later s t c hbefore (ih hbefore) hc hperform

/-- A boundary is come to from any boundary before it. -/
theorem cut {middle : List Entry} (h : Reaches setup stream survey (earlier ++ middle) later t) :
    ∃ s, Reaches setup stream survey earlier (middle ++ later) s ∧
      s.steps setup survey.paths middle = (t, none) := by
  obtain ⟨s, hs, hmiddle⟩ := State.steps_split h.played
  exact ⟨s, ⟨h.accepted, by rw [h.split, List.append_assoc], hs⟩, hmiddle⟩

/-- The survey has walked over the records before a boundary. -/
theorem walk (h : Reaches setup stream survey earlier later t) :
    ∃ w, Record.Walk.ofEntries earlier = .ok w := by
  obtain ⟨_, _, hwalk, _⟩ := Survey.ofBytes_eq_ok h.accepted
  rw [h.split] at hwalk
  obtain ⟨w, hw, _⟩ := Record.Walk.ofEntries_append hwalk
  exact ⟨w, hw⟩

/-- The command of a record after which others are left is not that of the end record. -/
theorem ne_endOfFile {c : Command} (h : Reaches setup stream survey earlier (e :: later) s)
    (hc : e.command setup.options.plus = .ok c) (hlater : later ≠ []) : c ≠ .endOfFile := by
  rintro rfl
  have hkind : e.kind? = some .endOfFile := (Entry.command_soleKind? hc rfl).1 rfl
  exact hlater ((Survey.end_last h.accepted h.split).2.1 hkind)

/-- The command of a record is that of the header if and only if no record was before. -/
theorem header_iff {c : Command} (h : Reaches setup stream survey earlier (e :: later) s)
    (hc : e.command setup.options.plus = .ok c) : c.soleKind? = some .header ↔ earlier = [] :=
  (Entry.command_soleKind? hc rfl).trans (Survey.header_first h.accepted h.split)

/-- At a boundary there were as many brackets as records that begin one. -/
theorem brackets_eq (h : Reaches setup stream survey earlier later t) :
    t.brackets = begins earlier := by
  refine h.induction (motive := fun earlier _ t => t.brackets = begins earlier) rfl ?_
  intro earlier e later s t c _ ih hc hperform
  rw [Record.begins_concat, (State.perform_bracket hperform).2,
    (State.announce_adds setup e s).brackets, ih]
  have hbegin : c.soleKind? = some Kind.beginPath ↔ e.kind? = some .beginPath :=
    Entry.command_soleKind? hc rfl
  simp only [hbegin]

/-- The path of a record that begins a bracket is found. -/
theorem use_of_begin (h : Reaches setup stream survey earlier (e :: later) t)
    (hbegin : e.kind? = some .beginPath) : ∃ use, survey.paths[t.brackets]? = some use := by
  rw [h.brackets_eq]
  exact Survey.use_of_begin h.accepted h.split hbegin

/-- The path of a record that ends an open bracket is found. -/
theorem use_of_end (h : Reaches setup stream survey earlier later t) (hopen : t.inPath = true) :
    t.brackets ≠ 0 ∧ ∃ use, survey.paths[t.brackets - 1]? = some use := by
  have hopened : t.inPath = true → t.brackets ≠ 0 := by
    refine h.induction (motive := fun _ _ t => t.inPath = true → t.brackets ≠ 0)
      (fun hnone => by cases hnone) ?_
    intro earlier e later s t c _ ih _ hperform hafter
    obtain ⟨hinPath, hbrackets⟩ := State.perform_bracket hperform
    rw [(State.announce_adds setup e s).inPath] at hinPath
    rw [(State.announce_adds setup e s).brackets] at hbrackets
    by_cases hbegin : c.soleKind? = some .beginPath
    · rw [hbrackets, if_pos hbegin]
      omega
    · -- a bracket that is open after any other command was open before it
      have hbefore : s.inPath = true := by
        rw [hinPath] at hafter
        cases c <;> first | exact hafter | exact absurd rfl hbegin | cases hafter
      have := ih hbefore
      rw [hbrackets]
      omega
  -- a bracket that is open was counted, and the survey has as many as were begun
  have hne := hopened hopen
  have hle := Survey.begins_le_length h.accepted h.split
  rw [← h.brackets_eq] at hle
  exact ⟨hne, survey.paths[t.brackets - 1], List.getElem?_eq_getElem (by omega)⟩

/-- The boundary after a number of records that are played without a fault. -/
theorem of_steps (n : Nat) (hok : (Survey.ofBytes stream).isOk = true)
    (hplayed : ((State.start (.ofStream stream)).steps setup (Survey.ofStream stream).paths
      ((Survey.ofStream stream).entries.take n)).2 = none) :
    Reaches setup stream (.ofStream stream) ((Survey.ofStream stream).entries.take n)
      ((Survey.ofStream stream).entries.drop n)
      ((State.start (.ofStream stream)).steps setup (Survey.ofStream stream).paths
        ((Survey.ofStream stream).entries.take n)).1 :=
  ⟨Survey.ofBytes_ofStream hok, (List.take_append_drop n _).symm, Prod.ext rfl hplayed⟩

end Reaches

end Metafile.Playback
