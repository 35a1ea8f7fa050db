import Metafile.Proofs.Bytes.Offsets
import Metafile.Proofs.Playback.Saves

/-!
# `Metafile.Proofs.Playback.World`: every change of the world transform counts once

The changes of the world transform inside of a bracket are not played in their own place. The
survey collects them in two lists, and playing applies the first list where the bracket begins and
the second where it ends. `Worlds.afterRecords` is the direct reading of a stream: each change
takes effect at its own record. It looks at nothing but the kinds of the records and their bytes,
and says itself what each mode does. The commands that are played come in with
`Worlds.afterRecord_eq_after`.

`Reaches.worlds_eq` states that both readings agree wherever no path is open, for every accepted
stream with `Orderly` brackets. The proof carries an invariant through open brackets, too
(`Tracks`). Inside of one the playing is ahead of the records by the changes that come before the
drawing, and behind by the others, and both are known from the survey.
-/

set_option autoImplicit false

namespace Metafile.Playback

open Metafile.Record (Command Entry PathUse Survey TransformChange begins changes insideAfter
  sinceBegin)

/-! ### The direct reading -/

/-- The world transform and those of the saved contexts, the last one first. -/
structure Worlds where
  current : Affine Float
  saved : List (Affine Float)
deriving DecidableEq, Repr

namespace Worlds

/-- The transforms before the first record. -/
def initial : Worlds := ⟨Affine.identity, []⟩

/-- The transforms after a return to the `|relative|`-th saved context. A context that was not
saved changes nothing. -/
def restored (relative : Int) (w : Worlds) : Worlds :=
  if relative = 0 then w
  else
    match w.saved.drop (relative.natAbs - 1) with
    | [] => w
    | world :: saved => ⟨world, saved⟩

/-- A world transform after a modification with a map, by the number of the mode. The first mode
goes back to the identity, the second lets the map act before the transform that is there, the
third after it, and the fourth puts the map in its place. Any other number changes nothing. -/
def modified (mode : Nat) (map world : Affine Float) : Affine Float :=
  match mode with
  | 1 => Affine.identity
  | 2 => map.followedBy world
  | 3 => world.followedBy map
  | 4 => map
  | _ => world

/-- The transforms after a record, as its bytes say. Behind the record header there is the map
that the record brings, and behind the map the mode, or there is the number of steps to return by.
-/
def afterRecord (w : Worlds) (e : Entry) : Worlds :=
  match e.kind? with
  | some .setWorldTransform => { w with current := e.body.affineAt 8 }
  | some .modifyWorldTransform =>
    { w with current := modified (e.body.wordAt 32 4) (e.body.affineAt 8) w.current }
  | some .saveContext => { w with saved := w.current :: w.saved }
  | some .restoreContext => w.restored (e.body.intAt 8 4)
  | _ => w

/-- The transforms after the records of a list, each of which takes effect in its own place. -/
def afterRecords (records : List Entry) : Worlds :=
  records.foldl afterRecord initial

/-! ### The direct reading by commands -/

/-- The transforms after a command that takes effect at once. -/
def after (w : Worlds) : Command → Worlds
  | .transform t => { w with current := t.onto w.current }
  | .save => { w with saved := w.current :: w.saved }
  | .restore relative => w.restored relative
  | _ => w

/-- A change of the world transform does what its mode says. -/
theorem modified_eq_onto (mode : Nat) (map world : Affine Float) :
    modified mode map world = TransformChange.onto ⟨mode, map⟩ world := by
  match mode with
  | 0 | 1 | 2 | 3 | 4 => rfl
  | _ + 5 => rfl

/-- The map of a record that sets the world transform stands behind its header. -/
theorem gets_setting : Decode.Gets (Record.transformChange .setWorldTransform) 24
    fun data offset => ⟨TransformChange.setMode, data.affineAt offset⟩ :=
  Cursor.gets_affine.map fun map => (⟨TransformChange.setMode, map⟩ : TransformChange)

/-- The mode of a record that modifies the world transform stands behind its map. -/
theorem gets_modification : Decode.Gets (Record.transformChange .modifyWorldTransform) 28
    fun data offset => ⟨data.wordAt (offset + 24) 4, data.affineAt offset⟩ :=
  Cursor.gets_affine.bind fun map => Cursor.gets_u32.map fun mode =>
    (⟨mode, map⟩ : TransformChange)

/-- A record that changes the world transform has the command of the change that its bytes hold.
-/
theorem command_of_change {plus : Bool} {e : Entry} {c : Command} {kind : Record.Kind}
    {width : Nat} {value : Bytes → Nat → TransformChange} (hkind : e.kind? = some kind)
    (hchanges : kind.isTransform = true)
    (hgets : Decode.Gets (Record.transformChange kind) width value)
    (hc : e.command plus = .ok c) :
    c = .transform (value e.body Record.headerBytes) := by
  unfold Entry.command at hc
  rw [hkind] at hc
  dsimp only at hc
  rw [Command.ofRecord_transform plus e.body hchanges] at hc
  cases hread : (Record.transformChange kind).from e.body Record.headerBytes with
  | error fault =>
      rw [hread] at hc
      cases hc
  | ok t =>
      rw [hread] at hc
      obtain rfl : Command.transform t = c := Except.ok.inj hc
      exact congrArg Command.transform (hgets.from_eq_ok.1 hread).2.symm

/-- Only the records of two kinds change the world transform. -/
theorem kind_of_change {plus : Bool} {e : Entry} {t : TransformChange}
    (hc : e.command plus = .ok (.transform t)) :
    e.kind? = some .setWorldTransform ∨ e.kind? = some .modifyWorldTransform := by
  unfold Entry.command at hc
  cases hkind : e.kind? with
  | none =>
      rw [hkind] at hc
      cases hc
  | some kind =>
      rw [hkind] at hc
      have hchanges : kind.isTransform = true := (Command.ofRecord_isTransform hc).symm
      cases kind <;> first | exact .inl rfl | exact .inr rfl | cases hchanges

/-- A record that returns to a saved context has the number of steps behind its header. -/
theorem command_of_return {plus : Bool} {e : Entry} {c : Command}
    (hkind : e.kind? = some .restoreContext) (hc : e.command plus = .ok c) :
    c = .restore (e.body.intAt 8 4) := by
  have hreturns : Record.Kind.restoreContext.isSole = true := rfl
  have hsole := (Entry.command_soleKind? hc hreturns).2 hkind
  cases c with
  | restore relative =>
      rw [Entry.command, hkind] at hc
      have hread : (Cursor.i32 >>= fun n => pure (Command.restore n)).from e.body
          Record.headerBytes = .ok (.restore relative) := by
        rw [← Decode.first_seek_bind]
        exact hc
      have hgets := Cursor.gets_i32.map Command.restore
      exact (hgets.from_eq_ok.1 hread).2.symm
  | _ => cases hsole

/-- A record does to the transforms what its command does. -/
theorem afterRecord_eq_after {plus : Bool} {e : Entry} {c : Command} (w : Worlds)
    (hc : e.command plus = .ok c) : w.afterRecord e = w.after c := by
  have hsole (kind : Record.Kind) (h : kind.isSole = true) :
      c.soleKind? = some kind ↔ e.kind? = some kind := Entry.command_soleKind? hc h
  unfold afterRecord
  split
  case h_1 hkind =>
    rw [command_of_change hkind rfl gets_setting hc]
    rfl
  case h_2 hkind =>
    rw [command_of_change hkind rfl gets_modification hc, modified_eq_onto]
    rfl
  case h_3 hkind =>
    have hcommand := (hsole .saveContext rfl).2 hkind
    cases c <;> first | rfl | cases hcommand
  case h_4 hkind =>
    rw [command_of_return hkind hc]
    rfl
  case h_5 hset hmodify hsave hrestore =>
    -- what is left has none of the three commands that do something
    cases c with
    | transform change => exact ((kind_of_change hc).elim hset hmodify).elim
    | save => exact absurd ((hsole .saveContext rfl).1 rfl) hsave
    | restore relative => exact absurd ((hsole .restoreContext rfl).1 rfl) hrestore
    | _ => rfl

/-- One more record takes effect after the others. -/
theorem afterRecords_concat {plus : Bool} {records : List Entry} {e : Entry} {c : Command}
    (hc : e.command plus = .ok c) :
    afterRecords (records ++ [e]) = (afterRecords records).after c := by
  rw [afterRecords, List.foldl_append]
  exact afterRecord_eq_after _ hc

/-- The transforms after several changes of the world transform. -/
def applied (ts : List TransformChange) (w : Worlds) : Worlds :=
  { w with current := ts.foldl (fun world t => t.onto world) w.current }

/-- Changes are applied one after the other. -/
theorem applied_append (ts us : List TransformChange) (w : Worlds) :
    w.applied (ts ++ us) = (w.applied ts).applied us := by
  unfold applied
  rw [List.foldl_append]

end Worlds

/-- A stream in which brackets are in order: while one is open, no record begins another one,
aborts it, saves a context, returns to a saved context or ends the stream. -/
def Orderly (records : List Entry) : Prop :=
  ∀ n, (h : n < records.length) → (sinceBegin (records.take n)).isSome = true →
    records[n].kind? ∉ [some .beginPath, some .abortPath, some .saveContext,
      some .restoreContext, some .endOfFile]

/-- Whether the brackets of a stream are in order can be computed. -/
instance (records : List Entry) : Decidable (Orderly records) :=
  inferInstanceAs (Decidable (∀ n, (h : n < records.length) →
    (sinceBegin (records.take n)).isSome = true →
      records[n].kind? ∉ [some .beginPath, some .abortPath, some .saveContext,
        some .restoreContext, some .endOfFile]))

/-- The record at a place of an orderly stream. -/
theorem Orderly.at {records earlier later : List Entry} {e : Entry} (h : Orderly records)
    (hsplit : records = earlier ++ e :: later) (hopen : (sinceBegin earlier).isSome = true) :
    e.kind? ∉ [some .beginPath, some .abortPath, some .saveContext, some .restoreContext,
      some .endOfFile] := by
  have hlt : earlier.length < records.length := by
    rw [hsplit, List.length_append, List.length_cons]
    omega
  have hat := h earlier.length hlt (by rw [hsplit, List.take_left]; exact hopen)
  simpa [hsplit] using hat

namespace State

/-- The world transform of a state and those of its saved contexts. -/
def worlds (s : State) : Worlds :=
  ⟨s.context.world, s.saved.map Device.Context.world⟩

/-- What only adds pieces leaves all world transforms alone. -/
theorem Adds.worlds {s t : State} {pieces : Markup.Document} (h : Adds s t pieces) :
    t.worlds = s.worlds := by
  unfold State.worlds
  rw [h.world, h.saved]

/-- A group that is written leaves all world transforms alone. -/
theorem wrap_worlds (s : State) : s.wrap.worlds = s.worlds := by
  obtain ⟨hcontext, hsaved, _, _⟩ := wrap_keeps s
  unfold worlds
  rw [hcontext, hsaved]

/-- Returning to a saved context returns to its world transform. -/
theorem restore_worlds (relative : Int) (s : State) :
    (s.restore relative).1.worlds = s.worlds.restored relative := by
  -- the context itself is none of the saved ones
  by_cases hzero : relative = 0
  · have hnone : s.saved.restore relative =
        .error (.outOfBounds (.savedContext relative s.saved.length)) :=
      if_pos hzero
    unfold restore Worlds.restored
    rw [hnone, if_pos hzero]
    rfl
  · have hdrop : s.worlds.saved.drop (relative.natAbs - 1) =
        (s.saved.drop (relative.natAbs - 1)).map Device.Context.world := List.map_drop.symm
    unfold restore Worlds.restored Device.Saved.restore
    rw [if_neg hzero, if_neg hzero, hdrop]
    cases s.saved.drop (relative.natAbs - 1) with
    | nil => rfl
    | cons context rest =>
        dsimp only [List.map_cons]
        split
        · exact wrap_worlds { s with context, saved := rest }
        · rfl

/-- Where no path is open, every command that does not begin one takes effect on the transforms at
once. -/
theorem perform_worlds_of_closed {setup : Setup} {uses : List PathUse} {c : Command} {s t : State}
    (hclosed : s.inPath = false) (hbegin : c.soleKind? ≠ some .beginPath)
    (h : s.perform setup uses c = (t, none)) : t.worlds = s.worlds.after c := by
  cases honly : onlyAdds c with
  | true =>
      obtain ⟨pieces, hadds, _⟩ := perform_adds setup uses s honly
      rw [h] at hadds
      have hsame := hadds.worlds
      cases c <;> first | exact hsame | cases honly
  | false =>
      cases c with
      | beginPath => exact absurd rfl hbegin
      | endPath =>
          -- there is no bracket to end
          change s.endPath uses = (t, none) at h
          unfold endPath at h
          rw [bracket_of_closed hclosed] at h
          obtain ⟨rfl, _⟩ := Prod.mk.inj h
          rfl
      | endOfFile =>
          obtain ⟨rfl, _⟩ := Prod.mk.inj h
          obtain ⟨player, log, heq⟩ := endDocument_eq setup.options s
          rw [heq, abandon_of_closed hclosed]
          rfl
      | abortPath =>
          obtain ⟨rfl, _⟩ := Prod.mk.inj h
          unfold abortPath
          rw [abandon_of_closed hclosed]
          rfl
      | save =>
          obtain ⟨rfl, _⟩ := Prod.mk.inj h
          rfl
      | restore relative =>
          obtain rfl : (s.restore relative).1 = t := congrArg Prod.fst h
          exact restore_worlds relative s
      | transform change =>
          obtain ⟨rfl, _⟩ := Prod.mk.inj h
          obtain ⟨hworld, hsaved, _, _⟩ := transform_of_closed hclosed change
          unfold worlds Worlds.after
          rw [hworld, hsaved]
      | header _ | draw _ | closeFigure | flattenPath | set _ | mapMode _ | layout _ | moveTo _
      | create _ _ | createPattern _ _ _ | select _ | delete _ | clip _ | blit _ | label _ _
      | plus _ | nothing => cases honly

/-- While a path is open, the commands that only draw leave the transforms as they are, and so do
those that change the world transform. -/
theorem perform_worlds_of_open {setup : Setup} {uses : List PathUse} {c : Command} {s t : State}
    (hopen : s.inPath = true) (honly : onlyAdds c = true ∨ c.change?.isSome = true)
    (h : s.perform setup uses c = (t, none)) : t.worlds = s.worlds := by
  rcases honly with honly | hchange
  · obtain ⟨pieces, hadds, _⟩ := perform_adds setup uses s honly
    rw [h] at hadds
    exact hadds.worlds
  · obtain ⟨change, hc⟩ := Option.isSome_iff_exists.1 hchange
    obtain rfl : c = .transform change := by
      cases c <;> first | exact congrArg Command.transform (Option.some.inj hc) | cases hc
    obtain ⟨rfl, _⟩ := Prod.mk.inj h
    rw [transform_of_open hopen]

end State

/-! ### The two readings side by side -/

/-- The two readings at a boundary. Where no bracket is open they agree. Inside of a bracket the
playing has applied the changes that come before the drawing, and the direct reading those of the
records so far, both to the transforms with which the bracket began. -/
structure Tracks (survey : Survey) (earlier : List Entry) (t : State) : Prop where
  inPath : t.inPath = (sinceBegin earlier).isSome
  outside : sinceBegin earlier = none → t.worlds = Worlds.afterRecords earlier
  inside : ∀ records, sinceBegin earlier = some records →
    ∃ (use : PathUse) (w : Worlds), survey.paths[t.brackets - 1]? = some use ∧
      t.worlds = w.applied use.before ∧ Worlds.afterRecords earlier = w.applied (changes records)

/-- A record that only adds pieces keeps both readings of the stream together. -/
private theorem Tracks.of_adds {survey : Survey} {earlier : List Entry}
    {s t : State} {pieces : Markup.Document} (hs : Tracks survey earlier s)
    (h : State.Adds s t pieces) : Tracks survey earlier t := by
  refine ⟨h.inPath.trans hs.inPath, fun hnone => h.worlds.trans (hs.outside hnone), ?_⟩
  intro records hrecords
  rw [h.brackets, h.worlds]
  exact hs.inside records hrecords

/-- A bracket that is begun in order applies the changes before its drawing. -/
private theorem Tracks.began {setup : Setup} {survey : Survey} {plus : Bool}
    {earlier : List Entry} {e : Entry} {s t : State} {use : PathUse}
    (hs : Tracks survey earlier s) (hclosed : sinceBegin earlier = none)
    (hkind : e.kind? = some .beginPath) (hc : e.command plus = .ok .beginPath)
    (huse : survey.paths[s.brackets]? = some use)
    (h : s.perform setup survey.paths .beginPath = (t, none)) :
    Tracks survey (earlier ++ [e]) t := by
  have hinside : sinceBegin (earlier ++ [e]) = some [] := by
    rw [Record.sinceBegin_concat, insideAfter, hkind]
  -- there is no older bracket to give up
  have habandon : s.abandon = s := by
    refine State.abandon_of_closed ?_
    rw [hs.inPath, hclosed]
    rfl
  change s.beginPath survey.paths = (t, none) at h
  rw [State.beginPath_of_use huse, habandon] at h
  obtain ⟨rfl, _⟩ := Prod.mk.inj h
  obtain ⟨hworld, hsaved, _, hbrackets⟩ :=
    State.replay_keeps use.before { s with brackets := s.brackets + 1 }
  refine ⟨by rw [hinside]; rfl, fun hnone => ?_, fun records hrecords => ?_⟩
  · rw [hinside] at hnone
    cases hnone
  obtain rfl : [] = records := Option.some.inj (hinside.symm.trans hrecords)
  refine ⟨use, s.worlds, ?_, ?_, ?_⟩
  · change
      survey.paths[({ s with brackets := s.brackets + 1 }.replay use.before).brackets - 1]? = _
    rw [hbrackets]
    exact huse
  · unfold State.worlds Worlds.applied
    dsimp only
    rw [hworld, hsaved]
  · rw [Worlds.afterRecords_concat hc, ← hs.outside hclosed]
    rfl

/-- A bracket that is ended applies the changes after its drawing, and then both readings have
applied all changes inside of it. -/
private theorem Tracks.ended {setup : Setup} {survey : Survey} {plus : Bool}
    {earlier : List Entry} {e : Entry} {s t : State} {use : PathUse} {records : List Entry}
    (hs : Tracks survey earlier s) (hopen : sinceBegin earlier = some records)
    (hkind : e.kind? = some .endPath) (hc : e.command plus = .ok .endPath)
    (hopened : s.brackets ≠ 0) (huse : survey.paths[s.brackets - 1]? = some use)
    (hchanges : use.before ++ use.after = changes records)
    (h : s.perform setup survey.paths .endPath = (t, none)) :
    Tracks survey (earlier ++ [e]) t := by
  have hinside : sinceBegin (earlier ++ [e]) = none := by
    rw [Record.sinceBegin_concat, insideAfter, hkind]
  obtain ⟨bracket, hbracket⟩ : ∃ bracket, s.bracket = some bracket := by
    refine Option.isSome_iff_exists.1 ?_
    rw [← State.inPath, hs.inPath, hopen]
    rfl
  -- the bracket is written, and what was put off to its end is replayed
  change s.endPath survey.paths = (t, none) at h
  rw [State.endPath_of_use hbracket hopened huse] at h
  obtain ⟨rfl, _⟩ := Prod.mk.inj h
  obtain ⟨hworld, hsaved, hnone, _⟩ :=
    State.replay_keeps use.after (s.close (s.pathPaint use) bracket)
  refine ⟨by rw [hinside, State.inPath, hnone, Option.isSome_none]; rfl, fun _ => ?_,
    fun _ hsome => absurd (hsome.symm.trans hinside) (Option.some_ne_none _)⟩
  -- the two lists of changes make up all that the bracket has brought
  obtain ⟨use', w, huse', hplayed, hread⟩ := hs.inside records hopen
  obtain rfl : use = use' := Option.some.inj (huse.symm.trans huse')
  have hafter : ((s.close (s.pathPaint use) bracket).replay use.after).worlds =
      s.worlds.applied use.after := by
    unfold State.worlds Worlds.applied
    rw [hworld, hsaved]
    rfl
  rw [hafter, hplayed, ← Worlds.applied_append, hchanges, ← hread, Worlds.afterRecords_concat hc]
  rfl

/-- Any other record takes effect at once outside of a bracket. Inside of one it leaves the
transforms as they are, and the direct reading catches up with the change that it brings. -/
private theorem Tracks.other {setup : Setup} {survey : Survey} {earlier : List Entry} {e : Entry}
    {s t : State} {c : Command} (hs : Tracks survey earlier s)
    (hinside : sinceBegin (earlier ++ [e]) = (sinceBegin earlier).map (· ++ [e]))
    (hc : e.command setup.options.plus = .ok c) (hbegin : c.soleKind? ≠ some .beginPath)
    (honly : (sinceBegin earlier).isSome = true →
      State.onlyAdds c = true ∨ c.change?.isSome = true)
    (h : s.perform setup survey.paths c = (t, none)) :
    Tracks survey (earlier ++ [e]) t := by
  obtain ⟨hinPath, hbrackets⟩ := State.perform_bracket h
  rw [if_neg hbegin, Nat.add_zero] at hbrackets
  cases hbracket : sinceBegin earlier with
  | none =>
      have hclosed : s.inPath = false := by rw [hs.inPath, hbracket]; rfl
      rw [hbracket] at hinside
      refine ⟨?_, fun _ => ?_, fun records hsome => ?_⟩
      · rw [hinPath, hclosed, hinside]
        cases c <;> first | rfl | exact absurd rfl hbegin
      · rw [State.perform_worlds_of_closed hclosed hbegin h, hs.outside hbracket,
          Worlds.afterRecords_concat hc]
      · rw [hinside] at hsome
        cases hsome
  | some records =>
      -- inside of a bracket the playing defers the change, and the direct reading applies it
      have hopen : s.inPath = true := by rw [hs.inPath, hbracket]; rfl
      have honly := honly (by rw [hbracket]; rfl)
      rw [hbracket] at hinside
      refine ⟨?_, fun hnone => ?_, fun records' hsome => ?_⟩
      · rw [hinPath, hopen, hinside]
        cases c <;> first | rfl | (rcases honly with honly | honly <;> cases honly)
      · rw [hinside] at hnone
        cases hnone
      · obtain rfl : records ++ [e] = records' := Option.some.inj (hinside.symm.trans hsome)
        obtain ⟨use, w, huse, hplayed, hread⟩ := hs.inside records hbracket
        refine ⟨use, w, by rw [hbrackets]; exact huse,
          (State.perform_worlds_of_open hopen honly h).trans hplayed, ?_⟩
        have hnew : changes (records ++ [e]) = changes records ++ c.change?.toList := by
          rw [changes, List.filterMap_append, ← changes, ← Entry.change?_eq hc]
          cases he : e.change? <;> simp [he]
        rw [Worlds.afterRecords_concat hc, hread, hnew, Worlds.applied_append]
        cases c <;> first | rfl | (rcases honly with honly | honly <;> cases honly)

namespace Reaches

variable {setup : Setup} {stream : Bytes} {survey : Survey} {earlier later : List Entry}
  {t : State}

/-- At every boundary of an orderly stream the two readings go side by side. -/
private theorem tracks (h : Reaches setup stream survey earlier later t)
    (horderly : Orderly survey.entries) : Tracks survey earlier t := by
  refine h.induction (motive := fun earlier _ t => Tracks survey earlier t)
    ⟨rfl, fun _ => rfl, fun _ hsome => by cases hsome⟩ ?_
  intro earlier e later s t c hs ih hc hperform
  have hannounced := State.announce_adds setup e s
  have ih := ih.of_adds hannounced
  have hsole (kind : Record.Kind) (h : kind.isSole = true) :
      c.soleKind? = some kind ↔ e.kind? = some kind := Entry.command_soleKind? hc h
  cases hbracket : sinceBegin earlier with
  | none =>
      by_cases hbegin : e.kind? = some .beginPath
      · obtain ⟨use, huse⟩ := hs.use_of_begin hbegin
        have hcommand := (hsole .beginPath rfl).2 hbegin
        obtain rfl : c = .beginPath := by cases c <;> first | rfl | cases hcommand
        rw [← hannounced.brackets] at huse
        exact ih.began hbracket hbegin hc huse hperform
      · refine ih.other ?_ hc
          (fun hcommand => hbegin ((hsole .beginPath rfl).1 hcommand)) ?_ hperform
        · rw [Record.sinceBegin_concat, hbracket, Record.insideAfter_none hbegin]
          rfl
        · rw [hbracket]
          exact fun hsome => by cases hsome
  | some records =>
      have hkinds := horderly.at hs.split (by rw [hbracket]; rfl)
      simp only [List.mem_cons, List.not_mem_nil, or_false, not_or] at hkinds
      obtain ⟨hbegin, habort, hsave, hrestore, hlast⟩ := hkinds
      by_cases hend : e.kind? = some .endPath
      · have hopen : s.inPath = true := by
          rw [← hannounced.inPath, ih.inPath, hbracket]
          rfl
        obtain ⟨hopened, _⟩ := hs.use_of_end hopen
        obtain ⟨use, huse, hchanges⟩ := Survey.changes_of_end hs.accepted hs.split hend hbracket
        have hcommand := (hsole .endPath rfl).2 hend
        obtain rfl : c = .endPath := by cases c <;> first | rfl | cases hcommand
        rw [← hs.brackets_eq, ← hannounced.brackets] at huse
        rw [← hannounced.brackets] at hopened
        exact ih.ended hbracket hend hc hopened huse hchanges hperform
      · refine ih.other ?_ hc
          (fun hcommand => hbegin ((hsole .beginPath rfl).1 hcommand)) ?_ hperform
        · rw [Record.sinceBegin_concat, Record.insideAfter_other hbegin hend]
        · intro _
          -- only these records are left in an open bracket of an orderly stream
          cases c with
          | beginPath => exact absurd ((hsole .beginPath rfl).1 rfl) hbegin
          | endPath => exact absurd ((hsole .endPath rfl).1 rfl) hend
          | abortPath => exact absurd ((hsole .abortPath rfl).1 rfl) habort
          | save => exact absurd ((hsole .saveContext rfl).1 rfl) hsave
          | restore relative => exact absurd ((hsole .restoreContext rfl).1 rfl) hrestore
          | endOfFile => exact absurd ((hsole .endOfFile rfl).1 rfl) hlast
          | transform change => exact Or.inr rfl
          | _ => exact Or.inl rfl

/-- Wherever no path is open, the world transform and those of the saved contexts are what they
would be if every change took effect at its own record. -/
theorem worlds_eq (h : Reaches setup stream survey earlier later t)
    (horderly : Orderly survey.entries) (hclosed : t.inPath = false) :
    t.worlds = Worlds.afterRecords earlier := by
  have htracks := h.tracks horderly
  refine htracks.outside ?_
  rw [htracks.inPath, Option.isSome_eq_false_iff, Option.isNone_iff_eq_none] at hclosed
  exact hclosed

end Reaches

/-- A stream that doubles all lengths, saves the context and begins a bracket. In the bracket, a
map acts before the world transform, then a line is drawn, another map acts after the world
transform, and one comes in a mode that does not exist. -/
def deferringStream : Bytes :=
  let zero : Bytes := [0, 0, 0, 0]
  let one : Bytes := [0, 0, 0x80, 0x3F]
  let two : Bytes := [0, 0, 0, 0x40]
  let three : Bytes := [0, 0, 0x40, 0x40]
  let doubling : Bytes := two ++ zero ++ zero ++ two ++ zero ++ zero
  let first : Bytes := three ++ zero ++ zero ++ three ++ one ++ zero
  let second : Bytes := one ++ zero ++ zero ++ one ++ two ++ three
  Record.streamOf [(.header, List.replicate 80 0), (.setWorldTransform, doubling),
    (.saveContext, []), (.beginPath, []), (.modifyWorldTransform, first ++ [2, 0, 0, 0]),
    (.lineTo, List.replicate 8 0), (.modifyWorldTransform, second ++ [3, 0, 0, 0]),
    (.modifyWorldTransform, doubling ++ [5, 0, 0, 0]), (.endPath, []),
    (.endOfFile, List.replicate 12 0)]

/-- After the bracket both changes have counted once, and in their order: a map by `3` and a step
of `1`, the doubling, and a step of `(2, 3)`. The saved context keeps the doubling alone. -/
theorem worlds_eq_after_bracket :
    ∃ earlier later t,
      Reaches .plain deferringStream (.ofStream deferringStream) earlier later t ∧
      earlier.length = 9 ∧ t.inPath = false ∧ t.worlds = Worlds.afterRecords earlier ∧
      t.context.world = ⟨6, 0, 0, 6, 4, 3⟩ ∧
      t.saved.map Device.Context.world = [⟨2, 0, 0, 2, 0, 0⟩] := by
  have h : Reaches .plain deferringStream _ _ _ _ :=
    .of_steps 9 (by decide +kernel) (by decide +kernel)
  have hclosed : ((State.start (.ofStream deferringStream)).steps .plain
      (Survey.ofStream deferringStream).paths
      ((Survey.ofStream deferringStream).entries.take 9)).1.inPath = false := by decide +kernel
  have hread : Worlds.afterRecords ((Survey.ofStream deferringStream).entries.take 9) =
      ⟨⟨6, 0, 0, 6, 4, 3⟩, [⟨2, 0, 0, 2, 0, 0⟩]⟩ := by decide +kernel
  have hworlds := h.worlds_eq (by decide +kernel) hclosed
  exact ⟨_, _, _, h, by decide +kernel, hclosed, hworlds,
    congrArg Worlds.current (hworlds.trans hread), congrArg Worlds.saved (hworlds.trans hread)⟩

end Metafile.Playback
