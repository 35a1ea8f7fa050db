import Mathlib.Data.List.TakeWhile
import Metafile.Proofs.Plus.Comments
import Metafile.Proofs.Plus.Handling

/-!
# `Metafile.Proofs.Plus.SavedStates`: saved states over a whole playing

Records save the state under an index, and others return to the last state that was saved under
one. Indexes may repeat, and a return gives up everything that was saved after the state it
returns to.

Which saves can still be returned to is known from the records alone, and `Live` says which: a
save is live behind its record, until a return goes to it or to a live save before it. `Latest` is
the save that a return with some index goes to.

The states that a player holds are those of the live saves, the last one first (`Holds`, which is
true throughout a run by `holds`), and below each of them lies what was there when it was saved
(`eq_livePlaces_of_suffix`). `restores_latest` says what follows of every record.
-/

set_option autoImplicit false

namespace Metafile.Plus

/-! ### Containers -/

/-- A rectangle of floating-point numbers moves the place by 16 bytes, whatever its numbers are.
-/
theorem passes_floatRect : Decode.Passes floatRect 16 :=
  have hfloat : Decode.Passes Cursor.f32 4 := (Cursor.passes_word 4).map _
  hfloat.bind fun _ => hfloat.bind fun _ => hfloat.bind fun _ => hfloat.map _

/-- A container takes two rectangles and an index. -/
theorem takes_containerCommand : Decode.Takes containerCommand 36 :=
  have hrect : Decode.Takes floatRect 16 :=
    Cursor.takes_f32.bind fun _ => Cursor.takes_f32.bind fun _ => Cursor.takes_f32.bind fun _ =>
      Cursor.takes_f32.map _
  hrect.bind fun _ => hrect.bind fun _ => Cursor.takes_u32.map _

/-- The index of a container stands behind its two rectangles. -/
theorem containerCommand_eq {payload : Bytes} (h : 32 ≤ payload.length) :
    ∃ target source, containerCommand.first payload =
      (Cursor.u32.from payload 32).map (.container target source) := by
  have htwo : 0 + 16 ≤ payload.length := by omega
  have hthree : 16 + 16 ≤ payload.length := h
  obtain ⟨target, htarget⟩ := passes_floatRect.from_bind (fun target => do
    let source ← floatRect
    return Command.container target source (← Cursor.u32)) htwo
  obtain ⟨source, hsource⟩ := passes_floatRect.from_bind (fun source => do
    return Command.container target source (← Cursor.u32)) hthree
  exact ⟨target, source, (htarget.trans hsource).trans (Decode.from_map ..)⟩

namespace Stage

/-! ### Records that save and return -/

namespace Cue

/-- The index under which a record saves the state. The record of a container begins with the two
rectangles of 16 bytes that it maps. -/
def savedIndex? (q : Cue) : Option Nat :=
  match q.kind with
  | .save | .beginContainerNoParams => (Cursor.u32.first q.payload).toOption
  | .beginContainer => (Cursor.u32.from q.payload 32).toOption
  | _ => none

/-- The index of the state that a record returns to. -/
def restoredIndex? (q : Cue) : Option Nat :=
  match q.kind with
  | .restore | .endContainer => (Cursor.u32.first q.payload).toOption
  | _ => none

end Cue

/-- The index under which the record at a place saves the state. -/
def savedAt? (cues : List Cue) (place : Nat) : Option Nat := cues[place]?.bind Cue.savedIndex?

/-- The index of the state that the record at a place returns to. -/
def restoredAt? (cues : List Cue) (place : Nat) : Option Nat :=
  cues[place]?.bind Cue.restoredIndex?

/-- The last one of some places where a state is saved under an index. -/
structure Latest (cues : List Cue) (live : Nat → Prop) (index place : Nat) : Prop where
  isLive : live place
  saves : savedAt? cues place = some index
  last : ∀ other, live other → savedAt? cues other = some index → other ≤ place

/-- The places whose saves are live after so many records. A save is live behind its record. A
return ends the latest live save under its index, and those after it. -/
def Live (cues : List Cue) : Nat → Nat → Prop
  | 0, _ => False
  | n + 1, place =>
    place = n ∧ (savedAt? cues n).isSome ∨
      Live cues n place ∧ ∀ index, restoredAt? cues n = some index →
        ∀ latest, Latest cues (Live cues n) index latest → place < latest

/-! ### The live places in order -/

/-- The places that are left after a return: those before the first one with its index, if there
is one. The last place stands first. -/
def placesAfter (cues : List Cue) (index : Nat) (places : List Nat) : List Nat :=
  match places.dropWhile fun place => savedAt? cues place != some index with
  | [] => places
  | _ :: rest => rest

/-- The places whose saves are live after so many records, the last one first. -/
def livePlaces (cues : List Cue) : Nat → List Nat
  | 0 => []
  | n + 1 =>
    if (savedAt? cues n).isSome then n :: livePlaces cues n
    else
      match restoredAt? cues n with
      | some index => placesAfter cues index (livePlaces cues n)
      | none => livePlaces cues n

variable {cues : List Cue} {n : Nat}

/-- A record does not both save and return. -/
theorem Cue.restoredIndex?_of_saved {q : Cue} (h : q.savedIndex?.isSome) :
    q.restoredIndex? = none := by
  unfold savedIndex? at h
  unfold restoredIndex?
  split at h <;> simp_all

/-- The record at a place does not both save and return. -/
theorem restoredAt?_of_saved (h : (savedAt? cues n).isSome) : restoredAt? cues n = none := by
  unfold savedAt? at h
  unfold restoredAt?
  cases hq : cues[n]? with
  | none => rfl
  | some q =>
      rw [hq] at h
      exact Cue.restoredIndex?_of_saved h

/-- A return finds the first place with its index, or there is no such place. -/
theorem placesAfter_cases (cues : List Cue) (index : Nat) (places : List Nat) :
    (placesAfter cues index places = places ∧
        ∀ place ∈ places, savedAt? cues place ≠ some index) ∨
      ∃ later place rest, places = later ++ place :: rest ∧
        placesAfter cues index places = rest ∧ savedAt? cues place = some index ∧
        ∀ other ∈ later, savedAt? cues other ≠ some index := by
  have hsplit := List.takeWhile_append_dropWhile (l := places)
    (p := fun place => savedAt? cues place != some index)
  -- what is skipped was saved under other indexes
  have hlater : ∀ other ∈ places.takeWhile fun place => savedAt? cues place != some index,
      savedAt? cues other ≠ some index := by
    intro other hother
    exact bne_iff_ne.1 (List.all_eq_true.1 List.all_takeWhile other hother)
  unfold placesAfter
  cases hdrop : places.dropWhile fun place => savedAt? cues place != some index with
  | nil =>
      rw [hdrop, List.append_nil] at hsplit
      exact Or.inl ⟨rfl, fun place hplace => hlater place (hsplit.symm ▸ hplace)⟩
  | cons place rest =>
      have hfound := List.head?_dropWhile_not
        (fun place => savedAt? cues place != some index) places
      rw [hdrop] at hfound hsplit
      exact Or.inr ⟨_, place, rest, hsplit.symm, rfl, bne_eq_false_iff_eq.1 hfound, hlater⟩

/-- What one more record does to the live places. -/
theorem livePlaces_cases (cues : List Cue) (n : Nat) :
    ((savedAt? cues n).isSome ∧ livePlaces cues (n + 1) = n :: livePlaces cues n) ∨
      (∃ index, savedAt? cues n = none ∧ restoredAt? cues n = some index ∧
        livePlaces cues (n + 1) = placesAfter cues index (livePlaces cues n)) ∨
      (savedAt? cues n = none ∧ restoredAt? cues n = none ∧
        livePlaces cues (n + 1) = livePlaces cues n) := by
  rw [livePlaces]
  cases hsaved : savedAt? cues n with
  | some index => exact Or.inl ⟨rfl, rfl⟩
  | none =>
      cases hrestored : restoredAt? cues n with
      | some index => exact Or.inr (Or.inl ⟨index, rfl, rfl, rfl⟩)
      | none => exact Or.inr (Or.inr ⟨rfl, rfl, rfl⟩)

/-- A return ends the latest live places and leaves those below. -/
theorem placesAfter_suffix (index : Nat) (places : List Nat) :
    placesAfter cues index places <:+ places := by
  rcases placesAfter_cases cues index places with ⟨hall, _⟩ | ⟨later, place, rest, h⟩
  · exact hall.symm ▸ List.suffix_refl places
  · rw [h.2.1, h.1]
    exact ⟨later ++ [place], List.append_assoc later [place] rest⟩

/-- A live place is that of a record before, and one that saves the state. -/
theorem of_mem_livePlaces {place : Nat} (h : place ∈ livePlaces cues n) :
    place < n ∧ (savedAt? cues place).isSome := by
  induction n with
  | zero => cases h
  | succ n ih =>
      have hbefore (h : place ∈ livePlaces cues n) :
          place < n + 1 ∧ (savedAt? cues place).isSome :=
        ⟨Nat.lt_succ_of_lt (ih h).1, (ih h).2⟩
      rcases livePlaces_cases cues n with ⟨hsaved, heq⟩ | ⟨index, _, _, heq⟩ | ⟨_, _, heq⟩ <;>
        rw [heq] at h
      · rcases List.mem_cons.1 h with rfl | h
        · exact ⟨Nat.lt_succ_self _, hsaved⟩
        · exact hbefore h
      · exact hbefore ((placesAfter_suffix index _).mem h)
      · exact hbefore h

/-- Later places stand before earlier ones. -/
theorem livePlaces_sorted (cues : List Cue) (n : Nat) :
    (livePlaces cues n).Pairwise fun later earlier => earlier < later := by
  induction n with
  | zero => exact .nil
  | succ n ih =>
      rcases livePlaces_cases cues n with ⟨_, heq⟩ | ⟨index, _, _, heq⟩ | ⟨_, _, heq⟩ <;> rw [heq]
      · exact .cons (fun place h => (of_mem_livePlaces h).1) ih
      · exact ih.sublist (placesAfter_suffix index _).sublist
      · exact ih

/-- Below a live place lie those that were live when its state was saved. -/
theorem eq_livePlaces_of_suffix {place : Nat} {rest : List Nat}
    (h : place :: rest <:+ livePlaces cues n) : rest = livePlaces cues place := by
  induction n with
  | zero => cases List.suffix_nil.1 h
  | succ n ih =>
      -- the suffix begins with the save of this record, or it was there before
      rcases livePlaces_cases cues n with ⟨_, heq⟩ | ⟨index, _, _, heq⟩ | ⟨_, _, heq⟩ <;>
        rw [heq] at h
      · rcases List.suffix_cons_iff.1 h with heq | h
        · cases heq
          rfl
        · exact ih h
      · exact ih (h.trans (placesAfter_suffix index _))
      · exact ih h

/-- The place that a return finds is the latest one with its index, and those that are left are
the live ones before it. -/
theorem latest_of_split {later rest : List Nat} {place index : Nat}
    (hsplit : livePlaces cues n = later ++ place :: rest)
    (hsaved : savedAt? cues place = some index)
    (hlater : ∀ other ∈ later, savedAt? cues other ≠ some index) :
    Latest cues (· ∈ livePlaces cues n) index place ∧
      ∀ other, other ∈ rest ↔ other ∈ livePlaces cues n ∧ other < place := by
  -- places fall along the list, so what stands behind the place is before it
  have hsorted := livePlaces_sorted cues n
  rw [hsplit] at hsorted ⊢
  obtain ⟨_, hrest, hacross⟩ := List.pairwise_append.1 hsorted
  have hbelow : ∀ other ∈ rest, other < place := (List.pairwise_cons.1 hrest).1
  have habove : ∀ other ∈ later, place < other := fun other h =>
    hacross other h place List.mem_cons_self
  refine ⟨⟨List.mem_append_right _ List.mem_cons_self, hsaved, fun other h hindex => ?_⟩,
    fun other => ⟨fun h => ⟨List.mem_append_right _ (List.mem_cons_of_mem _ h), hbelow other h⟩,
      fun h => ?_⟩⟩
  · rcases List.mem_append.1 h with h | h
    · exact absurd hindex (hlater other h)
    · rcases List.mem_cons.1 h with rfl | h
      · exact Nat.le_refl _
      · exact Nat.le_of_lt (hbelow other h)
  · obtain ⟨hmem, hlt⟩ := h
    rcases List.mem_append.1 hmem with hmem | hmem
    · exact absurd (habove other hmem) (Nat.lt_asymm hlt)
    · rcases List.mem_cons.1 hmem with rfl | hmem
      · exact absurd hlt (Nat.lt_irrefl _)
      · exact hmem

/-- There is one latest place at most. -/
theorem Latest.unique {live : Nat → Prop} {index a b : Nat} (ha : Latest cues live index a)
    (hb : Latest cues live index b) : a = b :=
  Nat.le_antisymm (hb.last a ha.isLive ha.saves) (ha.last b hb.isLive hb.saves)

/-- The list holds the live places. -/
theorem mem_livePlaces_iff {place : Nat} : place ∈ livePlaces cues n ↔ Live cues n place := by
  induction n generalizing place with
  | zero => exact iff_of_false List.not_mem_nil id
  | succ n ih =>
      -- the latest live save of the definition is the first place in the list with the index
      have hlive : Live cues n = (· ∈ livePlaces cues n) := funext fun place => propext ih.symm
      rw [Live, hlive]
      rcases livePlaces_cases cues n with
        ⟨hsaved, heq⟩ | ⟨index, hsaved, hrestored, heq⟩ | ⟨hsaved, hrestored, heq⟩ <;> rw [heq]
      · simp [hsaved, restoredAt?_of_saved hsaved]
      · simp only [hsaved, hrestored, Option.isSome_none, Bool.false_eq_true, and_false, false_or,
          Option.some.injEq, forall_eq']
        rcases placesAfter_cases cues index (livePlaces cues n) with
          ⟨hall, hnone⟩ | ⟨later, latest, rest, hsplit, hrest, hindex, hlater⟩
        · -- nothing is ended, because no save has the index
          rw [hall]
          exact ⟨fun h => ⟨h, fun latest hlatest =>
            absurd hlatest.saves (hnone latest hlatest.isLive)⟩, And.left⟩
        · obtain ⟨hlatest, hmem⟩ := latest_of_split hsplit hindex hlater
          rw [hrest, hmem]
          exact ⟨fun h => ⟨h.1, fun other hother => hother.unique hlatest ▸ h.2⟩,
            fun h => ⟨h.1, h.2 latest hlatest⟩⟩
      · simp [hsaved, hrestored]

/-! ### What records do to the saved states -/

section Reading

variable {q : Cue} {index : Nat} {c : Command}

/-- Without an index nothing is asked for. -/
theorem first_ne_ok {payload : Bytes} (f : Nat → Command)
    (h : (Cursor.u32.first payload).toOption = none) :
    (do return f (← Cursor.u32) : Decode Command).first payload ≠ .ok c := by
  rw [Decode.first_map]
  cases hindex : Cursor.u32.first payload with
  | ok index =>
      rw [hindex] at h
      cases h
  | error cause => exact nofun

/-- A record that returns asks to return. -/
theorem Cue.command_of_restored (h : q.restoredIndex? = some index) :
    Command.ofRecord q.kind q.flags q.payload = .ok (.restore index) := by
  obtain ⟨scale, kind, flags, payload⟩ := q
  cases kind with
  | restore | endContainer =>
      have hread := (Decode.first_map Cursor.u32 Command.restore payload).trans
        (congrArg (Except.map _) (eq_ok_of_toOption h))
      exact hread
  | _ => cases h

/-- A record that saves asks to save, or to begin a container, which saves as well. -/
theorem Cue.command_of_saved (h : q.savedIndex? = some index) :
    Command.ofRecord q.kind q.flags q.payload = .ok (.save index) ∨
      ∃ target source, Command.ofRecord q.kind q.flags q.payload =
        .ok (.container target source index) := by
  obtain ⟨scale, kind, flags, payload⟩ := q
  cases kind with
  | save | beginContainerNoParams =>
      have hread := (Decode.first_map Cursor.u32 Command.save payload).trans
        (congrArg (Except.map _) (eq_ok_of_toOption h))
      exact .inl hread
  | beginContainer =>
      have hindex := eq_ok_of_toOption h
      have hlong := (Cursor.takes_u32.from_eq_ok payload 32).1 ⟨index, hindex⟩
      obtain ⟨target, source, hread⟩ := containerCommand_eq (Nat.le_of_add_right_le hlong)
      exact .inr ⟨target, source, hread.trans (congrArg (Except.map _) hindex)⟩
  | _ => cases h

/-- Any other record asks for neither. -/
theorem Cue.concern_of_other (hsaved : q.savedIndex? = none) (hrestored : q.restoredIndex? = none)
    (h : Command.ofRecord q.kind q.flags q.payload = .ok c) :
    c.concern ≠ .saving ∧ c.concern ≠ .returning := by
  obtain ⟨scale, kind, flags, payload⟩ := q
  cases kind with
  | save | beginContainerNoParams => exact absurd h (first_ne_ok Command.save hsaved)
  | restore | endContainer => exact absurd h (first_ne_ok Command.restore hrestored)
  | beginContainer =>
      have hlong := (takes_containerCommand.from_eq_ok payload 0).1 ⟨c, h⟩
      obtain ⟨index, hindex⟩ := (Cursor.takes_u32.from_eq_ok payload 32).2 (by omega)
      cases hsaved.symm.trans (congrArg Except.toOption hindex)
  | _ =>
      rw [Command.ofRecord_concern h]
      exact ⟨nofun, nofun⟩

end Reading

end Stage

/-! ### What one record does to the saved states -/

/-- The state that a player saves under an index. -/
def Player.state (p : Player) (index : Nat) : SavedState :=
  ⟨index, p.world, p.pageUnit, p.pageScale⟩

/-- Goes back to a saved state, above some others. -/
def Player.goBack (p : Player) (state : SavedState) (below : List SavedState) : Player :=
  { p with
    saved := below, world := state.world, pageUnit := state.pageUnit,
    pageScale := state.pageScale }

/-- A return goes to the first saved state with its index. -/
theorem Player.restore?_of_split {p : Player} {later below : List SavedState} {state : SavedState}
    (hsaved : p.saved = later ++ state :: below)
    (hlater : ∀ other ∈ later, other.index ≠ state.index) :
    p.restore? state.index = some (p.goBack state below) := by
  have hdrop : p.saved.dropWhile (·.index != state.index) = state :: below := by
    rw [hsaved, List.dropWhile_append_of_pos fun other h => bne_iff_ne.2 (hlater other h)]
    exact List.dropWhile_cons_of_neg fun h => bne_iff_ne.1 h rfl
  rw [restore?, hdrop]
  rfl

/-- There is nothing to return to if no saved state has the index. -/
theorem Player.restore?_of_forall {p : Player} {index : Nat}
    (h : ∀ state ∈ p.saved, state.index ≠ index) : p.restore? index = none := by
  have hdrop : p.saved.dropWhile (·.index != index) = [] :=
    List.dropWhile_eq_nil_iff.2 fun state hstate => bne_iff_ne.2 (h state hstate)
  rw [restore?, hdrop]

namespace Stage

variable {scale : Float} {s : Stage} {q : Cue} {index : Nat}

/-- A report is a message and nothing else. -/
theorem report_alike (kind : Kind) (result : Stage × Option Fault) :
    Alike (report kind result) result.1 := by
  unfold report
  split
  · exact .refl _
  · exact (Alike.refl _).note_left ..

/-- A command that does not save or return leaves the saved states alone. -/
theorem perform_saved {c : Command} (hsaving : c.concern ≠ .saving)
    (hreturning : c.concern ≠ .returning) :
    (s.perform scale c).1.player.saved = s.player.saved := by
  cases c with
  | header dual resolution =>
      unfold perform header
      cases resolution <;> rfl
  | object type id fragment =>
      exact congrArg (·.saved) (Collects.receive type id fragment s).player
  | save | container => exact absurd rfl hsaving
  | restore => exact absurd rfl hreturning
  | _ => rfl

/-- The arrival of a record leaves the saved states and what would be saved alone. -/
theorem Collects.state {t : Stage} (h : Collects s t) (index : Nat) :
    t.player.state index = s.player.state index := by
  rw [h.player]
  rfl

/-- The arrival of a record leaves the saved states alone. -/
theorem Collects.saved {t : Stage} (h : Collects s t) : t.player.saved = s.player.saved := by
  rw [h.player]

/-- A record that saves puts the state before it above the saved ones. -/
theorem playRecord_saved (h : q.savedIndex? = some index) :
    (s.playRecord q.scale q.kind q.flags q.payload).player.saved =
      s.player.state index :: s.player.saved := by
  have harrive := Collects.arrive q.kind s
  rw [playRecord_eq, (report_alike _ _).player, ← harrive.state, ← harrive.saved]
  rcases q.command_of_saved h with hread | ⟨target, source, hread⟩
  · rw [handle_of_ok hread]
    rfl
  · rw [handle_of_ok hread]
    rfl

/-- A record that returns goes back to the first state that was saved under its index. -/
theorem playRecord_goBack {later below : List SavedState} {state : SavedState}
    (h : q.restoredIndex? = some state.index) (hsaved : s.player.saved = later ++ state :: below)
    (hlater : ∀ other ∈ later, other.index ≠ state.index) :
    Alike (s.playRecord q.scale q.kind q.flags q.payload)
      ((s.arrive q.kind).update (·.goBack state below)) := by
  -- what arrives before is no saved state, so the search sees those of the stage
  have hrestore := Player.restore?_of_split ((Collects.arrive q.kind s).saved.trans hsaved) hlater
  rw [playRecord_eq, handle_of_ok (q.command_of_restored h)]
  refine (report_alike ..).trans ?_
  simp only [perform, hrestore]
  exact ⟨rfl, rfl⟩

/-- A record that returns does nothing if no state was saved under its index. -/
theorem playRecord_unknown (h : q.restoredIndex? = some index)
    (hnone : ∀ state ∈ s.player.saved, state.index ≠ index) :
    Alike (s.playRecord q.scale q.kind q.flags q.payload) (s.arrive q.kind) := by
  have hrestore : (s.arrive q.kind).player.restore? index = none :=
    Player.restore?_of_forall ((Collects.arrive q.kind s).saved ▸ hnone)
  rw [playRecord_eq, handle_of_ok (q.command_of_restored h)]
  refine (report_alike ..).trans ?_
  simp only [perform, hrestore]
  exact ⟨rfl, rfl⟩

/-- Any other record leaves the saved states alone. -/
theorem playRecord_kept (hsaved : q.savedIndex? = none) (hrestored : q.restoredIndex? = none) :
    (s.playRecord q.scale q.kind q.flags q.payload).player.saved = s.player.saved := by
  rw [playRecord_eq, (report_alike _ _).player, ← (Collects.arrive q.kind s).saved]
  cases hread : Command.ofRecord q.kind q.flags q.payload with
  | error cause => rw [handle_of_error hread]
  | ok c =>
      obtain ⟨hsaving, hreturning⟩ := q.concern_of_other hsaved hrestored hread
      rw [handle_of_ok hread, perform_saved hsaving hreturning]

/-! ### Saved states over a run -/

variable {cues : List Cue} {n : Nat}

/-- One record more is played on the stage that the records before it leave. -/
theorem playCues_succ (hq : cues[n]? = some q) :
    s.playCues (cues.take (n + 1)) =
      (s.playCues (cues.take n)).playRecord q.scale q.kind q.flags q.payload := by
  rw [List.take_add_one, hq, playCues_append]
  rfl

/-- A record that saves adds the state before it to the saved ones. -/
theorem playCues_saved (h : savedAt? cues n = some index) :
    (s.playCues (cues.take (n + 1))).player.saved =
      (s.playCues (cues.take n)).player.state index ::
        (s.playCues (cues.take n)).player.saved := by
  obtain ⟨q, hq, hindex⟩ := Option.bind_eq_some_iff.1 h
  rw [playCues_succ hq, playRecord_saved hindex]

/-- A record that neither saves nor returns leaves the saved states alone, and so does the end. -/
theorem playCues_kept (hsaved : savedAt? cues n = none) (hrestored : restoredAt? cues n = none) :
    (s.playCues (cues.take (n + 1))).player.saved = (s.playCues (cues.take n)).player.saved := by
  cases hq : cues[n]? with
  | none =>
      have hlength := List.getElem?_eq_none_iff.1 hq
      rw [List.take_of_length_le (Nat.le_succ_of_le hlength), List.take_of_length_le hlength]
  | some q =>
      simp only [savedAt?, restoredAt?, hq, Option.bind_some] at hsaved hrestored
      rw [playCues_succ hq, playRecord_kept hsaved hrestored]

/-- The state that is saved at a place. -/
def stateAt (cues : List Cue) (s : Stage) (place : Nat) : SavedState :=
  (s.playCues (cues.take place)).player.state ((savedAt? cues place).getD 0)

/-- A live place has an index, and its state is saved under it. -/
theorem stateAt_index {place : Nat} (h : place ∈ livePlaces cues n) :
    savedAt? cues place = some (stateAt cues s place).index := by
  obtain ⟨index, hindex⟩ := Option.isSome_iff_exists.1 (of_mem_livePlaces h).2
  rw [stateAt, hindex]
  rfl

/-- The player holds the states of the live saves, the last one first. -/
def Holds (cues : List Cue) (s : Stage) (n : Nat) : Prop :=
  (s.playCues (cues.take n)).player.saved = (livePlaces cues n).map (stateAt cues s)

/-- A return goes back to the first live place with its index. -/
theorem Holds.goBack (hholds : Holds cues s n) (hq : cues[n]? = some q)
    (h : q.restoredIndex? = some index) {later rest : List Nat} {place : Nat}
    (hsplit : livePlaces cues n = later ++ place :: rest)
    (hindex : savedAt? cues place = some index)
    (hlater : ∀ other ∈ later, savedAt? cues other ≠ some index) :
    Alike (s.playCues (cues.take (n + 1)))
      (((s.playCues (cues.take n)).arrive q.kind).update
        (·.goBack (stateAt cues s place) (rest.map (stateAt cues s)))) := by
  have hsaved := hholds
  rw [Holds, hsplit, List.map_append, List.map_cons] at hsaved
  have hplace : place ∈ livePlaces cues n := hsplit ▸ List.mem_append_right _ List.mem_cons_self
  -- the place tells the index under which the state was saved
  have hstate : index = (stateAt cues s place).index :=
    Option.some.inj (hindex.symm.trans (stateAt_index hplace))
  rw [playCues_succ hq]
  refine playRecord_goBack (hstate ▸ h) hsaved fun state hstate' heq => ?_
  obtain ⟨other, hother, rfl⟩ := List.mem_map.1 hstate'
  have hlive : other ∈ livePlaces cues n := hsplit ▸ List.mem_append_left _ hother
  exact hlater other hother ((stateAt_index hlive).trans (congrArg some (heq.trans hstate.symm)))

/-- A return does nothing if no live place has its index. -/
theorem Holds.unknown (hholds : Holds cues s n) (hq : cues[n]? = some q)
    (h : q.restoredIndex? = some index)
    (hnone : ∀ place ∈ livePlaces cues n, savedAt? cues place ≠ some index) :
    Alike (s.playCues (cues.take (n + 1))) ((s.playCues (cues.take n)).arrive q.kind) := by
  rw [playCues_succ hq]
  refine playRecord_unknown h fun state hstate heq => ?_
  rw [hholds] at hstate
  obtain ⟨place, hplace, rfl⟩ := List.mem_map.1 hstate
  exact hnone place hplace ((stateAt_index hplace).trans (congrArg some heq))

/-- The saved states are those of the live saves, throughout a run. -/
theorem holds (cues : List Cue) (hnone : s.player.saved = []) (n : Nat) : Holds cues s n := by
  induction n with
  | zero => exact hnone
  | succ n ih =>
      rw [Holds]
      rcases livePlaces_cases cues n with
        ⟨hsaved, heq⟩ | ⟨index, hsaved, hrestored, heq⟩ | ⟨hsaved, hrestored, heq⟩ <;> rw [heq]
      · obtain ⟨index, hindex⟩ := Option.isSome_iff_exists.1 hsaved
        rw [playCues_saved hindex, ih, List.map_cons, stateAt, hindex]
        rfl
      · obtain ⟨q, hq, hqindex⟩ := Option.bind_eq_some_iff.1 hrestored
        rcases placesAfter_cases cues index (livePlaces cues n) with
          ⟨hall, hother⟩ | ⟨later, place, rest, hsplit, hrest, hindex, hlater⟩
        · rw [hall, (ih.unknown hq hqindex hother).player, (Collects.arrive q.kind _).saved, ih]
        · rw [hrest, (ih.goBack hq hqindex hsplit hindex hlater).player]
          rfl
      · rw [playCues_kept hsaved hrestored, ih]

/-- The first one of the live places with an index, if there is one, with what stands below it. -/
theorem exists_split (h : ∃ place, Live cues n place ∧ savedAt? cues place = some index) :
    ∃ later place rest, livePlaces cues n = later ++ place :: rest ∧
      savedAt? cues place = some index ∧ ∀ other ∈ later, savedAt? cues other ≠ some index := by
  obtain ⟨place, hlive, hindex⟩ := h
  rcases placesAfter_cases cues index (livePlaces cues n) with
    ⟨_, hother⟩ | ⟨later, latest, rest, hsplit, _, hfound⟩
  · exact absurd hindex (hother place (mem_livePlaces_iff.2 hlive))
  · exact ⟨later, latest, rest, hsplit, hfound⟩

/-- The stage with the transforms and the saved states of a player. -/
def rewind (s : Stage) (p : Player) : Stage :=
  s.update fun q => { q with
    world := p.world, pageUnit := p.pageUnit, pageScale := p.pageScale, saved := p.saved }

/-- A record that returns to an index goes back to the state before the latest live save under
this index, and what had been saved before that save is what is saved then. If there is no live
save under the index, the record does nothing but arrive, as every record does. A record that
saves adds the state before it to the saved ones, and no other record changes them. -/
theorem restores_latest (cues : List Cue) (hnone : s.player.saved = []) (n : Nat) :
    let before (k : Nat) := s.playCues (cues.take k)
    (∀ verbose comments, comments.flatMap Comment.cues = cues →
      Alike (s.playAll verbose comments) (before cues.length)) ∧
    (∀ q index, cues[n]? = some q → q.restoredIndex? = some index →
      Collects (before n) ((before n).arrive q.kind) ∧
      ((∃ k, Live cues n k ∧ savedAt? cues k = some index) →
        ∃ k, Latest cues (Live cues n) index k ∧
          Alike (before (n + 1)) (((before n).arrive q.kind).rewind (before k).player)) ∧
      ((∀ k, Live cues n k → savedAt? cues k ≠ some index) →
        Alike (before (n + 1)) ((before n).arrive q.kind))) ∧
    (∀ index, savedAt? cues n = some index →
      (before (n + 1)).player.saved =
        (before n).player.state index :: (before n).player.saved) ∧
    (savedAt? cues n = none → restoredAt? cues n = none →
      (before (n + 1)).player.saved = (before n).player.saved) := by
  intro before
  have hlive : Live cues n = (· ∈ livePlaces cues n) :=
    funext fun place => propext mem_livePlaces_iff.symm
  have hholds (k : Nat) : Holds cues s k := holds cues hnone k
  refine ⟨?_, fun q index hq hindex => ⟨.arrive q.kind _, fun hsome => ?_, fun hother => ?_⟩,
    fun _ => playCues_saved, playCues_kept⟩
  · rintro verbose comments rfl
    show Alike _ (s.playCues (List.take _ _))
    rw [List.take_length]
    exact playAll_alike verbose comments s
  · obtain ⟨later, k, rest, hsplit, hk, hlater⟩ := exists_split hsome
    refine ⟨k, hlive ▸ (latest_of_split hsplit hk hlater).1, ?_⟩
    -- below the state lies what was saved before it
    have hrest : rest = livePlaces cues k := eq_livePlaces_of_suffix ⟨later, hsplit.symm⟩
    have hback := (hholds n).goBack hq hindex hsplit hk hlater
    rwa [hrest, ← hholds k] at hback
  · exact (hholds n).unknown hq hindex fun k hk => hother k (mem_livePlaces_iff.1 hk)

/-- Two saves under one index with another between them, then returns to the other, to the one,
and to the one again. -/
def outOfOrder : List Cue :=
  [⟨1, .save, 0, [1, 0, 0, 0]⟩, ⟨1, .beginContainerNoParams, 0, [2, 0, 0, 0]⟩,
    ⟨1, .resetWorldTransform, 0, []⟩, ⟨1, .save, 0, [1, 0, 0, 0]⟩,
    ⟨1, .endContainer, 0, [2, 0, 0, 0]⟩, ⟨1, .restore, 0, [1, 0, 0, 0]⟩,
    ⟨1, .restore, 0, [1, 0, 0, 0]⟩]

/-- The first return passes over the second save under 1, the second one goes to the first save
under 1, and the third one finds nothing. -/
theorem restores_latest_outOfOrder :
    let s : Stage := ⟨.initial, #[], #[]⟩
    let before (k : Nat) := s.playCues (outOfOrder.take k)
    Alike (before 5) (((before 4).arrive .endContainer).rewind (before 1).player) ∧
      Alike (before 6) (((before 5).arrive .restore).rewind (before 0).player) ∧
      Alike (before 7) ((before 6).arrive .restore) := by
  intro s before
  have hreturns (n : Nat) := (restores_latest outOfOrder (s := s) rfl n).2.1
  -- the live places are 3, 1 and 0 before the first return, and 0 before the second one
  have hfirst : ∀ k ∈ livePlaces outOfOrder 4, savedAt? outOfOrder k = some 2 → k = 1 := by
    decide +kernel
  have hsecond : ∀ k ∈ livePlaces outOfOrder 5, savedAt? outOfOrder k = some 1 → k = 0 := by
    decide +kernel
  have hthird : ∀ k ∈ livePlaces outOfOrder 6, savedAt? outOfOrder k ≠ some 1 := by
    decide +kernel
  obtain ⟨k, hk, hback⟩ := (hreturns 4 _ 2 rfl (by decide +kernel)).2.1
    ⟨1, mem_livePlaces_iff.1 (by decide +kernel), by decide +kernel⟩
  obtain ⟨j, hj, hback'⟩ := (hreturns 5 _ 1 rfl (by decide +kernel)).2.1
    ⟨0, mem_livePlaces_iff.1 (by decide +kernel), by decide +kernel⟩
  obtain rfl := hfirst k (mem_livePlaces_iff.2 hk.isLive) hk.saves
  obtain rfl := hsecond j (mem_livePlaces_iff.2 hj.isLive) hj.saves
  exact ⟨hback, hback', (hreturns 6 _ 1 rfl (by decide +kernel)).2.2 fun k hk =>
    hthird k (mem_livePlaces_iff.2 hk)⟩

end Stage

end Metafile.Plus
