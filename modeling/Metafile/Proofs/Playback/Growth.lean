import Metafile.Proofs.Markup.Scan
import Metafile.Proofs.Playback.History

/-!
# `Metafile.Proofs.Playback.Growth`: where the pieces of a document come from

A command never takes back what is written. The pieces that are new after it were held back
before, or the command makes them: `State.Makes` lists what they can be. `State.Gains` relates the
states before and after an operation by their pieces alone. It is transitive, so it goes through
the operations that open and close brackets and groups, and `State.perform_gains` states it of
every command.

A property of all pieces that are written and held is then kept by a command if the pieces that
the command makes have it.
-/

set_option autoImplicit false

namespace Metafile.Playback.State

open Metafile.Markup (Attribute Document Piece)
open Metafile.Record (Command PathUse TransformChange)

/-- The pieces that a command may make: those that it draws, the path of the open bracket, the
start tags of groups for a world transform, and end tags. -/
inductive Makes (setup : Setup) (c : Command) (s : State) : Piece → Prop
  | drawn {p : Piece} : s.Draws setup c p → Makes setup c s p
  | path {b : Bracket} {paint : List Attribute} : s.bracket = some b →
    (paint = unpainted ∨ ∃ use, paint = s.pathPaint use) → Makes setup c s (b.piece paint)
  | group (u : State) : Makes setup c s u.wrapperPiece
  | ending {name : String} (h : Markup.IsName name) : Makes setup c s (.ending name)

/-- What is written stays, and every piece that is new was held back before or is one of some
pieces. -/
structure Gains (new : Piece → Prop) (s t : State) : Prop where
  written : ∃ more : Document, t.written = s.written ++ more ∧ ∀ p ∈ more, p ∈ s.held ∨ new p
  held : ∀ p ∈ t.held, p ∈ s.held ∨ new p

variable {new : Piece → Prop} {s t u : State} {pieces : Document}

namespace Gains

/-- A state with the same pieces has no new ones. -/
theorem of_same (hwritten : t.written = s.written) (hheld : t.held = s.held) : Gains new s t where
  written := ⟨#[], by rw [hwritten, Array.append_empty], fun p hp => by simp at hp⟩
  held _ hp := Or.inl (hheld ▸ hp)

/-- Pieces are added to what is written. -/
theorem of_written (hwritten : t.written = s.written ++ pieces) (hheld : t.held = s.held)
    (h : ∀ p ∈ pieces, new p) : Gains new s t where
  written := ⟨pieces, hwritten, fun p hp => Or.inr (h p hp)⟩
  held _ hp := Or.inl (hheld ▸ hp)

/-- The new pieces of two operations are those of the first and those of the second. -/
theorem trans (h : Gains new s t) (k : Gains new t u) : Gains new s u := by
  have hfrom {p : Piece} (hp : p ∈ t.held ∨ new p) : p ∈ s.held ∨ new p :=
    hp.elim (h.held p) Or.inr
  obtain ⟨a, ha, hfirst⟩ := h.written
  obtain ⟨b, hb, hsecond⟩ := k.written
  refine ⟨⟨a ++ b, by rw [hb, ha, Array.append_assoc], fun p hp => ?_⟩,
    fun p hp => hfrom (k.held p hp)⟩
  rcases Array.mem_append.1 hp with hp | hp
  · exact hfirst p hp
  · exact hfrom (hsecond p hp)

/-- Every piece after an operation has a property, if every piece before it has and the new ones
have. -/
theorem forall_written (h : Gains new s t) {P : Piece → Prop} (hwritten : ∀ p ∈ s.written, P p)
    (hheld : ∀ p ∈ s.held, P p) (hnew : ∀ p, new p → P p) : ∀ p ∈ t.written, P p := by
  intro p hp
  obtain ⟨more, heq, hmore⟩ := h.written
  rw [heq] at hp
  rcases Array.mem_append.1 hp with hp | hp
  · exact hwritten p hp
  · exact (hmore p hp).elim (hheld p) (hnew p)

end Gains

/-- What only adds pieces has these as its new ones. -/
theorem Adds.gains (h : Adds s t pieces) (hpieces : ∀ p ∈ pieces, new p) : Gains new s t := by
  cases hopen : s.inPath with
  | true =>
      refine ⟨⟨#[], by rw [h.written, hopen]; simp, fun p hp => by simp at hp⟩, fun p hp => ?_⟩
      rw [h.held, hopen] at hp
      exact (Array.mem_append.1 hp).imp_right (hpieces p)
  | false =>
      exact .of_written (by rw [h.written, hopen]; rfl) (by rw [h.held, hopen]; rfl) hpieces

/-- A change of the context writes nothing. -/
theorem update_gains (f : Device.Context → Device.Context) (s : State) :
    Gains new s (s.update f) :=
  .of_same rfl rfl

/-! ### Brackets -/

/-- Closing a bracket writes its path, and then what was held back. -/
theorem close_gains {b : Bracket} {paint : List Attribute} (h : new (b.piece paint)) :
    Gains new s (s.close paint b) := by
  refine ⟨⟨#[b.piece paint] ++ s.held, ?_, fun p hp => ?_⟩, fun p hp => by simp [close] at hp⟩
  · show s.written.push (b.piece paint) ++ s.held = _
    rw [← Array.append_singleton, Array.append_assoc]
  · rcases Array.mem_append.1 hp with hp | hp
    · exact Or.inr (Array.mem_singleton.1 hp ▸ h)
    · exact Or.inl hp

/-- Giving up a path writes it without paint. -/
theorem abandon_gains (h : ∀ b, s.bracket = some b → new (b.piece unpainted)) :
    Gains new s s.abandon := by
  cases hbracket : s.bracket with
  | none =>
      rw [abandon_of_closed (by rw [inPath, hbracket]; rfl)]
      exact .of_same rfl rfl
  | some b =>
      rw [abandon_of_open hbracket]
      exact close_gains (h b hbracket)

/-! ### Groups of the world transform -/

section Groups

variable (hgroup : ∀ u : State, new u.wrapperPiece)
  (hending : ∀ {name}, Markup.IsName name → new (.ending name))
include hgroup hending

/-- A new group of the world transform is an end tag, if a group was open, and a start tag. -/
theorem wrap_gains (s : State) : Gains new s s.wrap := by
  cases hopen : s.inPath with
  | true =>
      rw [wrap_of_open hopen]
      exact .of_same rfl rfl
  | false =>
      rw [wrap_of_closed hopen]
      refine .of_written rfl rfl fun p hp => ?_
      rcases Array.mem_push.1 hp with hp | rfl
      · split at hp
        · exact Array.mem_singleton.1 hp ▸ hending (by decide)
        · simp at hp
      · exact hgroup s

/-- A change of the world transform writes a group at most. -/
theorem transform_gains (change : TransformChange) (s : State) :
    Gains new s (s.transform change) := by
  unfold transform
  split
  · exact .of_same rfl rfl
  · split
    · exact (update_gains _ s).trans (wrap_gains hgroup hending _)
    · exact .of_same rfl rfl

/-- Changes that are replayed write a group at most. -/
theorem replay_gains (ts : List TransformChange) (s : State) : Gains new s (s.replay ts) := by
  unfold replay
  split
  · exact .of_same rfl rfl
  · exact (update_gains _ s).trans (wrap_gains hgroup hending _)

/-- A return to a saved context writes a group at most. -/
theorem restore_gains (relative : Int) (s : State) : Gains new s (s.restore relative).1 := by
  unfold restore
  split
  · rename_i context saved _
    have hback : Gains new s { s with context, saved } := .of_same rfl rfl
    dsimp only
    split
    · exact hback.trans (wrap_gains hgroup hending _)
    · exact hback
  · exact .of_same rfl rfl
  · exact .of_same rfl rfl

/-- A bracket that begins writes the path that it gives up, and perhaps a group. -/
theorem beginPath_gains (uses : List PathUse)
    (hpath : ∀ b, s.bracket = some b → new (b.piece unpainted)) :
    Gains new s (s.beginPath uses).1 := by
  have hgiven : Gains new s { s.abandon with brackets := s.abandon.brackets + 1 } :=
    (abandon_gains hpath).trans (.of_same rfl rfl)
  unfold beginPath
  dsimp only
  split
  · exact hgiven
  · rename_i use _
    exact (hgiven.trans (replay_gains hgroup hending use.before _)).trans (.of_same rfl rfl)

/-- A bracket that ends writes its path and what was held back, and perhaps a group. -/
theorem endPath_gains (uses : List PathUse)
    (hpath : ∀ b use, s.bracket = some b → new (b.piece (s.pathPaint use))) :
    Gains new s (s.endPath uses).1 := by
  unfold endPath
  split
  · exact .of_same rfl rfl
  · rename_i b hbracket
    split
    · exact .of_same rfl rfl
    · rename_i use _
      exact (close_gains (hpath b use hbracket)).trans (replay_gains hgroup hending use.after _)

omit hgroup in
/-- The tags that end a document are end tags. -/
theorem endDocument_gains (o : Options)
    (hpath : ∀ b, s.bracket = some b → new (b.piece unpainted)) :
    Gains new s (s.endDocument o) := by
  obtain ⟨player, log, heq⟩ := endDocument_eq o s
  rw [heq]
  refine (abandon_gains hpath).trans (.of_written rfl rfl fun p hp => ?_)
  obtain ⟨name, hname, rfl⟩ : ∃ name, Markup.IsName name ∧ p = .ending name := by
    unfold ending tail at hp
    rcases Array.mem_append.1 hp with hp | hp
    · rcases Array.mem_push.1 hp with hp | rfl
      · split at hp
        · exact ⟨_, by decide, Array.mem_singleton.1 hp⟩
        · simp at hp
      · exact ⟨_, by decide, rfl⟩
    · split at hp
      · exact ⟨_, by decide, Array.mem_singleton.1 hp⟩
      · simp at hp
  exact hending hname

end Groups

/-! ### Commands -/

/-- The pieces that are new after a command were held back before, or the command makes them. -/
theorem perform_gains (setup : Setup) (uses : List PathUse) (c : Command) (s : State) :
    Gains (s.Makes setup c) s (s.perform setup uses c).1 := by
  have hgiven (b : Bracket) (hb : s.bracket = some b) : s.Makes setup c (b.piece unpainted) :=
    .path hb (Or.inl rfl)
  have hpainted (b : Bracket) (use : PathUse) (hb : s.bracket = some b) :
      s.Makes setup c (b.piece (s.pathPaint use)) := .path hb (Or.inr ⟨use, rfl⟩)
  -- what is neither drawn nor a path is a group of a world transform or an end
  cases honly : onlyAdds c with
  | true =>
      obtain ⟨pieces, hadds, _, hdraws⟩ := perform_adds setup uses s honly
      exact hadds.gains fun p hp => .drawn (hdraws p hp)
  | false =>
      cases c with
      | endOfFile => exact endDocument_gains .ending setup.options hgiven
      | beginPath => exact beginPath_gains .group .ending uses hgiven
      | endPath => exact endPath_gains .group .ending uses hpainted
      | abortPath => exact (abandon_gains hgiven).trans (.of_same rfl rfl)
      | save => exact .of_same rfl rfl
      | restore relative => exact restore_gains .group .ending relative s
      | transform change => exact transform_gains .group .ending change s
      | _ => cases honly

/-- A bracket that is open after a command has the clip region with which it was opened: that of
the bracket before, or that of the context. -/
theorem perform_clip (setup : Setup) (uses : List PathUse) (c : Command) (s : State) {b : Bracket}
    (h : (s.perform setup uses c).1.bracket = some b) :
    (∃ b', s.bracket = some b' ∧ b.clip = b'.clip) ∨ b.clip = s.context.clipAttributes := by
  -- most commands leave the bracket as it is, or only add to its path
  have hkept {t : State} (hclip : t.bracket.map Bracket.clip = s.bracket.map Bracket.clip)
      (hb : t.bracket = some b) : ∃ b', s.bracket = some b' ∧ b.clip = b'.clip := by
    rw [hb] at hclip
    obtain ⟨b', hb', heq⟩ := Option.map_eq_some_iff.1 hclip.symm
    exact ⟨b', hb', heq.symm⟩
  cases honly : onlyAdds c with
  | true =>
      obtain ⟨pieces, hadds, _⟩ := perform_adds setup uses s honly
      exact Or.inl (hkept hadds.clip h)
  | false =>
      cases c with
      | endOfFile =>
          obtain ⟨player, log, heq⟩ := endDocument_eq setup.options s
          change (s.endDocument setup.options).bracket = some b at h
          rw [heq] at h
          exact absurd ((abandon_keeps s).1.symm.trans h) (by simp)
      | beginPath =>
          change (s.beginPath uses).1.bracket = some b at h
          obtain ⟨written, held, hgiven⟩ := abandon_eq s
          unfold State.beginPath at h
          dsimp only at h
          rw [hgiven] at h
          split at h
          · cases h
          · rename_i use _
            obtain ⟨world, wrapped, written', held', heq⟩ := replay_eq use.before
              { s with bracket := none, brackets := s.brackets + 1, written, held }
            rw [heq] at h
            -- a bracket takes its clip region from the context it begins in
            exact Or.inr (congrArg Bracket.clip (Option.some.inj h)).symm
      | endPath =>
          change (s.endPath uses).1.bracket = some b at h
          unfold State.endPath at h
          split at h
          · exact Or.inl (hkept rfl h)
          · split at h
            · exact Or.inl (hkept rfl h)
            · rename_i bracket _ _ use _
              obtain ⟨world, wrapped, written, held, heq⟩ :=
                replay_eq use.after (s.close (s.pathPaint use) bracket)
              rw [heq] at h
              cases h
      | abortPath =>
          obtain ⟨written, held, heq⟩ := abandon_eq s
          change s.abandon.bracket = some b at h
          rw [heq] at h
          cases h
      | save => exact Or.inl (hkept rfl h)
      | restore relative =>
          obtain ⟨context, saved, wrapped, failed, written, held, log, heq⟩ :=
            restore_eq relative s
          change (s.restore relative).1.bracket = some b at h
          rw [heq] at h
          exact Or.inl (hkept rfl h)
      | transform change =>
          obtain ⟨world, wrapped, written, held, log, heq⟩ := transform_eq change s
          change (s.transform change).bracket = some b at h
          rw [heq] at h
          exact Or.inl (hkept rfl h)
      | _ => cases honly

/-! ### Records -/

/-- A record takes back nothing that is written. -/
theorem mem_written_of_next {setup : Setup} {uses : List PathUse} {e : Record.Entry}
    {fault : Option Fault} (hnext : s.next setup uses e = (t, fault)) {p : Piece}
    (hp : p ∈ s.written) : p ∈ t.written := by
  obtain ⟨log, hlog⟩ := announce_eq setup e s
  rw [next, step_eq, hlog] at hnext
  split at hnext
  · rename_i c _
    obtain ⟨more, hwritten, _⟩ := (perform_gains setup uses c { s with log }).written
    rw [hnext] at hwritten
    rw [hwritten]
    exact Array.mem_append_left more hp
  · obtain ⟨rfl, _⟩ := Prod.mk.inj hnext
    exact hp

/-- Records take back nothing that is written. -/
theorem mem_written_of_steps {setup : Setup} {uses : List PathUse} {records : List Record.Entry}
    (h : s.steps setup uses records = (t, none)) {p : Piece} (hp : p ∈ s.written) :
    p ∈ t.written := by
  induction records generalizing s with
  | nil =>
      obtain ⟨rfl, _⟩ := Prod.mk.inj h
      exact hp
  | cons e rest ih =>
      change s.steps setup uses ([e] ++ rest) = (t, none) at h
      obtain ⟨u, hfirst, hrest⟩ := steps_split h
      exact ih hrest (mem_written_of_next (steps_singleton.1 hfirst) hp)

end Metafile.Playback.State
