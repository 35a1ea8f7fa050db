import Metafile.Proofs.Plus.Comments
import Metafile.Proofs.Plus.Handling

/-!
# `Metafile.Proofs.Plus.Dual`: a dual picture is silent, and that is all

In a dual picture every EMF+ record has a counterpart that draws the same, so the player draws
nothing. It must not do less than that: objects, transforms and saved states may be needed by
records that come later.

`Stage.silent` is a stage as it would be in a dual picture. Everything but a header goes on with
it in the same way (`Stage.playRecord_silent`), so a whole run does (`Stage.playAll_silent`).
`Stage.playAll_dual` says so of two players that differ in nothing but the flag.
-/

set_option autoImplicit false

namespace Metafile.Plus

open Metafile.Markup (Piece)

/-- Two players that differ in nothing but whether other records draw the same picture. -/
def Player.SameButDual (p q : Player) : Prop := q = { p with dual := q.dual }

/-- They are the same once the flag is set in both. -/
theorem Player.sameButDual_iff {p q : Player} :
    p.SameButDual q ↔ { p with dual := true } = { q with dual := true } := by
  constructor
  · intro h
    exact (congrArg (fun q : Player => { q with dual := true }) h).symm
  · intro h
    exact (congrArg (fun p : Player => { p with dual := q.dual }) h).symm

namespace Stage

/-- A stage as it would be in a dual picture, where this is all that has been drawn. -/
def silent (drawn : Array Piece) (s : Stage) : Stage :=
  { s with player := { s.player with dual := true }, drawn }

variable (drawn : Array Piece) (s : Stage)

/-! ### What a silent stage does -/

/-- A content is stored in the same way in a dual picture. -/
theorem store_silent (type id : Nat) (content : Bytes) :
    (s.silent drawn).store type id content = (s.store type id content).silent drawn := by
  unfold store
  cases Object.ofBytes type content <;> rfl

/-- The pending object is given up in the same way in a dual picture. -/
theorem flush_silent : (s.silent drawn).flush = s.flush.silent drawn := by
  have hpending : (s.silent drawn).player.pending = s.player.pending := rfl
  simp only [flush, hpending]
  cases s.player.pending with
  | none => rfl
  | some p =>
      exact store_silent drawn (s.update fun q => { q with pending := none })
        p.type p.id p.content

/-- A piece is taken in the same way in a dual picture. -/
theorem receive_silent (type id : Nat) (fragment : Fragment) :
    (s.silent drawn).receive type id fragment = (s.receive type id fragment).silent drawn := by
  have hpending (s : Stage) : (s.silent drawn).player.pending = s.player.pending := rfl
  have hawait (s : Stage) (p : Pending) :
      (s.silent drawn).update (fun q => { q with pending := some p }) =
        (s.update fun q => { q with pending := some p }).silent drawn := rfl
  have hsettled (s : Stage) :
      (if (s.silent drawn).player.pending.isComplete then (s.silent drawn).flush
        else s.silent drawn) =
      (if s.player.pending.isComplete then s.flush else s).silent drawn := by
    rw [hpending, flush_silent]
    split <;> rfl
  cases fragment with
  | last content =>
      simp only [receive, hpending]
      cases s.player.pending.append? type id content with
      | some p => simp only [hawait, flush_silent]
      | none => simp only [flush_silent, store_silent]
  | part total content =>
      simp only [receive, hpending]
      cases s.player.pending.append? type id content with
      | some p => simp only [hawait, hsettled]
      | none => simp only [flush_silent drawn s, hawait, hsettled]

/-- Whatever a command is about, it does the same in a dual picture, except that it draws nothing.
Only a header may tell whether the picture is dual. -/
theorem perform_silent (scale : Float) {c : Command} (h : c.concern ≠ .header) :
    (s.silent drawn).perform scale c =
      ((s.perform scale c).1.silent drawn, (s.perform scale c).2) := by
  have hdrawing (c : Command) : (s.silent drawn).player.drawing scale c = [] := if_pos rfl
  cases c with
  | header dual resolution => exact absurd rfl h
  | object type id fragment => exact Prod.ext (receive_silent drawn s type id fragment) rfl
  | fill | stroke | label =>
      simp only [perform, hdrawing, List.toArray, Array.append_empty]
      rfl
  | restore index =>
      have hsaved : (s.silent drawn).player.saved = s.player.saved := rfl
      simp only [perform, Player.restore?, hsaved]
      cases s.player.saved.dropWhile (·.index != index) <;> rfl
  | save | container | world | page | nothing => rfl

/-- A record arrives in the same way in a dual picture. -/
theorem arrive_silent (kind : Kind) :
    (s.silent drawn).arrive kind = (s.arrive kind).silent drawn := by
  have hready (s : Stage) (text : String) :
      (if kind ≠ .object && (s.silent drawn).player.pending.isSome then
        ((s.silent drawn).note .debug text).flush else s.silent drawn) =
      (if kind ≠ .object && s.player.pending.isSome then (s.note .debug text).flush
        else s).silent drawn := by
    have hpending : (s.silent drawn).player.pending = s.player.pending := rfl
    rw [hpending]
    split
    · exact flush_silent drawn (s.note .debug text)
    · rfl
  exact hready (s.update fun p => { p with records := p.records + 1 }) _

/-- A record that is not a header is played in the same way in a dual picture. -/
theorem playRecord_silent (scale : Float) {kind : Kind} (hkind : kind ≠ .header) (flags : Nat)
    (payload : Bytes) :
    (s.silent drawn).playRecord scale kind flags payload =
      (s.playRecord scale kind flags payload).silent drawn := by
  rw [playRecord_eq, playRecord_eq, arrive_silent]
  cases hread : Command.ofRecord kind flags payload with
  | error f =>
      rw [handle_of_error hread, handle_of_error hread]
      rfl
  | ok c =>
      rw [handle_of_ok hread, handle_of_ok hread,
        perform_silent drawn _ scale (Command.concern_ne_header hkind hread)]
      simp only [report]
      cases ((s.arrive kind).perform scale c).2 <;> rfl

/-- So are the records of a comment. -/
theorem playFrom_silent (verbose : Bool) (scale : Float) (offset : Nat) (data : Bytes)
    (hheader : ∀ r ∈ Assembly.records data, r.1 ≠ .header) :
    (s.silent drawn).playFrom verbose scale offset data =
      (s.playFrom verbose scale offset data).silent drawn := by
  fun_induction playFrom verbose scale offset data s with
  | case1 offset data s cause hread =>
      rw [playFrom, hread]
  | case2 offset data s code flags size dataSize hread place hsize =>
      rw [playFrom, hread]
      exact dif_pos hsize
  | case3 offset data s code flags size dataSize hread place hsize hkind number =>
      rw [playFrom, hread]
      simp only [dif_neg hsize, hkind]
      rfl
  | case4 offset data s code flags size dataSize hread place hsize kind hkind number listed
      payload ih =>
      rw [Assembly.records, hread] at hheader
      simp only [dif_neg hsize, hkind, List.forall_mem_cons] at hheader
      -- the record is listed in both stages or in none
      have hlisted : (if verbose then (s.silent drawn).note .debug
          s!"EMF+ {place}: {number} {kind.name} ({kind.support.name})" else s.silent drawn) =
          listed.silent drawn := by
        show _ = (if verbose then _ else _ : Stage).silent drawn
        split <;> rfl
      rw [← ih hheader.2, ← playRecord_silent drawn listed scale hheader.1, ← hlisted]
      rw [playFrom, hread]
      simp only [dif_neg hsize, hkind]
      rfl

/-- Comments without a header are played in the same way in a dual picture. -/
theorem playAll_silent (verbose : Bool) {comments : List Comment}
    (hheader : ∀ c ∈ comments, ∀ r ∈ Assembly.records c.data, r.1 ≠ .header) :
    (s.silent drawn).playAll verbose comments = (s.playAll verbose comments).silent drawn := by
  induction comments generalizing s with
  | nil => rfl
  | cons c rest ih =>
      have hfirst :=
        playFrom_silent drawn s verbose c.scale 0 c.data (hheader c List.mem_cons_self)
      have hrest := ih (s.play verbose c.scale c.data)
        fun d hd => hheader d (List.mem_cons_of_mem c hd)
      exact (congrArg (playAll verbose rest) hfirst).trans hrest

/-! ### The flag -/

variable {s : Stage}

/-- Only a header changes the flag. -/
theorem perform_dual (scale : Float) {c : Command} (h : c.concern ≠ .header) :
    (s.perform scale c).1.player.dual = s.player.dual := by
  cases c with
  | header dual resolution => exact absurd rfl h
  | object type id fragment => exact (Collects.receive type id fragment s).dual
  | restore index =>
      simp only [perform, Player.restore?]
      cases s.player.saved.dropWhile (·.index != index) <;> rfl
  | _ => rfl

/-- Whether the picture is dual is said by headers and by no other record. -/
theorem playRecord_dual (scale : Float) {kind : Kind} (hkind : kind ≠ .header) (flags : Nat)
    (payload : Bytes) : (s.playRecord scale kind flags payload).player.dual = s.player.dual := by
  rw [playRecord_eq, ← (Collects.arrive kind s).dual]
  cases hread : Command.ofRecord kind flags payload with
  | error f =>
      rw [handle_of_error hread]
      rfl
  | ok c =>
      have hperformed := perform_dual (s := s.arrive kind) scale
        (Command.concern_ne_header hkind hread)
      rw [handle_of_ok hread, ← hperformed, report]
      cases ((s.arrive kind).perform scale c).2 <;> rfl

/-- Records without a header among them leave the flag as it was. -/
theorem playCues_dual {cues : List Cue} (h : ∀ q ∈ cues, q.kind ≠ .header) :
    (s.playCues cues).player.dual = s.player.dual := by
  induction cues generalizing s with
  | nil => rfl
  | cons q rest ih =>
      have hrest := ih (s := s.playRecord q.scale q.kind q.flags q.payload)
        fun r hr => h r (List.mem_cons_of_mem q hr)
      exact hrest.trans (playRecord_dual q.scale (h q List.mem_cons_self) q.flags q.payload)

/-- So do comments without a header among their records. -/
theorem playAll_dual_eq (verbose : Bool) {comments : List Comment}
    (hheader : ∀ c ∈ comments, ∀ r ∈ Assembly.records c.data, r.1 ≠ .header) :
    (s.playAll verbose comments).player.dual = s.player.dual := by
  have hcues : ∀ q ∈ comments.flatMap Comment.cues, q.kind ≠ .header := by
    intro q hq
    obtain ⟨c, hc, hmem⟩ := List.mem_flatMap.1 hq
    obtain ⟨r, hr, rfl⟩ := List.mem_map.1 hmem
    exact hheader c hc r hr
  rw [(playAll_alike verbose comments s).player]
  exact playCues_dual hcues

/-- A stage of a dual picture is silent. -/
theorem silent_of_dual (h : s.player.dual = true) : s.silent s.drawn = s := by
  show { s with player := { s.player with dual := true } } = s
  rw [← h]

/-- A player whose flag is set draws nothing. -/
theorem playAll_drawn_of_dual (verbose : Bool) {comments : List Comment}
    (hheader : ∀ c ∈ comments, ∀ r ∈ Assembly.records c.data, r.1 ≠ .header)
    (h : s.player.dual = true) : (s.playAll verbose comments).drawn = s.drawn := by
  have hsilent := playAll_silent s.drawn s verbose hheader
  rw [silent_of_dual h] at hsilent
  rw [hsilent]
  rfl

/-- The flag silences the drawing and nothing else. Take two players that differ in nothing but
the flag, and any comments without a header. After the comments they still differ in nothing but
the flag, which is what it was. A player whose flag is set has drawn nothing. The messages are the
same, if they were the same before. -/
theorem playAll_dual (verbose : Bool) {comments : List Comment}
    (hheader : ∀ c ∈ comments, ∀ r ∈ Assembly.records c.data, r.1 ≠ .header) {s t : Stage}
    (h : s.player.SameButDual t.player) :
    (s.playAll verbose comments).player.SameButDual (t.playAll verbose comments).player ∧
      (s.playAll verbose comments).player.dual = s.player.dual ∧
      (t.playAll verbose comments).player.dual = t.player.dual ∧
      (s.player.dual = true → (s.playAll verbose comments).drawn = s.drawn) ∧
      (t.player.dual = true → (t.playAll verbose comments).drawn = t.drawn) ∧
      (s.log = t.log → (s.playAll verbose comments).log = (t.playAll verbose comments).log) := by
  -- both go on as the silent stages do, and these begin with one player
  have hs := playAll_silent #[] s verbose hheader
  have ht := playAll_silent #[] t verbose hheader
  have hsilent : Alike (s.silent #[]) (t.silent #[]) := ⟨Player.sameButDual_iff.1 h, rfl⟩
  refine ⟨Player.sameButDual_iff.2 ?_, playAll_dual_eq verbose hheader,
    playAll_dual_eq verbose hheader, playAll_drawn_of_dual verbose hheader,
    playAll_drawn_of_dual verbose hheader, fun hlog => ?_⟩
  · have hrun := (hsilent.playAll verbose comments).trans
      (playAll_alike verbose comments (t.silent #[])).symm
    rw [hs, ht] at hrun
    exact hrun.player
  · have hsame : s.silent #[] = t.silent #[] := by
      rw [silent, silent, Player.sameButDual_iff.1 h, hlog]
    rw [hsame, ht] at hs
    have hlogs := congrArg Stage.log hs
    exact hlogs.symm

/-- A comment with a save, a container without a payload, a filled rectangle and a restore. -/
def rectangleComment : Comment :=
  .ofRecords 1 [(.save, 0, [1, 0, 0, 0]), (.beginContainer, 0, []),
    (.fillRects, 0xC000, redRectangle), (.restore, 0, [1, 0, 0, 0])]

/-- Of two players that differ in the flag only, the one without it draws the rectangle and the
other one draws nothing. In the end they differ in the flag only. -/
theorem playAll_dual_rectangle :
    let s : Stage := ⟨.initial, #[], #[]⟩
    let t : Stage := ⟨{ Player.initial with dual := true }, #[], #[]⟩
    (∀ c ∈ [rectangleComment], ∀ r ∈ Assembly.records c.data, r.1 ≠ .header) ∧
      s.player.SameButDual t.player ∧
      (s.playAll true [rectangleComment]).player.SameButDual
        (t.playAll true [rectangleComment]).player ∧
      (s.playAll true [rectangleComment]).drawn.size = 1 ∧
      (t.playAll true [rectangleComment]).drawn = #[] := by
  intro s t
  have hheader : ∀ c ∈ [rectangleComment], ∀ r ∈ Assembly.records c.data, r.1 ≠ .header := by
    decide +kernel
  have hplayers : s.player.SameButDual t.player := rfl
  obtain ⟨hsame, _, _, _, hsilent, _⟩ := playAll_dual true hheader hplayers
  exact ⟨hheader, hplayers, hsame, by decide +kernel, hsilent rfl⟩

end Stage

end Metafile.Plus
