import Metafile.Proofs.Geometry.Alike
import Metafile.Proofs.Playback.Figures
import Metafile.Proofs.Playback.World

/-!
# `Metafile.Proofs.Playback.Wrapping`: the group of the world transform and what it stands for

The world transform is written as a group, and the matrix of that group depends on the map mode
and on the extents of the window and the viewport as well. A command that moves the world
transform opens the group anew, and so does a return to a saved context that puts points at other
places. Between two such commands the records write inside of the group that is open.

`State.perform_grouping` goes through the commands. From it follows what holds at every boundary
before the end record (`Reaches.wrapper_upToDate`): without a group the world transform is the
identity, and the group that is open has the matrix of the moment at which it was opened. That is
the matrix of now as long as no record changes the map mode or an extent, and no saved context
comes back while a path is open.
-/

set_option autoImplicit false

namespace Metafile

open Metafile.Markup (Attribute Document Piece)
open Metafile.Record (Command Entry PathUse Setting Survey TransformChange)

/-! ### The innermost element -/

namespace Markup

/-- The elements that are open after a piece, the innermost first, each with its attributes. -/
def Piece.enter (opened : List (String × List Attribute)) : Piece → List (String × List Attribute)
  | .opening name attributes => (name, attributes) :: opened
  | .ending _ => opened.tail
  | _ => opened

/-- A whole piece closes what it opens. -/
theorem Piece.enter_of_isWhole {p : Piece} (h : p.isWhole = true)
    (opened : List (String × List Attribute)) : p.enter opened = opened := by
  cases p <;> first | rfl | cases h

namespace Document

/-- The elements that a document leaves open, the innermost first. -/
def opened (d : Document) : List (String × List Attribute) := d.toList.foldl Piece.enter []

/-- The innermost of the elements that a document leaves open. -/
def innermost? (d : Document) : Option (String × List Attribute) := d.opened.head?

/-- The last piece opens one more element, closes the innermost one, or does neither. -/
theorem opened_push (d : Document) (p : Piece) : opened (d.push p) = p.enter (opened d) := by
  rw [opened, Array.toList_push, List.foldl_append]
  rfl

/-- Whole pieces leave the elements open that were open before. -/
theorem opened_append {more : Document} (h : ∀ p ∈ more, p.isWhole = true) (d : Document) :
    opened (d ++ more) = opened d := by
  rw [opened, Array.toList_append, List.foldl_append, ← opened]
  generalize opened d = before
  have hlist : ∀ p ∈ more.toList, p.isWhole = true := fun p hp => h p (Array.mem_toList_iff.1 hp)
  generalize more.toList = pieces at hlist
  induction pieces with
  | nil => rfl
  | cons p rest ih =>
      rw [List.foldl_cons, Piece.enter_of_isWhole (hlist p List.mem_cons_self)]
      exact ih fun q hq => hlist q (List.mem_cons_of_mem p hq)

end Document

end Markup

namespace Playback

open Metafile.Markup.Document (innermost?)

/-- Affine maps of alike numbers are written the same. -/
theorem matrixText_eq {a b : Affine Float} (h : Affine.Alike a b) :
    matrixText a = matrixText b := by
  simp only [matrixText, List.map_cons, h.m11.text_eq, h.m12.text_eq, h.m21.text_eq,
    h.m22.text_eq, h.dx.text_eq, h.dy.text_eq]

/-! ### No world transform at all -/

/-- The world transform is the identity, and it is so in every saved context. -/
def Worlds.Still (w : Worlds) : Prop := ∀ world ∈ w.current :: w.saved, world = Affine.identity

/-- Where no transform was ever set there is none to return to. -/
theorem Worlds.Still.restored {w : Worlds} (h : w.Still) (relative : Int) :
    (w.restored relative).Still := by
  unfold Worlds.restored
  split
  · exact h
  · split
    · exact h
    · rename_i world saved hdrop
      intro other hother
      have hmem : other ∈ w.saved.drop (relative.natAbs - 1) := hdrop ▸ hother
      exact h other (List.mem_cons_of_mem _ (List.mem_of_mem_drop hmem))

namespace State

variable {setup : Setup} {uses : List PathUse} {s t u : State} {c : Command}

/-! ### The group of the moment -/

/-- The matrix of the world transform as it would be written now. -/
def matrix (s : State) : String :=
  matrixText (s.context.mapping.wrapper s.page s.context.world)

/-- The element of the world transform as it would be opened now. -/
def group (s : State) : String × List Attribute := ("g", [("transform", s.matrix)])

/-- The group that is written is that of the moment. -/
theorem wrapperPiece_eq (s : State) : s.wrapperPiece = .opening s.group.1 s.group.2 := rfl

/-- Two groups are the same if and only if their matrices are. -/
theorem group_inj : s.group = t.group ↔ s.matrix = t.matrix := by
  constructor
  · intro h
    exact congrArg Prod.snd (List.cons.inj (congrArg Prod.snd h)).1
  · intro h
    rw [group, group, h]

/-- The group of the world transform is open, and its matrix is that of the moment. -/
structure UpToDate (s : State) : Prop where
  wrapped : s.wrapped = true
  innermost : innermost? s.written = some s.group

/-- A group stays up to date where neither the document nor the matrix changes. -/
theorem UpToDate.of_same (h : UpToDate s) (hwrapped : t.wrapped = s.wrapped)
    (hwritten : t.written = s.written) (hmatrix : t.matrix = s.matrix) : UpToDate t :=
  ⟨hwrapped.trans h.wrapped, by rw [hwritten, h.innermost, group, group, hmatrix]⟩

/-- Outside of a path a group is opened for the world transform of the moment. -/
theorem wrap_upToDate (h : s.inPath = false) : UpToDate s.wrap := by
  have hgroup : s.wrap.group = s.group := by
    rw [wrap_of_closed h]
    rfl
  refine ⟨by rw [wrap_of_closed h], ?_⟩
  rw [hgroup, wrap_of_closed h]
  dsimp only
  rw [regrouping, Array.append_push, innermost?, Document.opened_push, wrapperPiece_eq]
  rfl

/-- A replay opens a group for the result, or it has nothing to do. -/
theorem replay_cases (ts : List TransformChange) (h : s.inPath = false) :
    UpToDate (s.replay ts) ∨ s.replay ts = s := by
  unfold replay
  split
  · exact Or.inr rfl
  · exact Or.inl (wrap_upToDate h)

/-- What is written next lies in the elements that are open, and no group is opened or closed. -/
structure Continues (s t : State) : Prop where
  wrapped : t.wrapped = s.wrapped
  written : ∃ more, t.written = s.written ++ more ∧ ∀ p ∈ more, p.isWhole = true

namespace Continues

/-- Nothing is written. -/
theorem of_same (hwrapped : t.wrapped = s.wrapped) (hwritten : t.written = s.written) :
    Continues s t :=
  ⟨hwrapped, #[], by rw [hwritten, Array.append_empty], fun p hp => by simp at hp⟩

/-- A state continues itself. -/
theorem refl (s : State) : Continues s s := of_same rfl rfl

/-- What is written in two turns lies in the same elements. -/
theorem trans (h : Continues s t) (k : Continues t u) : Continues s u := by
  obtain ⟨more, hmore, hwhole⟩ := h.written
  obtain ⟨rest, hrest, hwhole'⟩ := k.written
  refine ⟨k.wrapped.trans h.wrapped, more ++ rest, by rw [hrest, hmore, Array.append_assoc], ?_⟩
  intro p hp
  exact (Array.mem_append.1 hp).elim (hwhole p) (hwhole' p)

/-- The innermost element stays the same. -/
theorem innermost (h : Continues s t) : innermost? t.written = innermost? s.written := by
  obtain ⟨more, hmore, hwhole⟩ := h.written
  rw [hmore, innermost?, innermost?, Document.opened_append hwhole]

/-- A group that was up to date is so exactly if its matrix is still that of the moment. -/
theorem upToDate_iff (h : Continues s t) (hs : UpToDate s) :
    UpToDate t ↔ t.matrix = s.matrix := by
  have hinnermost : innermost? t.written = some s.group := h.innermost.trans hs.innermost
  constructor
  · intro ht
    exact (group_inj.1 (Option.some.inj (hinnermost.symm.trans ht.innermost))).symm
  · intro hmatrix
    exact ⟨h.wrapped.trans hs.wrapped,
      hinnermost.trans (congrArg some (group_inj.2 hmatrix.symm))⟩

/-- Whole pieces that are added are written in the elements that are open, or held back. -/
theorem adds {pieces : Document} (hadds : Adds s t pieces)
    (hwhole : ∀ p ∈ pieces, p.isWhole = true) : Continues s t := by
  have hwritten := hadds.written
  cases hin : s.inPath with
  | true =>
      rw [hin, if_pos rfl] at hwritten
      exact of_same hadds.wrapped hwritten
  | false =>
      rw [hin, if_neg Bool.false_ne_true] at hwritten
      exact ⟨hadds.wrapped, pieces, hwritten, hwhole⟩

/-- A bracket that is closed is one whole piece, and so is everything that was held back. -/
theorem close (hheld : ∀ p ∈ s.held, p.isWhole = true) (paint : List Attribute) (b : Bracket) :
    Continues s (s.close paint b) := by
  refine ⟨rfl, #[b.piece paint] ++ s.held, ?_, fun p hp => ?_⟩
  · show s.written.push (b.piece paint) ++ s.held = _
    rw [← Array.append_singleton, Array.append_assoc]
  · rcases Array.mem_append.1 hp with hp | hp
    · rw [Array.mem_singleton.1 hp]
      rfl
    · exact hheld p hp

/-- Giving up a path opens and closes no group, for what was held back is whole. -/
theorem abandon (hheld : ∀ p ∈ s.held, p.isWhole = true) : Continues s s.abandon := by
  cases hbracket : s.bracket with
  | none =>
      rw [abandon_of_closed (by rw [inPath, hbracket]; rfl)]
      exact .refl s
  | some b =>
      rw [abandon_of_open hbracket]
      exact .close hheld _ b

end Continues

/-! ### Commands that change the matrix without a new group -/

/-- Whether a setting changes the extent of the window or of the viewport. -/
def resizes : Setting → Bool
  | .windowExtent _ | .viewportExtent _ | .scaleWindow _ | .scaleViewport _ => true
  | _ => false

/-- Whether a command may change the matrix of the world transform without opening a group for it:
a change of the map mode or of an extent, and inside of a path a return to a saved context. -/
def displaces (inPath : Bool) : Command → Bool
  | .set setting => resizes setting
  | .mapMode code => (MapMode.ofCode? code).isSome
  | .restore _ => inPath
  | _ => false

/-- The origins of the window and the viewport are not part of the matrix. -/
theorem onto_matrix {setting : Setting} (h : resizes setting = false) (s : State) :
    (s.update setting.onto).matrix = s.matrix := by
  cases setting with
  | arcDirection code =>
      unfold update Setting.onto Device.Context.setArcDirection
      dsimp only
      split <;> rfl
  | windowExtent _ | viewportExtent _ | scaleWindow _ | scaleViewport _ => cases h
  | _ => rfl

/-- No tool changes the matrix of the world transform. -/
theorem select_matrix (handle : Nat) (s : State) : (s.select handle).1.matrix = s.matrix := by
  unfold select
  split
  · split
    · rename_i context hcontext
      obtain ⟨pen, brush, rfl⟩ := selectStock?_eq hcontext
      rfl
    · rfl
  · split
    · rename_i context hcontext
      rcases select_eq_ok hcontext with rfl | ⟨tool, _, rfl⟩
      · rfl
      · cases tool <;> rfl
    · rfl

/-- The matrix stays the same where nothing displaces it. -/
theorem perform_matrix (setup : Setup) (uses : List PathUse) (s : State)
    (honly : onlyAdds c = true) (hheader : c.soleKind? ≠ some .header)
    (hkeeps : displaces s.inPath c = false) : (s.perform setup uses c).1.matrix = s.matrix := by
  -- a command that moves no coordinates has no part in the matrix
  by_cases hplaces : keepsPlaces c = true
  · obtain ⟨_, _, _, _, _, _, _, _, _, _, heq⟩ := perform_eq_of_keepsPlaces setup uses s hplaces
    exact (congrArg matrix heq).trans rfl
  cases c with
  | header header => exact absurd rfl hheader
  | draw shape =>
      show (s.draw shape).matrix = s.matrix
      unfold draw
      split
      · rfl
      · split
        · rfl
        · obtain ⟨written, held, heq⟩ :=
            emit_eq #[s.shapePiece shape] { s with position := s.ownStop shape }
          exact (congrArg matrix heq).trans rfl
  | closeFigure =>
      show s.closeFigure.matrix = s.matrix
      unfold closeFigure
      split <;> rfl
  | set setting => exact onto_matrix hkeeps s
  | mapMode code =>
      show (s.setMapMode code).matrix = s.matrix
      unfold setMapMode
      rw [Option.isNone_iff_eq_none.1 (Option.isSome_eq_false_iff.1 hkeeps)]
      rfl
  | moveTo p =>
      show (s.moveTo (.ofInt p)).matrix = s.matrix
      unfold moveTo
      split <;> rfl
  | select handle => exact select_matrix handle s
  | endOfFile | beginPath | endPath | abortPath | save | restore _ | transform _ => cases honly
  | _ => exact absurd rfl hplaces

/-! ### One command -/

/-- What a command does to the group of the world transform. -/
inductive Grouping (c : Command) (s t : State) : Prop
  /-- It opens the group anew. -/
  | opened : UpToDate t → Grouping c s t
  /-- It leaves the group as it is. -/
  | kept : Continues s t → (displaces s.inPath c = false → t.matrix = s.matrix) →
    (s.worlds.Still → t.worlds.Still) → Grouping c s t

/-- A command that changes neither the contexts nor the page keeps the group. -/
theorem Grouping.of_contexts (h : Continues s t) (hcontext : t.context = s.context)
    (hpage : t.page = s.page) (hsaved : t.saved = s.saved) : Grouping c s t :=
  .kept h (fun _ => by rw [matrix, matrix, hcontext, hpage])
    fun hstill => by rwa [worlds, hcontext, hsaved]

/-- Pieces between the beginning and the end of a document are whole. -/
theorem Draws.isWhole {p : Piece} (h : s.Draws setup c p) (hheader : c.soleKind? ≠ some .header)
    (hplus : PlusFigures setup c s) : p.isWhole = true := by
  cases c with
  | header header => exact absurd rfl hheader
  | draw shape =>
      obtain rfl : p = s.shapePiece shape := h
      rfl
  | createPattern index picture fromContext =>
      obtain ⟨id, colors, width, height, rfl⟩ := h
      rfl
  | clip change =>
      obtain ⟨id, region, rfl⟩ := h
      rfl
  | _ => exact Piece.isWhole_of_isFigure (figuresOf_isFigure hplus p h)

/-- A saved context comes back with a new group, or it puts all points at the same places, or it
was not saved. -/
theorem restore_cases (relative : Int) (s : State) :
    (∃ context saved, s.restore relative = (({ s with context, saved } : State).wrap, none)) ∨
      (∃ context saved, (context.world == s.context.world) = true ∧
        (context.mapping == s.context.mapping) = true ∧
        s.restore relative = ({ s with context, saved }, none)) ∨
      ∃ log, s.restore relative = ({ s with failed := true, log }, none) := by
  unfold restore
  split
  · rename_i context saved _
    dsimp only
    -- a group is opened if the transform or the mapping is another one
    cases hdiffer : placesDiffer context s.context with
    | true => exact Or.inl ⟨context, saved, rfl⟩
    | false =>
        rw [placesDiffer, Bool.or_eq_false_iff, Bool.not_eq_false', Bool.not_eq_false'] at hdiffer
        exact Or.inr (Or.inl ⟨context, saved, hdiffer.1, hdiffer.2, rfl⟩)
  · exact Or.inr (Or.inr ⟨_, rfl⟩)
  · rename_i hother hrefused
    exact (hother _ (Device.Saved.restore_eq_error hrefused)).elim

/-- A return to a saved context opens the group anew, if points are at other places after it. -/
theorem restore_grouping (relative : Int) (s : State) :
    Grouping (.restore relative) s (s.restore relative).1 := by
  have hstill (hs : s.worlds.Still) : (s.restore relative).1.worlds.Still := by
    rw [restore_worlds]
    exact hs.restored relative
  rcases restore_cases relative s with
    ⟨context, saved, heq⟩ | ⟨context, saved, hworld, hmapping, heq⟩ | ⟨log, heq⟩
  · cases hin : s.inPath with
    | true =>
        -- inside of a path the group stays as it is
        have hopen : ({ s with context, saved } : State).inPath = true := hin
        rw [heq, wrap_of_open hopen] at hstill ⊢
        exact .kept (.of_same rfl rfl) (fun hkeeps => Bool.noConfusion (hin.symm.trans hkeeps))
          hstill
    | false =>
        have hclosed : ({ s with context, saved } : State).inPath = false := hin
        rw [heq]
        exact .opened (wrap_upToDate hclosed)
  · rw [heq] at hstill ⊢
    exact .kept (.of_same rfl rfl)
      (fun _ => matrixText_eq (Mapping.wrapper_alike hmapping hworld)) hstill
  · rw [heq]
    exact .of_contexts (.of_same rfl rfl) rfl rfl rfl

/-- Outside of a path a change of the world transform opens the group anew. -/
theorem transform_grouping (change : TransformChange) (s : State) :
    Grouping (.transform change) s (s.transform change) := by
  unfold transform
  split
  · exact .of_contexts (.refl s) rfl rfl rfl
  · rename_i hclosed
    split
    · rename_i world _
      have hupdated : (s.update fun c => { c with world }).inPath = false :=
        Bool.eq_false_iff.2 hclosed
      exact .opened (wrap_upToDate hupdated)
    · exact .of_contexts (.of_same rfl rfl) rfl rfl rfl

/-- A path begins with the group of the transforms that come before its drawing. -/
theorem beginPath_grouping (hheld : ∀ p ∈ s.held, p.isWhole = true)
    (h : s.beginPath uses = (t, none)) : Grouping .beginPath s t := by
  have hcontinues : Continues s { s.abandon with brackets := s.abandon.brackets + 1 } :=
    (Continues.abandon hheld).trans (.of_same rfl rfl)
  obtain ⟨hbracket, _, hcontext, hsaved⟩ := abandon_keeps s
  have hpage : s.abandon.page = s.page := by
    obtain ⟨written, held, heq⟩ := abandon_eq s
    exact (congrArg State.page heq).trans rfl
  -- the changes from before the bracket are replayed where no path is open
  have hclosed :
      ({ s.abandon with brackets := s.abandon.brackets + 1 } : State).inPath = false := by
    show s.abandon.inPath = false
    rw [inPath, hbracket]
    rfl
  unfold beginPath at h
  simp only at h
  split at h
  · cases h
  · rename_i use _
    obtain ⟨rfl, _⟩ := Prod.mk.inj h
    rcases replay_cases use.before hclosed with hopened | hsame
    · exact .opened (hopened.of_same rfl rfl rfl)
    · rw [hsame]
      exact .of_contexts (hcontinues.trans (.of_same rfl rfl)) hcontext hpage hsaved

/-- After a path the group is opened anew, if transforms come after its drawing. -/
theorem endPath_grouping (hheld : ∀ p ∈ s.held, p.isWhole = true)
    (h : s.endPath uses = (t, none)) : Grouping .endPath s t := by
  unfold endPath at h
  split at h
  · obtain ⟨rfl, _⟩ := Prod.mk.inj h
    exact .of_contexts (.refl s) rfl rfl rfl
  · split at h
    · cases h
    · rename_i b _ _ use _
      obtain ⟨rfl, _⟩ := Prod.mk.inj h
      have hclosed : (s.close (s.pathPaint use) b).inPath = false := rfl
      rcases replay_cases use.after hclosed with hopened | hsame
      · exact .opened hopened
      · rw [hsame]
        exact .of_contexts (.close hheld _ b) rfl rfl rfl

/-- Between the header and the end record every command opens the group anew for the world
transform of the moment, or writes inside of it. -/
theorem perform_grouping (hheld : ∀ p ∈ s.held, p.isWhole = true)
    (hheader : c.soleKind? ≠ some .header) (hend : c ≠ .endOfFile)
    (hplus : PlusFigures setup c s) (h : s.perform setup uses c = (t, none)) :
    Grouping c s t := by
  cases honly : onlyAdds c with
  | true =>
      obtain ⟨pieces, hadds, _, hdraws⟩ := perform_adds setup uses s honly
      have hmatrix := perform_matrix setup uses s honly hheader
      rw [h] at hadds hmatrix
      exact .kept (.adds hadds fun p hp => (hdraws p hp).isWhole hheader hplus) hmatrix
        fun hstill => by rwa [hadds.worlds]
  | false =>
      cases c with
      | endOfFile => exact absurd rfl hend
      | beginPath => exact beginPath_grouping hheld h
      | endPath => exact endPath_grouping hheld h
      | abortPath =>
          obtain ⟨rfl, _⟩ := Prod.mk.inj h
          obtain ⟨_, _, hcontext, hsaved⟩ := abandon_keeps s
          obtain ⟨written, held, heq⟩ := abandon_eq s
          exact .of_contexts ((Continues.abandon hheld).trans (.of_same rfl rfl)) hcontext
            ((congrArg State.page heq).trans rfl) hsaved
      | save =>
          obtain ⟨rfl, _⟩ := Prod.mk.inj h
          refine .kept (.of_same rfl rfl) (fun _ => rfl) fun hstill world hworld => ?_
          -- the transform that is saved is the current one
          rcases List.mem_cons.1 hworld with hcurrent | hsaved
          · exact hstill world (hcurrent ▸ List.mem_cons_self)
          · exact hstill world hsaved
      | restore relative =>
          obtain rfl : (s.restore relative).1 = t := congrArg Prod.fst h
          exact restore_grouping relative s
      | transform change =>
          obtain ⟨rfl, _⟩ := Prod.mk.inj h
          exact transform_grouping change s
      | _ => cases honly

/-! ### Many records -/

/-- Whether a record may change the matrix of the world transform without opening a group for it.
-/
def displacesRecord (plus : Bool) (inPath : Bool) (e : Entry) : Bool :=
  match e.command plus with
  | .ok c => displaces inPath c
  | .error _ => false

/-- Whether one of the records that are played from a state on may change the matrix of the world
transform without opening a group for it. -/
def displacedBy (setup : Setup) (uses : List PathUse) : List Entry → State → Bool
  | [], _ => false
  | e :: rest, s =>
    displacesRecord setup.options.plus s.inPath e ||
      displacedBy setup uses rest (s.next setup uses e).1

/-- One more record is played after the others. -/
theorem displacedBy_concat {records : List Entry} (h : s.steps setup uses records = (t, none))
    (e : Entry) :
    s.displacedBy setup uses (records ++ [e]) =
      (s.displacedBy setup uses records || displacesRecord setup.options.plus t.inPath e) := by
  induction records generalizing s with
  | nil =>
      obtain ⟨rfl, _⟩ := Prod.mk.inj h
      show (_ || false) = (false || _)
      rw [Bool.or_false, Bool.false_or]
  | cons first rest ih =>
      change s.steps setup uses ([first] ++ rest) = (t, none) at h
      obtain ⟨u, hfirst, hrest⟩ := steps_split h
      have hnext := steps_singleton.1 hfirst
      rw [List.cons_append, displacedBy, displacedBy,
        show (s.next setup uses first).1 = u from congrArg Prod.fst hnext, ih hrest,
          Bool.or_assoc]

/-- What displaces the matrix outside of a path does so inside of one, too. -/
theorem displacesRecord_mono {plus inPath : Bool} {e : Entry}
    (h : displacesRecord plus true e = false) : displacesRecord plus inPath e = false := by
  unfold displacesRecord at h ⊢
  split at h
  · rename_i c _
    cases c with
    | restore relative => cases h
    | _ => exact h
  · rfl

/-- Without a change of the map mode or of an extent and without a return to a saved context
nothing displaces the matrix. -/
theorem displacedBy_eq_false {records : List Entry}
    (h : ∀ e ∈ records, displacesRecord setup.options.plus true e = false) (s : State) :
    s.displacedBy setup uses records = false := by
  induction records generalizing s with
  | nil => rfl
  | cons e rest ih =>
      rw [displacedBy, displacesRecord_mono (h e List.mem_cons_self), Bool.false_or]
      exact ih (fun other hmem => h other (List.mem_cons_of_mem e hmem)) _

end State

/-! ### Boundaries -/

/-- The group that is open at a boundary was opened at an earlier one, for the world transform of
that moment, and since then the records `after` have written inside of it. -/
structure GroupedSince (setup : Setup) (stream : Bytes) (survey : Survey)
    (before after later : List Entry) (s t : State) : Prop where
  reaches : Reaches setup stream survey before (after ++ later) s
  played : s.steps setup survey.paths after = (t, none)
  upToDate : s.UpToDate
  continues : State.Continues s t

namespace Reaches

variable {setup : Setup} {stream : Bytes} {survey : Survey} {earlier later : List Entry}
  {e : Entry} {s t : State} {c : Command}

/-- What is held back at a boundary is whole. -/
theorem held_isWhole (h : Reaches setup stream survey earlier later t) :
    ∀ p ∈ t.held, p.isWhole = true :=
  fun p hp => Piece.isWhole_of_isFigure (h.mirrors.held p hp)

/-- Between the header and the end record every record opens the group anew, or writes inside of
it. -/
theorem next_grouping (h : Reaches setup stream survey earlier (e :: later) s)
    (hearlier : earlier ≠ []) (hlater : later ≠ []) (hc : e.command setup.options.plus = .ok c)
    (hperform : (s.announce setup e).perform setup survey.paths c = (t, none)) :
    State.Grouping c s t := by
  have hplus : State.PlusFigures setup c (s.announce setup e) := h.plusFigures
  obtain ⟨log, hlog⟩ := State.announce_eq setup e s
  rw [hlog] at hperform hplus
  have hgrouping : State.Grouping c { s with log } t :=
    State.perform_grouping h.held_isWhole (fun hheader => hearlier ((h.header_iff hc).1 hheader))
      (h.ne_endOfFile hc hlater) hplus hperform
  cases hgrouping with
  | opened hopened => exact .opened hopened
  | kept hcontinues hmatrix hstill =>
      have hlisted : State.Continues s { s with log } := .of_same rfl rfl
      exact .kept (hlisted.trans hcontinues) hmatrix hstill

/-- Before the end record no group is open exactly while no world transform was ever set, and else
the group was opened at an earlier boundary. -/
theorem grouping (h : Reaches setup stream survey earlier later t) (hlater : later ≠ []) :
    (t.wrapped = false → t.worlds.Still) ∧
      (t.wrapped = true → ∃ before after s, earlier = before ++ after ∧
        GroupedSince setup stream survey before after later s t ∧
        (s.displacedBy setup survey.paths after = false → t.matrix = s.matrix)) := by
  -- by induction on the records played, where each opens a group or keeps the open one
  refine h.induction (motive := fun earlier later t => later ≠ [] →
    (t.wrapped = false → t.worlds.Still) ∧
      (t.wrapped = true → ∃ before after s, earlier = before ++ after ∧
        GroupedSince setup stream survey before after later s t ∧
        (s.displacedBy setup survey.paths after = false → t.matrix = s.matrix))) ?_ ?_ hlater
  · refine fun _ => ⟨fun _ world hworld => List.mem_singleton.1 hworld, fun hwrapped => ?_⟩
    cases hwrapped
  · intro earlier e later s t c hs ih hc hperform hlater
    obtain ⟨hstill, hgroup⟩ := ih (List.cons_ne_nil e later)
    have hnext : s.next setup survey.paths e = (t, none) :=
      (State.next_of_command hc).trans hperform
    by_cases hearlier : earlier = []
    · -- the header opens no group
      subst hearlier
      obtain ⟨rfl, _⟩ := Prod.mk.inj hs.played
      have hadds := State.announce_adds setup e (State.start survey)
      have hkind := (hs.header_iff hc).2 rfl
      obtain ⟨header, rfl⟩ : ∃ header, c = .header header := by
        cases c <;> first | exact ⟨_, rfl⟩ | cases hkind
      obtain ⟨rfl, _⟩ := Prod.mk.inj hperform
      have hboth := hadds.after_quiet (State.beginDocument_adds setup.options header _)
      refine ⟨fun _ => by rw [hboth.worlds]; exact hstill rfl, fun hwrapped => ?_⟩
      rw [hboth.wrapped] at hwrapped
      cases hwrapped
    · cases hs.next_grouping hearlier hlater hc hperform with
      | opened hopened =>
          -- the group is opened anew by this record, and nothing has come after it
          refine ⟨fun hnone => ?_, fun _ => ⟨earlier ++ [e], [], t, (List.append_nil _).symm,
            ⟨hs.concat hnext, rfl, hopened, .refl t⟩, fun _ => rfl⟩⟩
          rw [hopened.wrapped] at hnone
          cases hnone
      | kept hcontinues hmatrix hworlds =>
          refine ⟨fun hnone => hworlds (hstill (hcontinues.wrapped ▸ hnone)), fun hwrapped => ?_⟩
          -- the record is one more of those after the record that opened the group
          obtain ⟨before, after, u, rfl, hsince, hkept⟩ := hgroup (hcontinues.wrapped ▸ hwrapped)
          refine ⟨before, after ++ [e], u, (List.append_assoc ..).symm ▸ rfl,
            ⟨?_, ?_, hsince.upToDate, hsince.continues.trans hcontinues⟩, fun hnot => ?_⟩
          · rw [List.append_assoc]
            exact hsince.reaches
          · rw [State.steps_append hsince.played]
            exact State.steps_singleton.2 hnext
          · rw [State.displacedBy_concat hsince.played, Bool.or_eq_false_iff,
              State.displacesRecord, hc] at hnot
            exact (hmatrix hnot.2).trans (hkept hnot.1)

/-- At every boundary before the end record: if no group is open, the world transform is the
identity. If one is open, it was opened at an earlier boundary with the matrix of that moment, and
what was written since lies inside of it. Its matrix is that of the moment exactly if both moments
have the same matrix. They have, if since then no record has changed the map mode or the extent of
the window or the viewport, and no saved context came back while a path was open. -/
theorem wrapper_upToDate (h : Reaches setup stream survey earlier later t) (hlater : later ≠ []) :
    (t.wrapped = false → t.context.world = Affine.identity) ∧
      (t.wrapped = true → ∃ before after s, earlier = before ++ after ∧
        GroupedSince setup stream survey before after later s t ∧
        (t.UpToDate ↔ t.matrix = s.matrix) ∧
        (s.displacedBy setup survey.paths after = false → t.UpToDate)) := by
  obtain ⟨hstill, hgroup⟩ := h.grouping hlater
  refine ⟨fun hnone => hstill hnone _ List.mem_cons_self, fun hwrapped => ?_⟩
  obtain ⟨before, after, s, hsplit, hsince, hkept⟩ := hgroup hwrapped
  have hiff := hsince.continues.upToDate_iff hsince.upToDate
  exact ⟨before, after, s, hsplit, hsince, hiff, fun hnot => hiff.2 (hkept hnot)⟩

end Reaches

/-- A picture of a hundred units in which the world is shifted by ten, and then some records. -/
def shiftedStream (records : List (Record.Kind × Bytes)) : Bytes :=
  let zero : Bytes := [0, 0, 0, 0]
  let one : Bytes := [0, 0, 0x80, 0x3F]
  let ten : Bytes := [0, 0, 0x20, 0x41]
  Record.streamOf
    ((.header, zero ++ zero ++ [100, 0, 0, 0, 100, 0, 0, 0] ++ List.replicate 64 0) ::
    (.setWorldTransform, one ++ zero ++ zero ++ one ++ ten ++ zero) :: records ++
    [(.endOfFile, List.replicate 12 0)])

/-- What is left behind before the end record. -/
def shiftedState (records : List (Record.Kind × Bytes)) : State :=
  let survey := Survey.ofStream (shiftedStream records)
  ((State.start survey).steps .plain survey.paths (survey.entries.take (records.length + 2))).1

/-- A rectangle. -/
def drawnAfter : List (Record.Kind × Bytes) := [(.rectangle, List.replicate 16 0)]

/-- A rectangle is drawn under the matrix of the moment. -/
theorem wrapper_upToDate_rectangle :
    ∃ survey earlier later t, Reaches .plain (shiftedStream drawnAfter) survey earlier later t ∧
      later ≠ [] ∧ t.inPath = false ∧ t.wrapped = true ∧ t.UpToDate := by
  have h : Reaches .plain (shiftedStream drawnAfter) _ _ _ (shiftedState drawnAfter) :=
    .of_steps 3 (by decide +kernel) (by decide +kernel)
  have hlater : (Survey.ofStream (shiftedStream drawnAfter)).entries.drop 3 ≠ [] :=
    List.ne_nil_of_length_pos (by decide +kernel)
  have hwrapped : (shiftedState drawnAfter).wrapped = true := by decide +kernel
  -- none of the records changes the map mode or an extent, or returns to a saved context
  have hnone : ∀ e ∈ (Survey.ofStream (shiftedStream drawnAfter)).entries.take 3,
      State.displacesRecord true true e = false := by decide +kernel
  obtain ⟨before, after, s, hsplit, _, _, hkept⟩ := (h.wrapper_upToDate hlater).2 hwrapped
  refine ⟨_, _, _, _, h, hlater, by decide +kernel, hwrapped, hkept ?_⟩
  refine State.displacedBy_eq_false (fun e he => hnone e ?_) s
  rw [hsplit]
  exact List.mem_append_right before he

/-- A change of the map mode. -/
def rescaledAfter : List (Record.Kind × Bytes) := [(.setMapMode, [2, 0, 0, 0])]

/-- A change of the map mode leaves the group open that has the old matrix. -/
theorem map_mode_keeps_old_wrapper :
    ∃ survey earlier later t,
      Reaches .plain (shiftedStream rescaledAfter) survey earlier later t ∧
      later ≠ [] ∧ t.inPath = false ∧ t.wrapped = true ∧
      innermost? t.written = some ("g", [("transform", "matrix(1 0 0 1 10 0)")]) ∧
      t.group = ("g", [("transform", "matrix(1 0 0 1 1 0)")]) := by
  have h : Reaches .plain (shiftedStream rescaledAfter) _ _ _ (shiftedState rescaledAfter) :=
    .of_steps 3 (by decide +kernel) (by decide +kernel)
  exact ⟨_, _, _, _, h, List.ne_nil_of_length_pos (by decide +kernel), by decide +kernel,
    by decide +kernel, by decide +kernel, by decide +kernel⟩

end Playback

end Metafile
