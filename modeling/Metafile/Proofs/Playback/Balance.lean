import Metafile.Proofs.Playback.Families
import Metafile.Proofs.Playback.Outcome
import Metafile.Proofs.Playback.Pieces

/-!
# `Metafile.Proofs.Playback.Balance`: documents are well formed

A record may open a group that a later record closes, so no piece of a document is balanced by
itself. `State.Framed` is the invariant between the header and the end record: what is written
leaves exactly the groups open that the state knows of, and what is held back is whole. Every
command preserves it (`Framed.perform`), and the end record closes the groups that are left.

`Reaches.wellFormed` is the result for whole streams: if the end record is reached, the document
is well formed.
-/

set_option autoImplicit false

namespace Metafile.Playback

open Metafile.Markup (Attribute Document Nesting Piece Plain Tag WellFormed)
open Metafile.Record (Command Entry Header Kind PathUse Survey TransformChange)

/-- The piece that begins the outermost element. -/
def rootPiece (o : Options) (h : Header) : Piece :=
  if o.delimited then .opening "svg" (rootAttributes o h) else originPiece o h

namespace State

/-- The names of the elements that are open around the group of the world transform, the innermost
first. -/
def outerNames (o : Options) : List String :=
  (o.qualifier ++ "g") :: if o.delimited then [o.qualifier ++ "svg"] else []

/-- The names of the elements that are open, the innermost first. -/
def openNames (o : Options) (s : State) : List String :=
  if s.wrapped then (o.qualifier ++ "g") :: outerNames o else outerNames o

/-- What is written leaves the known groups open inside of one outermost element, and what is held
back would leave them as they are. -/
structure Framed (o : Options) (root : Tag) (s : State) : Prop where
  sound : ∀ p ∈ s.written, p.Sound
  nested : Nesting.empty.after (Document.tags o.qualifier s.written) =
    some ⟨s.openNames o, [root]⟩
  held : ∀ p ∈ s.held, p.Sound ∧ p.isWhole = true
  clip : ∀ b, s.bracket = some b → Attribute.Within b.clip ["clip-path"]

/-- Some group is always open. -/
theorem openNames_ne_nil (o : Options) (s : State) : s.openNames o ≠ [] := by
  unfold openNames outerNames
  split <;> exact List.cons_ne_nil _ _

/-- The group of the world transform is closed, if it is open. -/
theorem after_ended (o : Options) (s : State) (roots : List Tag) :
    Nesting.after ⟨s.openNames o, roots⟩
      (Document.tags o.qualifier (if s.wrapped then #[.ending "g"] else #[])) =
      some ⟨outerNames o, roots⟩ := by
  unfold openNames
  split
  · exact Nesting.after_cons (Nesting.enter_ending _ _ _) []
  · rfl

namespace Framed

variable {setup : Setup} {o : Options} {root : Tag} {s t : State} {pieces : Document}

/-- What changes nothing of the document, the group and the bracket. -/
theorem of_same (h : Framed o root s) (hwritten : t.written = s.written) (hheld : t.held = s.held)
    (hwrapped : t.wrapped = s.wrapped) (hbracket : t.bracket = s.bracket) : Framed o root t where
  sound := hwritten ▸ h.sound
  nested := by
    rw [hwritten, h.nested, openNames, openNames, hwrapped]
  held := hheld ▸ h.held
  clip := hbracket ▸ h.clip

/-- Listing a record writes nothing. -/
theorem announce (h : Framed o root s) (e : Entry) : Framed o root (s.announce setup e) := by
  obtain ⟨log, hlog⟩ := announce_eq setup e s
  rw [hlog]
  exact h.of_same rfl rfl rfl rfl

/-- Whole pieces that are written leave the groups as they are. -/
private theorem nested_append (h : Framed o root s)
    (hpieces : ∀ p ∈ pieces, p.Sound ∧ p.isWhole = true) :
    Nesting.empty.after (Document.tags o.qualifier (s.written ++ pieces)) =
      some ⟨s.openNames o, [root]⟩ := by
  rw [Document.tags_append, Nesting.after_append h.nested]
  exact Document.after_whole hpieces (openNames_ne_nil o s)

/-- Whole pieces are added, wherever they go. -/
theorem adds (h : Framed o root s) (hadds : Adds s t pieces)
    (hpieces : ∀ p ∈ pieces, p.Sound ∧ p.isWhole = true) : Framed o root t := by
  have hboth {a : Document} {P : Piece → Prop} (ha : ∀ p ∈ a, P p)
      (hpieces : ∀ p ∈ pieces, P p) : ∀ p ∈ a ++ pieces, P p := by
    intro p hp
    rcases Array.mem_append.1 hp with hp | hp
    · exact ha p hp
    · exact hpieces p hp
  have hclip : ∀ b, t.bracket = some b → Attribute.Within b.clip ["clip-path"] := by
    intro b hb
    have hmap := hadds.clip
    rw [hb] at hmap
    obtain ⟨b', hb', heq⟩ := Option.map_eq_some_iff.1 hmap.symm
    exact heq ▸ h.clip b' hb'
  have hnames : t.openNames o = s.openNames o := by rw [openNames, openNames, hadds.wrapped]
  -- while a path is open the pieces are held back, and else they are written
  cases hopen : s.inPath with
  | true =>
      have hwritten := hadds.written
      have hheld := hadds.held
      rw [hopen, if_pos rfl] at hwritten hheld
      refine ⟨hwritten ▸ h.sound, ?_, hheld ▸ hboth h.held hpieces, hclip⟩
      rw [hwritten, hnames, h.nested]
  | false =>
      have hwritten := hadds.written
      have hheld := hadds.held
      rw [hopen, if_neg Bool.false_ne_true] at hwritten hheld
      refine ⟨hwritten ▸ hboth h.sound fun p hp => (hpieces p hp).1, ?_, hheld ▸ h.held, hclip⟩
      rw [hwritten, hnames, h.nested_append hpieces]

/-- An open bracket is closed, and what was held back is written after its path. -/
theorem close (h : Framed o root s) {bracket : Bracket} {paint : List Attribute}
    (hpiece : (bracket.piece paint).Sound) : Framed o root (s.close paint bracket) := by
  -- the path of the bracket is whole too, so it goes with what was held back
  have hpieces : ∀ p ∈ #[bracket.piece paint] ++ s.held, p.Sound ∧ p.isWhole = true := by
    intro p hp
    rcases Array.mem_append.1 hp with hp | hp
    · rw [Array.mem_singleton.1 hp]
      exact ⟨hpiece, rfl⟩
    · exact h.held p hp
  have hwritten : (s.close paint bracket).written =
      s.written ++ (#[bracket.piece paint] ++ s.held) := by
    show s.written.push _ ++ s.held = _
    rw [← Array.append_singleton, Array.append_assoc]
  refine ⟨fun p hp => ?_, ?_, fun p hp => by simp [State.close] at hp, fun b hb => by cases hb⟩
  · rw [hwritten] at hp
    rcases Array.mem_append.1 hp with hp | hp
    · exact h.sound p hp
    · exact (hpieces p hp).1
  · rw [hwritten]
    exact h.nested_append hpieces

/-- A bracket that is open is given up. -/
theorem abandon (h : Framed o root s) : Framed o root s.abandon := by
  cases hbracket : s.bracket with
  | none =>
      rw [abandon_of_closed (by rw [inPath, hbracket]; rfl)]
      exact h
  | some bracket =>
      rw [abandon_of_open hbracket]
      exact h.close (piece_unpainted_sound (h.clip bracket hbracket))

/-- The group of the world transform is closed, and its element is opened anew. -/
theorem wrap (h : Framed o root s) : Framed o root s.wrap := by
  cases hopen : s.inPath with
  | true =>
      rw [wrap_of_open hopen]
      exact h
  | false =>
      rw [wrap_of_closed hopen]
      have hregrouping : ∀ p ∈ s.regrouping, p.Sound := by
        intro p hp
        rcases Array.mem_push.1 hp with hp | rfl
        · split at hp
          · rw [Array.mem_singleton.1 hp]
            exact .ending (by decide)
          · simp at hp
        · exact s.wrapperPiece_sound
      refine ⟨fun p hp => ?_, ?_, h.held, h.clip⟩
      · rcases Array.mem_append.1 hp with hp | hp
        · exact h.sound p hp
        · exact hregrouping p hp
      · rw [Document.tags_append, Nesting.after_append h.nested, regrouping, Document.tags_push,
          Nesting.after_append (after_ended o s [root])]
        -- the old group is closed, so the new one is opened inside of the translation
        have houter : outerNames o ≠ [] := List.cons_ne_nil _ _
        exact Nesting.after_cons (Nesting.enter_start (n := ⟨outerNames o, [root]⟩) houter _ _) []

/-- A change of the world transform closes a group where it opens one. -/
theorem transform (h : Framed o root s) (change : TransformChange) :
    Framed o root (s.transform change) := by
  unfold State.transform
  split
  · exact h
  · split
    · exact (h.of_same rfl rfl rfl rfl : Framed o root (s.update _)).wrap
    · exact h.of_same rfl rfl rfl rfl

/-- Changes that are replayed close a group where they open one. -/
theorem replay (h : Framed o root s) (ts : List TransformChange) :
    Framed o root (s.replay ts) := by
  unfold State.replay
  split
  · exact h
  · exact (h.of_same rfl rfl rfl rfl : Framed o root (s.update _)).wrap

/-- A return to a saved context closes a group where it opens one. -/
theorem restore (h : Framed o root s) (relative : Int) :
    Framed o root (s.restore relative).1 := by
  unfold State.restore
  split
  · rename_i context saved _
    have hback : Framed o root { s with context, saved } := h.of_same rfl rfl rfl rfl
    dsimp only
    split
    · exact hback.wrap
    · exact hback
  · exact h.of_same rfl rfl rfl rfl
  · exact h

/-- A bracket that begins leaves the groups balanced, also where it gives up another one. -/
theorem beginPath (h : Framed o root s) (uses : List PathUse) :
    Framed o root (s.beginPath uses).1 := by
  have hgiven : Framed o root { s.abandon with brackets := s.abandon.brackets + 1 } :=
    h.abandon.of_same rfl rfl rfl rfl
  unfold State.beginPath
  dsimp only
  split
  · exact hgiven
  · rename_i use _
    have hready := hgiven.replay use.before
    refine ⟨hready.sound, hready.nested, hready.held, fun b hb => ?_⟩
    obtain rfl := Option.some.inj hb
    exact Device.Context.clipAttributes_within _

/-- A bracket that ends leaves the groups balanced, with what was held back among them. -/
theorem endPath (h : Framed o root s) (uses : List PathUse) :
    Framed o root (s.endPath uses).1 := by
  unfold State.endPath
  split
  · exact h
  · rename_i bracket hbracket
    split
    · exact h
    · rename_i use _
      exact (h.close (piece_pathPaint_sound (h.clip bracket hbracket) use s)).replay use.after

/-- Every command between the header and the end record keeps the frame. -/
theorem perform (h : Framed setup.options root s) (uses : List PathUse) {c : Command}
    (hheader : c.soleKind? ≠ some .header) (hend : c ≠ .endOfFile)
    (hfont : ∀ family, s.context.font.family = some family → Plain family)
    (hplus : ∀ records, c = .plus records → ∀ q ∈ (Plus.Stage.play setup.options.verbose
      s.page.scale records ⟨s.player, #[], #[]⟩).drawn, q.Sound ∧ q.isWhole = true) :
    Framed setup.options root (s.perform setup uses c).1 := by
  cases honly : onlyAdds c with
  | true =>
      obtain ⟨pieces, hadds, _, hdraws⟩ := perform_adds setup uses s honly
      exact h.adds hadds fun p hp => (hdraws p hp).sound hheader hfont hplus
  | false =>
      cases c with
      | endOfFile => exact absurd rfl hend
      | beginPath => exact h.beginPath uses
      | endPath => exact h.endPath uses
      | abortPath => exact h.abandon.of_same rfl rfl rfl rfl
      | save => exact h.of_same rfl rfl rfl rfl
      | restore relative => exact h.restore relative
      | transform change => exact h.transform change
      | _ => cases honly

/-- The header begins the frame. -/
theorem header (hq : Usable o) (header : Header) (s : State) (hempty : s.written = #[])
    (hheld : s.held = #[]) (hbracket : s.bracket = none) (hwrapped : s.wrapped = false) :
    ∃ root, (rootPiece o header).tags o.qualifier = [root] ∧
      Framed o root (s.beginDocument o header) := by
  -- the header adds the head and the group of the origin, and no group of a world transform
  have hadds := beginDocument_adds o header s
  have hclosed : s.inPath = false := by rw [inPath, hbracket]; rfl
  have hwritten := hadds.written
  have hkept := hadds.held
  rw [hclosed, if_neg Bool.false_ne_true, hempty, Array.empty_append] at hwritten
  rw [hclosed, if_neg Bool.false_ne_true, hheld] at hkept
  have hnone : (s.beginDocument o header).bracket = none := by
    have hclip := hadds.clip
    rw [hbracket] at hclip
    exact Option.map_eq_none_iff.1 hclip
  have hnames : (s.beginDocument o header).openNames o = outerNames o := by
    rw [openNames, hadds.wrapped, hwrapped]
    rfl
  -- the root is left open, and so is the group of the origin
  obtain ⟨root, hroot, hnested⟩ : ∃ root, (rootPiece o header).tags o.qualifier = [root] ∧
      Nesting.empty.after
        (Document.tags o.qualifier ((head o header).push (originPiece o header))) =
        some ⟨outerNames o, [root]⟩ := by
    unfold rootPiece head outerNames
    cases o.delimited with
    | true => exact ⟨_, rfl, rfl⟩
    | false => exact ⟨_, rfl, rfl⟩
  refine ⟨root, hroot, hwritten ▸ head_sound hq header, ?_, ?_, ?_⟩
  · rw [hwritten, hnames, hnested]
  · intro p hp
    rw [hkept] at hp
    simp at hp
  · intro b hb
    rw [hnone] at hb
    cases hb

/-- The end record closes what is open. -/
theorem endDocument (h : Framed o root s) :
    (∀ p ∈ (s.endDocument o).written, p.Sound) ∧
      Nesting.empty.after (Document.tags o.qualifier (s.endDocument o).written) =
        some ⟨[], [root]⟩ ∧
      (s.endDocument o).bracket = none := by
  obtain ⟨player, log, heq⟩ := endDocument_eq o s
  have hgiven := h.abandon
  have htail : ∀ p ∈ tail o, p.Sound := by
    intro p hp
    unfold tail at hp
    split at hp
    · rw [Array.mem_singleton.1 hp]
      exact .ending (by decide)
    · simp at hp
  have hending : ∀ p ∈ s.abandon.ending o, p.Sound := by
    intro p hp
    rcases Array.mem_append.1 hp with hp | hp
    · rcases Array.mem_push.1 hp with hp | rfl
      · split at hp
        · rw [Array.mem_singleton.1 hp]
          exact .ending (by decide)
        · simp at hp
      · exact .ending (by decide)
    · exact htail p hp
  -- after the group of the world transform the translation is closed, and then the root
  have hclosed : Nesting.after ⟨outerNames o, [root]⟩
      (Piece.tags o.qualifier (.ending "g") ++ Document.tags o.qualifier (tail o)) =
      some ⟨[], [root]⟩ := by
    unfold outerNames tail
    show Nesting.after _ (_ :: _) = _
    rw [Nesting.after_cons (Nesting.enter_ending _ _ _)]
    split
    · exact Nesting.after_cons (Nesting.enter_ending _ _ _) []
    · rfl
  rw [heq]
  refine ⟨fun p hp => ?_, ?_, (abandon_keeps s).1⟩
  · rcases Array.mem_append.1 hp with hp | hp
    · exact hgiven.sound p hp
    · exact hending p hp
  · show Nesting.empty.after
      (Document.tags o.qualifier (s.abandon.written ++ s.abandon.ending o)) = _
    rw [Document.tags_append, Nesting.after_append hgiven.nested, ending, Document.tags_append,
      Document.tags_push, List.append_assoc, Nesting.after_append (after_ended o _ [root])]
    exact hclosed

end Framed

end State

/-! ### Whole streams -/

/-- The tag with which the outermost element of the document of a survey begins. -/
def IsRoot (o : Options) (survey : Survey) (root : Tag) : Prop :=
  ∃ first rest header, survey.entries = first :: rest ∧
    first.command o.plus = .ok (.header header) ∧ (rootPiece o header).tags o.qualifier = [root]

/-- The outermost element is the root element, or the group that moves the bounds to the origin.
-/
theorem IsRoot.name {o : Options} {survey : Survey} {root : Tag} (h : IsRoot o survey root) :
    root.name = o.qualifier ++ if o.delimited then "svg" else "g" := by
  obtain ⟨_, _, header, _, _, htags⟩ := h
  unfold rootPiece at htags
  cases hdelimited : o.delimited with
  | true =>
      rw [hdelimited, if_pos rfl] at htags
      obtain rfl := (List.cons.inj htags).1
      rfl
  | false =>
      rw [hdelimited, if_neg Bool.false_ne_true] at htags
      obtain rfl := (List.cons.inj htags).1
      rfl

namespace Reaches

variable {setup : Setup} {stream : Bytes} {survey : Survey} {earlier later : List Entry}
  {e : Entry} {t : State}

/-- What a comment draws is whole and can be written, if the names of all families are plain. -/
theorem drawn_sound (h : Reaches setup stream survey earlier (e :: later) t)
    (hfamilies : ∀ name ∈ families setup.options.plus survey.entries, Plain name)
    {records : Bytes} (hc : e.command setup.options.plus = .ok (.plus records)) (scale : Float) :
    ∀ q ∈ (Plus.Stage.play setup.options.verbose scale records ⟨t.player, #[], #[]⟩).drawn,
      q.Sound ∧ q.isWhole = true := by
  have hplayed := (h.follows (List.cons_ne_nil e later)).playFrom setup.options.verbose scale 0
    records
  exact hplayed.sound fun name hname => hfamilies name (h.comment_families hc hname)

/-- Between the header and the end record the document is framed. -/
theorem framed (h : Reaches setup stream survey earlier later t) (hoptions : Usable setup.options)
    (hfamilies : ∀ name ∈ families setup.options.plus survey.entries, Plain name)
    (hearlier : earlier ≠ []) (hlater : later ≠ []) :
    ∃ root, IsRoot setup.options survey root ∧ State.Framed setup.options root t := by
  suffices hboth : (earlier = [] → t = State.start survey) ∧ (earlier ≠ [] → later ≠ [] →
      ∃ root, IsRoot setup.options survey root ∧ State.Framed setup.options root t) from
    hboth.2 hearlier hlater
  -- the frame begins with the header, so before it the state is the one at the start
  refine h.induction (motive := fun earlier later t => (earlier = [] → t = State.start survey) ∧
    (earlier ≠ [] → later ≠ [] →
      ∃ root, IsRoot setup.options survey root ∧ State.Framed setup.options root t))
    ⟨fun _ => rfl, fun hne => absurd rfl hne⟩ ?_
  intro earlier e later s t c hs ih hc hperform
  refine ⟨fun hnil => absurd hnil (by simp), fun _ hlater => ?_⟩
  have hnext : ((s.announce setup e).perform setup survey.paths c).1 = t := by rw [hperform]
  obtain ⟨log, hlog⟩ := State.announce_eq setup e s
  by_cases hearlier : earlier = []
  · -- the first record is the header
    subst hearlier
    have hkind := (hs.header_iff hc).2 rfl
    obtain ⟨header, rfl⟩ : ∃ header, c = .header header := by
      cases c <;> first | exact ⟨_, rfl⟩ | cases hkind
    obtain rfl := ih.1 rfl
    obtain ⟨root, hroot, hframed⟩ := State.Framed.header hoptions header
      ((State.start survey).announce setup e) (by rw [hlog]; rfl) (by rw [hlog]; rfl)
      (by rw [hlog]; rfl) (by rw [hlog]; rfl)
    exact ⟨root, ⟨e, later, header, hs.split, hc, hroot⟩, hnext ▸ hframed⟩
  · -- neither the header nor the end record
    obtain ⟨root, hroot, hframed⟩ := ih.2 hearlier (List.cons_ne_nil e later)
    have hheader : c.soleKind? ≠ some .header := fun heq => hearlier ((hs.header_iff hc).1 heq)
    have hend : c ≠ .endOfFile := hs.ne_endOfFile hc hlater
    refine ⟨root, hroot, hnext ▸ (hframed.announce e).perform survey.paths hheader hend ?_ ?_⟩
    · intro family hfamily
      rw [hlog] at hfamily
      exact hfamilies family (hs.stocked.font family hfamily)
    · rintro records rfl
      rw [hlog]
      exact hs.drawn_sound hfamilies hc _

/-- If the end record is reached, the document is well formed: its tags nest inside of one
outermost element, the root element or the group that moves the bounds to the origin. What clip
regions combine to, how pictures are encoded, which world transforms are set, and how brackets are
opened and closed does not matter. The names of the font families that the stream stores must be
plain, because they are written as they are. -/
theorem wellFormed (h : Reaches setup stream survey earlier (e :: later) t)
    (hlast : e.kind? = some .endOfFile) (hoptions : Usable setup.options)
    (hfamilies : ∀ name ∈ families setup.options.plus survey.entries, Plain name) :
    ∃ conversion log root, convert setup stream = .ok (conversion, log) ∧
      IsRoot setup.options survey root ∧ WellFormed conversion.svg root := by
  have hearlier : earlier ≠ [] := by
    intro hnil
    have hfirst := (Survey.header_first h.accepted h.split).2 hnil
    rw [hlast] at hfirst
    cases hfirst
  obtain rfl := (Survey.end_last h.accepted h.split).2.1 hlast
  obtain ⟨root, hroot, hframed⟩ := h.framed hoptions hfamilies hearlier (List.cons_ne_nil e [])
  obtain ⟨hsound, hnested, hclosed⟩ := State.Framed.endDocument (hframed.announce e)
  -- the end record is the last one, and it is always played
  have hplay : play setup survey = (t.announce setup e).endDocument setup.options := by
    have hnext : t.next setup survey.paths e =
        ((t.announce setup e).endDocument setup.options, none) := by
      rw [State.next, State.step_eq, (Entry.command_of_kind setup.options.plus).2.2.2 hlast]
      rfl
    have hsteps : (State.start survey).steps setup survey.paths survey.entries =
        ((t.announce setup e).endDocument setup.options, none) := by
      rw [h.split, State.steps_append h.played]
      exact State.steps_singleton.2 hnext
    exact play_of_done hsteps
  have hconvert := convert_of_accepted setup h.accepted
  have hsvg : (Conversion.ofSurvey setup survey).1.svg =
      Document.text setup.options.qualifier
        ((t.announce setup e).endDocument setup.options).written := by
    show (play setup survey).text setup.options.qualifier = _
    rw [hplay, State.text, hclosed]
    exact String.append_empty
  refine ⟨_, _, root, hconvert, hroot, Document.tags setup.options.qualifier
    ((t.announce setup e).endDocument setup.options).written, ?_, Document.distinct hsound, ?_⟩
  · have hscans := Document.scans hoptions.qualifies hsound
    show Markup.tags? (Conversion.ofSurvey setup survey).1.svg = _
    rw [hsvg, Markup.tags?, hscans]
  · rw [Markup.outermost, hnested]

end Reaches

/-- A context is saved, the world transform is set, a font is made and selected, and a path is
never closed, in which a text of one character is drawn. -/
def lettersInFontStream : Bytes :=
  Record.streamOf [(.header, List.replicate 48 0 ++ [2, 0] ++ List.replicate 30 0),
    (.saveContext, []), (.setWorldTransform, List.replicate 24 0),
    (.createFont, [1, 0, 0, 0] ++ List.replicate 28 0 ++ [65, 0] ++ List.replicate 62 0),
    (.selectObject, [1, 0, 0, 0]), (.beginPath, []), (.lineTo, List.replicate 8 0),
    (.smallTextOut, List.replicate 8 0 ++ [1, 0, 0, 0, 0, 3, 0, 0] ++ List.replicate 12 0 ++
      [65, 0, 0, 0]),
    (.endOfFile, List.replicate 12 0)]

/-- The end record closes the path, the group and the elements around it, and the name of the font
is plain. -/
theorem wellFormed_letters_in_font :
    families true (Survey.ofStream lettersInFontStream).entries = ["A"] ∧
      ∃ conversion log root, convert .plain lettersInFontStream = .ok (conversion, log) ∧
        root.name = "svg" ∧ WellFormed conversion.svg root := by
  have h : Reaches .plain lettersInFontStream _ _
      ((Survey.ofStream lettersInFontStream).entries.drop 8) _ :=
    .of_steps 8 (by decide +kernel) (by decide +kernel)
  have hdrop : (Survey.ofStream lettersInFontStream).entries.drop 8 =
      [⟨308, 14, Kind.endOfFile.record (List.replicate 12 0)⟩] := by decide +kernel
  have hnames : families true (Survey.ofStream lettersInFontStream).entries = ["A"] := by
    decide +kernel
  rw [hdrop] at h
  obtain ⟨conversion, log, root, hconvert, hroot, hwell⟩ := h.wellFormed (by decide)
    (by intro name hname; cases hname)
    (by rw [show Setup.plain.options.plus = true from rfl, hnames]; decide)
  exact ⟨hnames, conversion, log, root, hconvert, hroot.name, hwell⟩

end Metafile.Playback
