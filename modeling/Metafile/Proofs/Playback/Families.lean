import Metafile.Proofs.Playback.History
import Metafile.Proofs.Playback.Tools
import Metafile.Proofs.Plus.Assembly

/-!
# `Metafile.Proofs.Playback.Families`: where the names of font families come from

The name of a font family is the only text of a file that becomes the value of an attribute.
`families` lists the names that the records of a file store: those of font records, and those of
the EMF+ objects that its comments hold. At every boundary before the end record, each font that
may be used next has one of these names: `Reaches.stocked` for the font of the context, the saved
ones and those in slots, and `Reaches.follows` for the objects of the EMF+ player.
-/

set_option autoImplicit false

namespace Metafile.Playback

open Metafile.Record (Command Entry PathUse Survey TransformChange)

/-! ### Names in a file -/

/-- The name of the family that a font record stores. -/
def storedFamily? (plus : Bool) (e : Entry) : Option String :=
  match e.command plus with
  | .ok (.create _ (.font f)) => f.family
  | _ => none

/-- The EMF+ objects after a record. -/
def assemble (plus : Bool) (a : Plus.Assembly) (e : Entry) : Plus.Assembly :=
  match e.command plus with
  | .ok (.plus records) => a.comment records
  | _ => a

/-- The EMF+ objects after some records. -/
def assembly (plus : Bool) (entries : List Entry) : Plus.Assembly :=
  entries.foldl (assemble plus) .empty

/-- The names of the font families that records store. -/
def families (plus : Bool) (entries : List Entry) : List String :=
  entries.filterMap (storedFamily? plus) ++ (assembly plus entries).families

/-- Later records only add EMF+ objects. -/
theorem assembly_extends (plus : Bool) (earlier later : List Entry) :
    (assembly plus earlier).Extends (assembly plus (earlier ++ later)) := by
  unfold assembly
  rw [List.foldl_append]
  generalize earlier.foldl (assemble plus) .empty = a
  induction later generalizing a with
  | nil => exact .refl a
  | cons e rest ih =>
      have hfirst : a.Extends (assemble plus a e) := by
        unfold assemble
        split
        · exact Plus.Assembly.comment_extends ..
        · exact .refl a
      exact hfirst.trans (ih _)

namespace State

variable {s t : State}

/-! ### What most operations leave alone -/

/-- The fonts that may be used, and the EMF+ player: the font of the context, the saved contexts,
the slots and the player. -/
def tools (s : State) : Device.Font × Device.Saved × Device.ObjectTable × Plus.Player :=
  (s.context.font, s.saved, s.objects, s.player)

/-- The player is the last of the tools. -/
theorem player_of_tools (h : t.tools = s.tools) : t.player = s.player :=
  congrArg (·.2.2.2) h

/-- Whether a command may change the fonts that may be used, or the EMF+ player. -/
def changesTools : Command → Bool
  | .header _ | .endOfFile | .save | .restore _ | .create .. | .createPattern .. | .select _
  | .delete _ | .plus _ => true
  | _ => false

/-- All other commands leave the tools alone. -/
theorem perform_tools (setup : Setup) (uses : List PathUse) {c : Command} (s : State)
    (hkeeps : changesTools c = false) : (s.perform setup uses c).1.tools = s.tools := by
  cases hcore : changesCore c with
  | false =>
      have hsame := perform_core setup uses s hcore
      exact congrArg (fun k : Core => (k.font, k.saved, k.objects, k.player)) hsame
  | true =>
      cases c with
      | clip change =>
          obtain ⟨clip, clips, written, held, log, heq⟩ := changeClip_eq setup.combine change s
          exact (congrArg tools heq).trans rfl
      | header _ | endOfFile | save | restore _ | create _ _ | createPattern _ _ _ | select _
      | delete _ | plus _ => cases hkeeps
      | _ => cases hcore

/-! ### Fonts of the context, the saved contexts and the slots -/

/-- A font whose family has one of some names, or none. -/
def Known (names : List String) (f : Device.Font) : Prop :=
  ∀ family, f.family = some family → family ∈ names

/-- Every font that may be used next is known. -/
structure Stocked (names : List String) (s : State) : Prop where
  font : Known names s.context.font
  saved : ∀ c ∈ s.saved, Known names c.font
  slots : ∀ f, some (.font f) ∈ s.objects.slots → Known names f

variable {names : List String}

/-- What leaves the tools alone keeps the fonts known. -/
theorem Stocked.of_tools (h : Stocked names s) (htools : t.tools = s.tools) :
    Stocked names t := by
  obtain ⟨hfont, hrest⟩ := Prod.mk.inj htools
  obtain ⟨hsaved, hrest⟩ := Prod.mk.inj hrest
  obtain ⟨hobjects, _⟩ := Prod.mk.inj hrest
  exact ⟨hfont ▸ h.font, hsaved ▸ h.saved, hobjects ▸ h.slots⟩

/-- The fonts that may be used next are those of contexts and those in slots. -/
theorem stocked_iff : Stocked names s ↔ Stores (fun c => Known names c.font)
    (fun tool => ∀ f, tool = .font f → Known names f) s :=
  ⟨fun h => ⟨h.font, h.saved, fun _ htool f hf => h.slots f (hf ▸ htool)⟩,
    fun h => ⟨h.context, h.saved, fun f hf => h.slots _ hf f rfl⟩⟩

/-- Only a font that is selected changes the font of the context. -/
private theorem selectable_known (names : List String) :
    Selectable (fun c => Known names c.font)
      (fun tool => ∀ f, tool = .font f → Known names f) where
  same := by
    intro c d _ hfont _ hc
    exact hfont ▸ hc
  select := by
    intro c tool hc htool
    cases tool with
    | pen p => exact hc
    | brush b => exact hc
    | font f => exact htool f rfl

/-- A command keeps the fonts known, if it stores no unknown font. -/
theorem Stocked.perform (setup : Setup) (uses : List PathUse) {c : Command}
    (h : Stocked names s) (hcreate : ∀ index f, c = .create index (.font f) → Known names f) :
    Stocked names (s.perform setup uses c).1 := by
  have hstores := stocked_iff.1 h
  by_cases hclip : ∃ change, c = .clip change
  · obtain ⟨change, rfl⟩ := hclip
    exact h.of_tools (perform_tools setup uses s rfl)
  by_cases hpattern : ∃ index picture fromContext, c = .createPattern index picture fromContext
  · obtain ⟨index, picture, fromContext, rfl⟩ := hpattern
    -- a pattern comes into a slot as a brush
    obtain ⟨images, written, held, log, heq⟩ := patternOf_eq setup.encode picture fromContext s
    have hdefined : Stocked names (s.patternOf setup.encode picture fromContext).1 :=
      h.of_tools ((congrArg tools heq).trans rfl)
    exact stocked_iff.2 (Stores.createPattern setup.encode index picture fromContext
      (stocked_iff.1 hdefined) fun f hf => by cases hf)
  · exact stocked_iff.2 (hstores.perform (selectable_known names) setup uses
      (fun change hc => hclip ⟨change, hc⟩)
      (fun index picture fromContext hc => hpattern ⟨index, picture, fromContext, hc⟩)
      fun index tool hc f hf => hcreate index f (hf ▸ hc))

/-! ### The EMF+ player -/

/-- A command that is no comment and does not end the document leaves the EMF+ player alone. -/
theorem perform_player (setup : Setup) (uses : List PathUse) {c : Command} (s : State)
    (hplus : ∀ records, c ≠ .plus records) (hend : c ≠ .endOfFile) :
    (s.perform setup uses c).1.player = s.player := by
  -- what leaves the tools alone leaves the player alone, which is one of them
  cases hkeeps : changesTools c with
  | false => exact player_of_tools (perform_tools setup uses s hkeeps)
  | true =>
      cases c with
      | header header =>
          obtain ⟨written, held, log, heq⟩ := beginDocument_eq setup.options header s
          exact (congrArg player heq).trans rfl
      | endOfFile => exact absurd rfl hend
      | save => rfl
      | restore relative =>
          obtain ⟨context, saved, wrapped, failed, written, held, log, heq⟩ :=
            restore_eq relative s
          exact (congrArg (player ·.1) heq).trans rfl
      | create index tool =>
          obtain ⟨objects, heq⟩ := put_eq index tool s
          exact (congrArg player heq).trans rfl
      | createPattern index picture twoColors =>
          obtain ⟨objects, images, written, held, log, heq⟩ :=
            createPattern_eq setup.encode index picture twoColors s
          exact (congrArg player heq).trans rfl
      | select handle =>
          obtain ⟨context, log, heq⟩ := select_eq handle s
          exact (congrArg player heq).trans rfl
      | delete handle =>
          obtain ⟨objects, heq⟩ := delete_eq handle s
          exact (congrArg player heq).trans rfl
      | plus records => exact absurd rfl (hplus records)
      | _ => cases hkeeps

/-- Playing a comment follows the assembly of its records. -/
theorem runPlus_follows {a : Plus.Assembly} (h : Plus.Stage.Follows a ⟨s.player, #[], #[]⟩)
    (verbose : Bool) (scale : Float) (records : Bytes) :
    Plus.Stage.Follows (a.comment records)
      ⟨(s.runPlus (·.play verbose scale records)).player, #[], #[]⟩ := by
  have hplayed := (h.playFrom verbose scale 0 records).restart #[]
  obtain ⟨written, held, log, heq⟩ := runPlus_eq (·.play verbose scale records) s
  rw [heq]
  exact hplayed

end State

namespace Reaches

variable {setup : Setup} {stream : Bytes} {survey : Survey} {earlier later : List Entry}
  {t : State}

/-- Every font that may be used next was stored by a record of the stream. -/
theorem stocked (h : Reaches setup stream survey earlier later t) :
    State.Stocked (families setup.options.plus survey.entries) t := by
  refine h.induction
    (motive := fun _ _ t => State.Stocked (families setup.options.plus survey.entries) t) ?_ ?_
  -- at the beginning there is no font but the one without a family
  · refine ⟨fun _ hfamily => (by cases hfamily), fun c hc => absurd hc List.not_mem_nil, ?_⟩
    intro f hf
    exact absurd hf (by simp [State.start, State.initial, Device.ObjectTable.empty])
  · intro earlier e later s t c hs ih hc hperform
    have hlisted : State.Stocked (families setup.options.plus survey.entries)
        (s.announce setup e) := by
      obtain ⟨log, heq⟩ := State.announce_eq setup e s
      rw [heq]
      exact ih.of_tools rfl
    have hnext := hlisted.perform setup survey.paths (c := c) ?_
    · rwa [hperform] at hnext
    · -- a font that is created is stored by the record
      rintro index f rfl family hfamily
      refine List.mem_append_left _ (List.mem_filterMap.2 ⟨e, ?_, ?_⟩)
      · rw [hs.split]
        exact List.mem_append_right _ List.mem_cons_self
      · rw [storedFamily?, hc]
        exact hfamily

/-- Before the end record the EMF+ player follows the assembly of the records so far. -/
theorem follows (h : Reaches setup stream survey earlier later t) (hlater : later ≠ []) :
    Plus.Stage.Follows (assembly setup.options.plus earlier) ⟨t.player, #[], #[]⟩ := by
  refine h.induction (motive := fun earlier later t => later ≠ [] →
    Plus.Stage.Follows (assembly setup.options.plus earlier) ⟨t.player, #[], #[]⟩)
    (fun _ => .initial _) ?_ hlater
  intro earlier e later s t c hs ih hc hperform hlater
  have hbefore := ih (List.cons_ne_nil e later)
  have hend : c ≠ .endOfFile := hs.ne_endOfFile hc hlater
  have hassembly : assembly setup.options.plus (earlier ++ [e]) =
      assemble setup.options.plus (assembly setup.options.plus earlier) e := by
    rw [assembly, List.foldl_append]
    rfl
  obtain ⟨log, hlog⟩ := State.announce_eq setup e s
  rw [hlog] at hperform
  have hnext : (State.perform setup survey.paths c { s with log }).1 = t :=
    congrArg Prod.fst hperform
  rw [hassembly, assemble, hc]
  -- a comment is assembled while it is played, and every other record leaves both as they are
  by_cases hplus : ∃ records, c = .plus records
  · obtain ⟨records, rfl⟩ := hplus
    rw [← hnext]
    exact State.runPlus_follows (s := { s with log }) hbefore _ _ records
  · have hkept := State.perform_player setup survey.paths { s with log }
      (fun records heq => hplus ⟨records, heq⟩) hend
    rw [hnext] at hkept
    rw [hkept]
    split
    · rename_i records heq
      exact absurd ⟨records, Except.ok.inj heq⟩ hplus
    · exact hbefore

/-- What the EMF+ records of a comment draw is drawn by commands of the player. -/
theorem plus_drawn {e : Entry} {records : Bytes} {q : Markup.Piece}
    (h : Reaches setup stream survey earlier (e :: later) t)
    (hq : q ∈ (Plus.Stage.play setup.options.verbose t.page.scale records
      ⟨t.player, #[], #[]⟩).drawn) :
    ∃ (p : Plus.Player) (scale : Float) (c : Plus.Command), q ∈ p.drawing scale c := by
  have hplayed := (h.follows (List.cons_ne_nil e later)).playFrom setup.options.verbose
    t.page.scale 0 records
  obtain ⟨p, scale, c, _, hdrawing⟩ := hplayed.drawn q hq
  exact ⟨p, scale, c, hdrawing⟩

/-- The families of the objects after a comment are among those of the whole stream. -/
theorem comment_families {e : Entry} {records : Bytes}
    (h : Reaches setup stream survey earlier (e :: later) t)
    (hc : e.command setup.options.plus = .ok (.plus records)) {name : String}
    (hname : name ∈ ((assembly setup.options.plus earlier).comment records).families) :
    name ∈ families setup.options.plus survey.entries := by
  have hnext : (assembly setup.options.plus earlier).comment records =
      assembly setup.options.plus (earlier ++ [e]) := by
    rw [assembly, assembly, List.foldl_append, List.foldl_cons, List.foldl_nil, assemble, hc]
  have hextends := assembly_extends setup.options.plus (earlier ++ [e]) later
  rw [hnext] at hname
  rw [families, h.split, List.append_cons]
  exact List.mem_append_right _ (hextends.families hname)

end Reaches

end Metafile.Playback
