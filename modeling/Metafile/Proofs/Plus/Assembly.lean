import Metafile.Plus.Player
import Metafile.Proofs.Markup.Tags

/-!
# `Metafile.Proofs.Plus.Assembly`: the fonts of EMF+ and what is drawn with them

The content of a font may be spread over many records, and over comments. `Assembly` puts the
contents of objects together from the records alone, without a player, so the names of font
families that a file stores can be spoken about before it is played.

`Stage.Follows` relates a stage to an assembly of the same records: each font of the player was
assembled, and what was drawn was drawn with such fonts. So it can be written if the names of all
assembled families are plain (`Stage.Follows.sound`). `Stage.Follows.playFrom` states that playing
a comment preserves the relation.
-/

set_option autoImplicit false

namespace Metafile.Plus

open Metafile.Markup (Attribute Element Piece Plain plain_data plain_fixed plain_hex)

/-! ### What is drawn -/

namespace Player

/-- An opacity that is written is a number. -/
private theorem plain_opacityText {opacity : Float} {text : String}
    (h : opacityText opacity = some text) : Plain text := by
  unfold opacityText at h
  split at h
  · rw [← Option.some.inj h]
    exact plain_fixed opacity
  · cases h

/-- An outline with a fill can be written, whatever the brush is. -/
theorem fillElement_sound (p : Player) (scale : Float) (brush : Brush) (o : Outline Float) :
    (p.fillElement scale brush o).Sound := by
  unfold fillElement
  have hopacity (v : String) (h : opacityText brush.opacity = some v) : Plain v :=
    plain_opacityText h
  exact .set (.setSome (.set (.set (.named (by decide)) (by decide) (plain_data _)) (by decide)
    (plain_hex _)) (by decide) hopacity) (by decide) (by decide)

/-- An outline with a stroke can be written, whatever the pen is. -/
theorem strokeElement_sound (p : Player) (scale : Float) (pen : Pen) (o : Outline Float) :
    (p.strokeElement scale pen o).Sound := by
  unfold strokeElement
  have hopacity (v : String) (h : opacityText pen.brush.opacity = some v) : Plain v :=
    plain_opacityText h
  exact .setSome (.set (.set (.set (.set (.named (by decide)) (by decide) (plain_data _))
    (by decide) (by decide)) (by decide) (plain_hex _)) (by decide) (plain_fixed _)) (by decide)
    hopacity

/-- The piece of a text can be written, if the name of its family is plain. -/
theorem labelPiece_sound (p : Player) (scale : Float) {font : Font} (brush : Brush)
    (corner : Point Float) (text : String) (h : Plain font.family) :
    (p.labelPiece scale font brush corner text).Sound := by
  unfold labelPiece
  -- the parts of the attributes in their order, and then that no key stands in two parts
  refine .label (Attribute.Within.sound (.append (.append (.append (.append (.append (.append
    (.append (.cons (plain_fixed _) (.single (plain_fixed _)) ?_) (.onlyIf fun _ => h) ?_)
    (.cons (plain_fixed _) (.single (plain_hex _)) ?_) ?_)
    (.onlyIf fun _ => plain_fixed _) ?_) (.onlyIf fun _ => by decide) ?_)
    (.onlyIf fun _ => by decide) ?_) (Markup.Lettering.decoration_within _ _) ?_)
    (.single (by decide)) ?_) ?_)
  all_goals decide

/-- A font that is found under a number is one of the objects of the player. -/
private theorem font?_mem {p : Player} {id : Nat} {f : Font} (h : p.font? id = some f) :
    some (.font f) ∈ p.objects := by
  unfold font? at h
  split at h
  · rename_i found hfound
    obtain rfl := Option.some.inj h
    exact Array.mem_of_getElem? (Option.join_eq_some_iff.1 hfound)
  · cases h

/-- A text has the attributes that it would have without a family, and the name of the family. -/
theorem labelPiece_confined (p : Player) (scale : Float) {font : Font} (brush : Brush)
    (corner : Point Float) (text : String) {names : List String} (h : font.family ∈ names) :
    (p.labelPiece scale font brush corner text).Confined names := by
  have hnameless : (p.labelPiece scale { font with family := "" } brush corner text).Sound :=
    p.labelPiece_sound scale brush corner text (by show Plain ""; decide)
  refine hnameless.confined_label fun a ha => ?_
  have hfamily : a ∈ Attribute.onlyIf (!font.family.isEmpty) "font-family" font.family →
      a.1 = "font-family" ∧ a.2 ∈ names := by
    intro hkey
    unfold Attribute.onlyIf at hkey
    split at hkey
    · rw [List.mem_singleton.1 hkey]
      exact ⟨rfl, h⟩
    · cases hkey
  -- the family stands between parts that do not depend on it
  simp only [List.append_assoc] at ha ⊢
  rcases List.mem_append.1 ha with ha | ha
  · exact Or.inl (List.mem_append_left _ ha)
  · rcases List.mem_append.1 ha with ha | ha
    · exact Or.inr (hfamily ha)
    · exact Or.inl (List.mem_append_right _ (List.mem_append_right _ ha))

/-- What a command draws can be written and is whole, or it is a text in a font that is there. -/
theorem drawing_cases {p : Player} {scale : Float} {c : Command} {piece : Piece}
    (h : piece ∈ p.drawing scale c) :
    piece.Sound ∧ piece.isWhole = true ∨ ∃ font brush corner text,
      some (.font font) ∈ p.objects ∧ piece = p.labelPiece scale font brush corner text := by
  unfold drawing at h
  split at h
  · cases h
  · split at h
    · split at h
      · obtain ⟨o, _, rfl⟩ := List.mem_map.1 h
        exact Or.inl ⟨.element (p.fillElement_sound scale _ o), rfl⟩
      · cases h
    · split at h
      · obtain ⟨o, _, rfl⟩ := List.mem_map.1 h
        exact Or.inl ⟨.element (p.strokeElement_sound scale _ o), rfl⟩
      · cases h
    · split at h
      · rename_i font brush hfont _
        split at h
        · cases h
        · exact Or.inr ⟨font, brush, _, _, font?_mem hfont, List.mem_singleton.1 h⟩
      · cases h
    · cases h

/-- What a command draws is whole and can be written, if the names of all families are plain. -/
theorem drawing_sound {p : Player} {scale : Float} {c : Command}
    (h : ∀ f, some (.font f) ∈ p.objects → Plain f.family) :
    ∀ piece ∈ p.drawing scale c, piece.Sound ∧ piece.isWhole = true := by
  intro piece hpiece
  rcases drawing_cases hpiece with hsound | ⟨font, brush, corner, text, hfont, rfl⟩
  · exact hsound
  · exact ⟨p.labelPiece_sound scale brush corner text (h font hfont), rfl⟩

/-- What a command draws is confined to the names of the families that are there. -/
theorem drawing_confined {p : Player} {scale : Float} {c : Command} {names : List String}
    (h : ∀ f, some (.font f) ∈ p.objects → f.family ∈ names) :
    ∀ piece ∈ p.drawing scale c, piece.Confined names := by
  intro piece hpiece
  rcases drawing_cases hpiece with ⟨hsound, _⟩ | ⟨font, brush, corner, text, hfont, rfl⟩
  · exact hsound.confined names
  · exact p.labelPiece_confined scale brush corner text (h font hfont)

end Player

/-! ### Contents -/

/-- The object that is arriving, and the contents that arrived, each with its type. -/
structure Assembly where
  pending : Gather
  stored : List (Nat × Bytes)
deriving DecidableEq, Repr

namespace Assembly

/-- Before the first record. -/
def empty : Assembly := ⟨none, []⟩

/-- Takes a content as arrived. -/
def store (type : Nat) (content : Bytes) (a : Assembly) : Assembly :=
  { a with stored := a.stored ++ [(type, content)] }

/-- Takes the content that is arriving as arrived. -/
def flush (a : Assembly) : Assembly :=
  match a.pending with
  | none => a
  | some p => { a with pending := none }.store p.type p.content

/-- Takes the content that is arriving as arrived, if all of it is there. -/
def settle (a : Assembly) : Assembly :=
  if a.pending.isComplete then a.flush else a

/-- Takes a piece of an object. A piece that does not belong to the arriving object ends it. -/
def receive (type id : Nat) (fragment : Fragment) (a : Assembly) : Assembly :=
  match fragment with
  | .last content =>
    match a.pending.append? type id content with
    | some p => { a with pending := some p }.flush
    | none => a.flush.store type content
  | .part total content =>
    match a.pending.append? type id content with
    | some p => { a with pending := some p }.settle
    | none => { a.flush with pending := some ⟨type, id, total, content⟩ }.settle

/-- Takes what a record asks for. -/
def perform (c : Command) (a : Assembly) : Assembly :=
  match c with
  | .object type id fragment => a.receive type id fragment
  | _ => a

/-- Takes a record. Every record of another kind ends the arriving object. -/
def record (kind : Kind) (flags : Nat) (payload : Bytes) (a : Assembly) : Assembly :=
  let a := if kind ≠ .object then a.flush else a
  match Command.ofRecord kind flags payload with
  | .ok c => a.perform c
  | .error _ => a

/-- The records of a comment, with their kinds, flags and payloads. What does not begin like a
record ends the comment. -/
def records (data : Bytes) : List (Kind × Nat × Bytes) :=
  match Stage.recordHeader.first data with
  | .error _ => []
  | .ok (code, flags, size, dataSize) =>
    if _h : size < Stage.headerBytes ∨ (data.take size).length < size then []
    else
      match Kind.ofCode? code with
      | none => []
      | some kind =>
        (kind, flags, ((data.take size).drop Stage.headerBytes).take dataSize) ::
          records (data.drop size)
termination_by data.length
decreasing_by
  simp only [List.length_take] at _h
  simp only [List.length_drop]
  unfold Stage.headerBytes at _h
  omega

/-- Takes the records of a comment. -/
def comment (data : Bytes) (a : Assembly) : Assembly :=
  (records data).foldl (fun a r => a.record r.1 r.2.1 r.2.2) a

/-- The names of the font families among the contents that arrived. -/
def families (a : Assembly) : List String :=
  a.stored.filterMap fun content =>
    match Object.ofBytes content.1 content.2 with
    | .ok (.font f) => some f.family
    | _ => none

/-- An assembly goes on from another one. -/
def Extends (a b : Assembly) : Prop := ∃ more, b.stored = a.stored ++ more

variable {a b c : Assembly}

/-- An assembly goes on from itself. -/
theorem Extends.refl (a : Assembly) : Extends a a := ⟨[], (List.append_nil _).symm⟩

/-- What goes on from what goes on goes on. -/
theorem Extends.trans (h : Extends a b) (k : Extends b c) : Extends a c := by
  obtain ⟨more, hmore⟩ := h
  obtain ⟨last, hlast⟩ := k
  exact ⟨more ++ last, by rw [hlast, hmore, List.append_assoc]⟩

/-- Going on keeps the families. -/
theorem Extends.families (h : Extends a b) {name : String} (hname : name ∈ a.families) :
    name ∈ b.families := by
  obtain ⟨more, hmore⟩ := h
  unfold Assembly.families
  rw [hmore, List.filterMap_append]
  exact List.mem_append_left _ hname

/-- A content that is stored is one more. -/
theorem store_extends (type : Nat) (content : Bytes) (a : Assembly) :
    Extends a (a.store type content) :=
  ⟨[(type, content)], rfl⟩

/-- At most the content that is arriving is added. -/
theorem flush_extends (a : Assembly) : Extends a a.flush := by
  unfold flush
  split
  · exact .refl a
  · exact store_extends _ _ { a with pending := none }

/-- What is complete is stored, and what is not stays pending. -/
theorem settle_extends (a : Assembly) : Extends a a.settle := by
  unfold settle
  split
  · exact flush_extends a
  · exact .refl a

/-- A fragment may complete two contents: the one that it is not a part of is given up, and that
counts as stored. -/
theorem receive_extends (type id : Nat) (fragment : Fragment) (a : Assembly) :
    Extends a (a.receive type id fragment) := by
  unfold receive
  split
  · split
    · rename_i p _
      exact flush_extends { a with pending := some p }
    · exact (flush_extends a).trans (store_extends ..)
  · rename_i total content
    split
    · rename_i p _
      exact settle_extends { a with pending := some p }
    · exact (flush_extends a).trans
        (settle_extends { a.flush with pending := some ⟨type, id, total, content⟩ })

/-- Only the commands that bring objects add contents. -/
theorem perform_extends (c : Command) (a : Assembly) : Extends a (a.perform c) := by
  unfold perform
  split
  · exact receive_extends ..
  · exact .refl a

/-- A record of another kind gives up what is pending before it is read. -/
theorem record_extends (kind : Kind) (flags : Nat) (payload : Bytes) (a : Assembly) :
    Extends a (a.record kind flags payload) := by
  unfold record
  have hflushed : Extends a (if kind ≠ .object then a.flush else a) := by
    split
    · exact flush_extends a
    · exact .refl a
  dsimp only
  split
  · exact hflushed.trans (perform_extends ..)
  · exact hflushed

/-- The records of a comment add to what was stored before it, one after the other. -/
theorem comment_extends (data : Bytes) (a : Assembly) : Extends a (a.comment data) := by
  unfold comment
  generalize records data = rs
  induction rs generalizing a with
  | nil => exact .refl a
  | cons r rest ih => exact (record_extends r.1 r.2.1 r.2.2 a).trans (ih _)

end Assembly

/-! ### Playing along -/

namespace Stage

/-- Playing a comment goes through its records, one by one, and leaves messages in between. What a
message keeps, and what one record keeps next to a step of a fold, the whole comment keeps next to
the fold over its records. -/
theorem playFrom_foldl {β : Type} {R : β → Stage → Prop} {step : β → Kind × Nat × Bytes → β}
    {scale : Float} (note : ∀ b s level text, R b s → R b (s.note level text))
    (record : ∀ b s r, R b s → R (step b r) (s.playRecord scale r.1 r.2.1 r.2.2))
    {b : β} {s : Stage} (h : R b s) (verbose : Bool) (offset : Nat) (data : Bytes) :
    R ((Assembly.records data).foldl step b) (s.playFrom verbose scale offset data) := by
  -- both go through the records in the same way, and stop at the same one
  fun_induction Stage.playFrom verbose scale offset data s generalizing b with
  | case1 offset data s cause hheader =>
      rw [Assembly.records, hheader]
      exact h
  | case2 offset data s code flags size dataSize hheader =>
      rename_i hsize
      rw [Assembly.records, hheader]
      simp only [dif_pos hsize]
      exact note b s _ _ h
  | case3 offset data s code flags size dataSize hheader =>
      rename_i hsize hkind _
      rw [Assembly.records, hheader]
      simp only [dif_neg hsize, hkind]
      exact note b s _ _ h
  | case4 offset data s code flags size dataSize hheader =>
      rename_i hsize kind hkind _ listed payload ih
      rw [Assembly.records, hheader]
      simp only [dif_neg hsize, hkind, List.foldl_cons]
      have hlisted : R b listed := by
        show R b (if _ : verbose = true then _ else s)
        split
        · exact note b s _ _ h
        · exact h
      exact ih (record b listed (kind, flags, payload) hlisted)

/-- A stage after the records that were assembled. -/
structure Follows (a : Assembly) (s : Stage) : Prop where
  pending : s.player.pending = a.pending
  fonts : ∀ f, some (.font f) ∈ s.player.objects → f.family ∈ a.families
  drawn : ∀ piece ∈ s.drawn, ∃ (p : Player) (scale : Float) (c : Command),
    (∀ f, some (.font f) ∈ p.objects → f.family ∈ a.families) ∧ piece ∈ p.drawing scale c

namespace Follows

variable {a b : Assembly} {s t : Stage}

/-- What was drawn can be written, if the names of all families are plain. -/
theorem sound (h : Follows a s) (hplain : ∀ name ∈ a.families, Plain name) :
    ∀ piece ∈ s.drawn, piece.Sound ∧ piece.isWhole = true := by
  intro piece hpiece
  obtain ⟨p, scale, c, hfonts, hdrawing⟩ := h.drawn piece hpiece
  exact Player.drawing_sound (fun f hf => hplain _ (hfonts f hf)) piece hdrawing

/-- What was drawn is confined to the names of all families. -/
theorem confined (h : Follows a s) : ∀ piece ∈ s.drawn, piece.Confined a.families := by
  intro piece hpiece
  obtain ⟨p, scale, c, hfonts, hdrawing⟩ := h.drawn piece hpiece
  exact Player.drawing_confined hfonts piece hdrawing

/-- Before the first comment there are no objects and no pieces. -/
theorem initial (log : Log) : Follows .empty ⟨.initial, #[], log⟩ where
  pending := rfl
  fonts f h := by
    have hnone : ∀ o, some o ∉ Player.initial.objects := by
      intro o ho
      cases (Array.mem_replicate.1 ho).2
    exact absurd h (hnone _)
  drawn piece h := by simp at h

/-- What changes nothing of objects and pieces. -/
theorem of_same (h : Follows a s) (hpending : t.player.pending = s.player.pending)
    (hobjects : t.player.objects = s.player.objects) (hdrawn : t.drawn = s.drawn) :
    Follows a t :=
  ⟨hpending.trans h.pending, hobjects ▸ h.fonts, hdrawn ▸ h.drawn⟩

/-- A comment begins with the player of the one before it, and with no pieces. -/
theorem restart (h : Follows a s) (log : Log) : Follows a ⟨s.player, #[], log⟩ :=
  ⟨h.pending, h.fonts, fun piece hpiece => by simp at hpiece⟩

/-- A stage follows an assembly that goes on, as long as the same object is pending. -/
theorem mono (h : Follows a s) (hextends : a.Extends b) (hpending : b.pending = a.pending) :
    Follows b s where
  pending := h.pending.trans hpending.symm
  fonts f hf := hextends.families (h.fonts f hf)
  drawn piece hpiece := by
    obtain ⟨p, scale, c, hfonts, hdrawing⟩ := h.drawn piece hpiece
    exact ⟨p, scale, c, fun f hf => hextends.families (hfonts f hf), hdrawing⟩

/-- The pending object is replaced on both sides. -/
theorem setPending (h : Follows a s) (pending : Gather) :
    Follows { a with pending } (s.update fun p => { p with pending }) :=
  ⟨rfl, h.fonts, h.drawn⟩

/-- A content that is stored becomes an object on the stage, if it can be read. A font among them
has its family in the assembly. -/
theorem store (h : Follows a s) (type id : Nat) (content : Bytes) :
    Follows (a.store type content) (s.store type id content) := by
  -- even a content that cannot be read counts as stored
  have hmore := h.mono (a.store_extends type content) rfl
  unfold Stage.store
  cases hread : Object.ofBytes type content with
  | error cause => exact hmore.of_same rfl rfl rfl
  | ok o =>
      refine ⟨hmore.pending, fun f hf => ?_, hmore.drawn⟩
      rcases Array.mem_or_eq_of_mem_setIfInBounds hf with hold | hnew
      · exact hmore.fonts f hold
      · -- the font that was just read
        obtain rfl := Option.some.inj hnew
        unfold Assembly.families Assembly.store
        rw [List.filterMap_append, List.mem_append]
        refine Or.inr (List.mem_filterMap.2 ⟨_, List.mem_singleton_self _, ?_⟩)
        rw [hread]

/-- What is pending is given up on both sides. -/
theorem flush (h : Follows a s) : Follows a.flush s.flush := by
  unfold Stage.flush Assembly.flush
  simp only [h.pending]
  cases a.pending with
  | none => exact h
  | some p => exact (h.setPending none).store ..

/-- What is complete is stored on both sides. -/
theorem settle (h : Follows a s) :
    Follows a.settle (if s.player.pending.isComplete then s.flush else s) := by
  unfold Assembly.settle
  rw [h.pending]
  split
  · exact h.flush
  · exact h

/-- A fragment arrives on both sides: it goes on with what is pending, or gives that up. -/
theorem receive (h : Follows a s) (type id : Nat) (fragment : Fragment) :
    Follows (a.receive type id fragment) (s.receive type id fragment) := by
  cases fragment with
  | last content =>
      simp only [Stage.receive, Assembly.receive, h.pending]
      cases a.pending.append? type id content with
      | some p => exact (h.setPending (some p)).flush
      | none => exact h.flush.store ..
  | part total content =>
      simp only [Stage.receive, Assembly.receive, h.pending]
      cases a.pending.append? type id content with
      | some p => exact (h.setPending (some p)).settle
      | none => exact (h.flush.setPending (some ⟨type, id, total, content⟩)).settle

/-- A header of EMF+ records is about the resolution and the flag, and brings no objects. -/
theorem header (h : Follows a s) (dual : Bool) (resolution : Except Fault (Nat × Nat)) :
    Follows a (s.header dual resolution).1 := by
  unfold Stage.header
  cases resolution with
  | error cause => exact h.of_same rfl rfl rfl
  | ok resolution => exact h.of_same rfl rfl rfl

/-- A command is performed as it is assembled. What it draws it draws with the fonts that are
there. -/
theorem perform (h : Follows a s) (scale : Float) (c : Command) :
    Follows (a.perform c) (s.perform scale c).1 := by
  have hdrawing (c : Command) :
      Follows a { s with drawn := s.drawn ++ (s.player.drawing scale c).toArray } := by
    refine ⟨h.pending, h.fonts, fun piece hpiece => ?_⟩
    rcases Array.mem_append.1 hpiece with hpiece | hpiece
    · exact h.drawn piece hpiece
    · exact ⟨s.player, scale, c, h.fonts, List.mem_toArray.1 hpiece⟩
  cases c with
  | header dual resolution => exact h.header dual resolution
  | object type id fragment => exact h.receive type id fragment
  | fill figure paint => exact hdrawing _
  | stroke figure pen => exact hdrawing _
  | label font paint corner text => exact hdrawing _
  | restore index =>
      unfold Stage.perform Assembly.perform
      dsimp only
      split
      · rename_i p hp
        -- a saved state holds neither objects nor pieces of them
        have hkept : p.pending = s.player.pending ∧ p.objects = s.player.objects := by
          unfold Player.restore? at hp
          split at hp
          · cases hp
          · obtain rfl := Option.some.inj hp
            exact ⟨rfl, rfl⟩
        exact h.of_same hkept.1 hkept.2 rfl
      · exact h.of_same rfl rfl rfl
  | save | container | world | page | nothing => exact h.of_same rfl rfl rfl

/-- A record is played as it is assembled. -/
theorem playRecord (h : Follows a s) (scale : Float) (kind : Kind) (flags : Nat)
    (payload : Bytes) : Follows (a.record kind flags payload)
      (s.playRecord scale kind flags payload) := by
  -- a record of another kind ends the arriving object on both sides
  have hflushed {s : Stage} (h : Follows a s) : Follows (if kind ≠ .object then a.flush else a)
      (if kind ≠ .object && s.player.pending.isSome then
        (s.note .debug s!"EMF+ {kind.name} ends a pending object early").flush else s) := by
    by_cases hkind : kind ≠ .object
    · rw [if_pos hkind, decide_eq_true hkind, Bool.true_and]
      split
      · exact (h.of_same rfl rfl rfl : Follows a (s.note _ _)).flush
      · -- nothing is arriving, so there is nothing to end
        rename_i hnone
        have hpending := h.pending
        rw [Bool.not_eq_true, Option.isSome_eq_false_iff, Option.isNone_iff_eq_none] at hnone
        rw [hnone] at hpending
        have hsame : a.flush = a := by rw [Assembly.flush, ← hpending]
        rwa [hsame]
    · rw [if_neg hkind, decide_eq_false hkind, Bool.false_and, if_neg Bool.false_ne_true]
      exact h
  have hready := hflushed (h.of_same rfl rfl rfl :
    Follows a (s.update fun p => { p with records := p.records + 1 }))
  unfold Stage.playRecord Assembly.record
  dsimp only
  generalize (if kind ≠ .object then a.flush else a) = b at hready ⊢
  generalize (if kind ≠ .object && (s.update _).player.pending.isSome then _ else _) = ready
    at hready ⊢
  cases Command.ofRecord kind flags payload with
  | error cause => exact hready.of_same rfl rfl rfl
  | ok c =>
      have hperformed := hready.perform scale c
      dsimp only
      generalize ready.perform scale c = result at hperformed ⊢
      obtain ⟨next, fault⟩ := result
      cases fault with
      | none => exact hperformed
      | some f => exact hperformed.of_same rfl rfl rfl

/-- The records of a comment are played as they are assembled. -/
theorem playFrom (h : Follows a s) (verbose : Bool) (scale : Float) (offset : Nat)
    (data : Bytes) :
    Follows (a.comment data) (s.playFrom verbose scale offset data) := by
  exact playFrom_foldl (R := Follows) (fun _ _ _ _ h => h.of_same rfl rfl rfl)
    (fun _ _ r h => h.playRecord scale r.1 r.2.1 r.2.2) h verbose offset data

end Follows

end Stage

end Metafile.Plus
