import Metafile.Proofs.Playback.Changes

/-!
# `Metafile.Proofs.Playback.Tools`: contexts and tools that may come back

A context that was saved may become the current one again, and a tool in a slot may be selected at
any later record. So what is said about the things that a context draws with has to be said about
all contexts and all slots: `State.Stores` does that for a property of contexts and one of tools.

The properties are `Selectable` if selecting a tool keeps them. Then every command keeps them
(`State.Stores.perform`), except for the two that make new definitions.
-/

set_option autoImplicit false

namespace Metafile.Playback

open Metafile.Device (Context ObjectTable Saved Tool)
open Metafile.Record (Command PathUse)

/-- A property of contexts that depends on the pattern, the font and the clip region, and that
selecting a tool with another property keeps. -/
structure Selectable (C : Context → Prop) (T : Tool → Prop) : Prop where
  same : ∀ {c d : Context}, d.brush.pattern = c.brush.pattern → d.font = c.font →
    d.clip = c.clip → C c → C d
  select : ∀ {c : Context} {tool : Tool}, C c → T tool → C (c.select tool)

namespace State

/-- The current context and the saved ones have a property, and the tools in slots another one. -/
structure Stores (C : Context → Prop) (T : Tool → Prop) (s : State) : Prop where
  context : C s.context
  saved : ∀ c ∈ s.saved, C c
  slots : ∀ tool, some tool ∈ s.objects.slots → T tool

/-- A slot of a changed table holds what it held before, or what was put into it. -/
private theorem mem_slots_set {objects changed : ObjectTable} {index : Nat}
    {tool kept : Option Tool} (h : objects.set index tool = .ok changed)
    (hkept : kept ∈ changed.slots) : kept ∈ objects.slots ∨ kept = tool := by
  unfold ObjectTable.set ObjectTable.checkIndex at h
  split at h
  · obtain rfl := Except.ok.inj h
    exact Array.mem_or_eq_of_mem_setIfInBounds hkept
  · cases h

/-- The context to which a restore returns was saved, and so were those that stay saved. -/
private theorem mem_saved_of_restore {saved rest : Saved} {relative : Int} {c : Context}
    (h : saved.restore relative = .ok (c, rest)) : ∀ d ∈ c :: rest, d ∈ saved := by
  unfold Saved.restore at h
  split at h
  · cases h
  · split at h
    · cases h
    · rename_i hdrop
      obtain ⟨rfl, rfl⟩ := Prod.mk.inj (Except.ok.inj h)
      intro d hd
      rw [← hdrop] at hd
      exact List.mem_of_mem_drop hd

/-- A tool that every device has leaves the pattern of the brush as it is. -/
theorem selectStock?_pattern {handle : Nat} {c d : Context}
    (h : Context.selectStock? handle c = some d) : d.brush.pattern = c.brush.pattern := by
  unfold Context.selectStock? at h
  split at h
  · cases h
  · split at h <;> first | exact Option.some.inj h ▸ rfl | cases h

namespace Stores

variable {C C' : Context → Prop} {T T' : Tool → Prop} {s t : State}

/-- Both properties may be weakened. -/
theorem mono (h : Stores C T s) (hC : ∀ c, C c → C' c) (hT : ∀ tool, T tool → T' tool) :
    Stores C' T' s :=
  ⟨hC _ h.context, fun c hc => hC c (h.saved c hc), fun tool ht => hT tool (h.slots tool ht)⟩

/-- Putting a tool with the property into a slot. -/
theorem put (h : Stores C T s) (index : Nat) {tool : Tool} (htool : T tool) :
    Stores C T (s.put index tool).1 := by
  unfold State.put
  split
  · rename_i objects hobjects
    refine ⟨h.context, h.saved, fun kept hkept => ?_⟩
    rcases mem_slots_set hobjects hkept with hkept | hkept
    · exact h.slots kept hkept
    · exact Option.some.inj hkept ▸ htool
  · exact h

/-- An emptied slot holds no tool. -/
theorem delete (h : Stores C T s) (handle : Nat) : Stores C T (s.delete handle).1 := by
  unfold State.delete
  split
  · exact h
  · split
    · rename_i objects hobjects
      refine ⟨h.context, h.saved, fun kept hkept => ?_⟩
      rcases mem_slots_set hobjects hkept with hkept | hkept
      · exact h.slots kept hkept
      · cases hkept
    · exact h

/-- The context that is saved has the property itself. -/
theorem save (h : Stores C T s) : Stores C T { s with saved := s.saved.save s.context } := by
  refine ⟨h.context, fun c hc => ?_, h.slots⟩
  rcases List.mem_cons.1 hc with rfl | hc
  · exact h.context
  · exact h.saved c hc

/-- The slots that a header makes are empty. -/
theorem beginDocument (h : Stores C T s) (o : Options) (header : Record.Header) :
    Stores C T (s.beginDocument o header) := by
  obtain ⟨written, held, log, heq⟩ := beginDocument_eq o header s
  rw [heq]
  refine ⟨h.context, h.saved, fun tool htool => ?_⟩
  cases (Array.mem_replicate.1 htool).2

/-- The end of the document touches no context and no slot. -/
theorem endDocument (h : Stores C T s) (o : Options) : Stores C T (s.endDocument o) := by
  obtain ⟨player, log, hend⟩ := endDocument_eq o s
  obtain ⟨written, held, hgiven⟩ := abandon_eq s
  rw [hend, hgiven]
  exact ⟨h.context, h.saved, h.slots⟩

/-- EMF+ records have slots of their own. -/
theorem runPlus (h : Stores C T s) (act : Plus.Stage → Plus.Stage) :
    Stores C T (s.runPlus act) := by
  obtain ⟨written, held, log, heq⟩ := runPlus_eq act s
  rw [heq]
  exact ⟨h.context, h.saved, h.slots⟩

/-- A context that is returned to was saved, so it has the property. -/
theorem restore (h : Stores C T s) (relative : Int) : Stores C T (s.restore relative).1 := by
  unfold State.restore
  split
  · rename_i context saved hrestored
    have hmem := mem_saved_of_restore hrestored
    have hback : Stores C T { s with context, saved } :=
      ⟨h.saved context (hmem context List.mem_cons_self),
        fun c hc => h.saved c (hmem c (List.mem_cons_of_mem context hc)), h.slots⟩
    dsimp only
    split
    · obtain ⟨wrapped, written, held, heq⟩ := wrap_eq { s with context, saved }
      rw [heq]
      exact ⟨hback.context, hback.saved, hback.slots⟩
    · exact hback
  · exact ⟨h.context, h.saved, h.slots⟩
  · exact h

/-- A brush that repeats a picture comes into a slot after the picture is defined. -/
theorem createPattern (encode : Bitmap.Encoder) (index : Nat) (picture : Bitmap.Picture)
    (fromContext : Bool) (hdefined : Stores C T (s.patternOf encode picture fromContext).1)
    (hbrush : T (.brush ⟨Device.Brush.patternStyle,
      (s.patternOf encode picture fromContext).1.context.brush.color, 0,
      (s.patternOf encode picture fromContext).2⟩)) :
    Stores C T (s.createPattern encode index picture fromContext).1 := by
  unfold State.createPattern
  exact Stores.put (s := (s.patternOf encode picture fromContext).1.note _ _)
    ⟨hdefined.context, hdefined.saved, hdefined.slots⟩ index hbrush

variable (hC : Selectable C T)
include hC

/-- What leaves the core of a state alone. -/
theorem of_core (h : Stores C T s) (hcore : t.core = s.core) : Stores C T t := by
  have hsaved : t.saved = s.saved := congrArg Core.saved hcore
  have hobjects : t.objects = s.objects := congrArg Core.objects hcore
  exact ⟨hC.same (congrArg (fun k : Core => k.brush.pattern) hcore) (congrArg Core.font hcore)
    (congrArg Core.clip hcore) h.context, hsaved ▸ h.saved, hobjects ▸ h.slots⟩

/-- A tool from a slot has its property, so the context with it has the other one. -/
theorem select (h : Stores C T s) (handle : Nat) : Stores C T (s.select handle).1 := by
  unfold State.select
  split
  · split
    · rename_i context hcontext
      have hpattern := selectStock?_pattern hcontext
      obtain ⟨pen, brush, rfl⟩ := selectStock?_eq hcontext
      exact ⟨hC.same hpattern rfl rfl h.context, h.saved, h.slots⟩
    · exact ⟨h.context, h.saved, h.slots⟩
  · split
    · rename_i context hcontext
      rcases select_eq_ok hcontext with rfl | ⟨tool, hslot, rfl⟩
      · exact h
      · exact ⟨hC.select h.context (h.slots tool hslot), h.saved, h.slots⟩
    · exact h

/-- Every command that makes no new definition. -/
theorem perform (h : Stores C T s) (setup : Setup) (uses : List PathUse) {c : Command}
    (hclip : ∀ change, c ≠ .clip change)
    (hpattern : ∀ index picture fromContext, c ≠ .createPattern index picture fromContext)
    (hcreate : ∀ index tool, c = .create index tool → T tool) :
    Stores C T (s.perform setup uses c).1 := by
  cases hkeeps : changesCore c with
  | false => exact h.of_core hC (perform_core setup uses s hkeeps)
  | true =>
      cases c with
      | header header => exact h.beginDocument setup.options header
      | endOfFile => exact h.endDocument setup.options
      | save => exact h.save
      | restore relative => exact h.restore relative
      | create index tool => exact h.put index (hcreate index tool rfl)
      | createPattern index picture fromContext =>
          exact absurd rfl (hpattern index picture fromContext)
      | select handle => exact h.select hC handle
      | delete handle => exact h.delete handle
      | clip change => exact absurd rfl (hclip change)
      | plus records => exact h.runPlus _
      | _ => cases hkeeps

end Stores

/-! ### Clip regions -/

/-- A property of clip regions is kept by selecting a tool. -/
theorem selectable_regions (F : Outline Float → Prop) :
    Selectable (fun c => ∀ region, c.clip = some region → F region.outline) fun _ => True where
  same := by
    intro c d _ _ hclip hc
    rwa [hclip]
  select := by
    intro c tool hc _
    cases tool <;> exact hc

/-- Every command keeps a property of the clip regions of all contexts, if it changes none. -/
theorem Stores.perform_regions {F : Outline Float → Prop} {s : State}
    (h : Stores (fun c => ∀ region, c.clip = some region → F region.outline) (fun _ => True) s)
    (setup : Setup) (uses : List PathUse) {c : Command} (hclip : ∀ change, c ≠ .clip change) :
    Stores (fun c => ∀ region, c.clip = some region → F region.outline) (fun _ => True)
      (s.perform setup uses c).1 := by
  by_cases hpattern : ∃ index picture fromContext, c = .createPattern index picture fromContext
  · obtain ⟨index, picture, fromContext, rfl⟩ := hpattern
    obtain ⟨images, written, held, log, heq⟩ := patternOf_eq setup.encode picture fromContext s
    refine Stores.createPattern setup.encode index picture fromContext ?_ trivial
    rw [heq]
    exact ⟨h.context, h.saved, h.slots⟩
  · exact h.perform (selectable_regions F) setup uses hclip
      (fun index picture fromContext hc => hpattern ⟨index, picture, fromContext, hc⟩)
      fun _ _ _ => trivial

end State

end Metafile.Playback
