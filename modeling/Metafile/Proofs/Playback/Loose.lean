import Metafile.Proofs.Geometry.Loose
import Metafile.Proofs.Playback.Saves

/-!
# `Metafile.Proofs.Playback.Loose`: playing with loose segments

The outlines that a state keeps are the path, the clip region, and the clip regions of the saved
contexts. `Hold` keeps them with loose segments, and `Hold.perform?` does to them what a command
does, looking up every point and every saved context by index and giving nothing where one is
missing. Clip regions are combined by a `LooseService`.

`State.perform_hold` states that nothing is ever missing, if the service gives counted segments:
the loose outlines after a command are those of the state after it.
-/

set_option autoImplicit false

namespace Metafile.Playback

open Metafile.Clip (LooseService)
open Metafile.Device (Saved)
open Metafile.Record (ClipChange Command PathUse Shape)

/-- The outlines that later records can come back to. -/
structure Hold where
  path : LooseOutline
  clip : Option LooseOutline
  /-- The clip regions of the saved contexts, the last one first. -/
  saved : List (Option LooseOutline)

/-- The clip region of a context, with loose segments. -/
def clipHold (c : Device.Context) : Option LooseOutline :=
  c.clip.map fun region => region.outline.loose

/-- The outlines of a state, with loose segments. -/
def State.hold (s : State) : Hold :=
  ⟨s.trail.outline.loose, clipHold s.context, s.saved.map clipHold⟩

namespace Hold

/-- Whether all segments have exactly the points of their sort. -/
structure Counted (k : Hold) : Prop where
  path : k.path.Counted
  clip : ∀ region ∈ k.clip, LooseOutline.Counted region
  saved : ∀ clip ∈ k.saved, ∀ region ∈ clip, LooseOutline.Counted region

/-! ### What commands do to outlines -/

/-- Adds the segments of an outline to the path, if it is open. -/
def extend (inPath : Bool) (o : Outline Float) (k : Hold) : Hold :=
  if inPath then { k with path := k.path ++ o.loose } else k

/-- Installs a clip region. Outside of a path its definition is written, with its path data. -/
def setClip? (inPath : Bool) (region : LooseOutline) (k : Hold) : Option Hold :=
  if inPath then return { k with clip := some region }
  else do
    let _data ← region.chars?
    return { k with clip := some region }

/-- Combines the clip region with an outline, of which the service only sees lines. -/
def combineClip? (service : LooseService) (inPath : Bool) (incoming : LooseOutline)
    (op : Clip.Operation) (k : Hold) : Option Hold := do
  let lines ← incoming.flatten?
  k.setClip? inPath (service k.clip lines op)

/-- Changes the clip region. Boxes are outlines of their own, and so is the path. -/
def changeClip? (service : LooseService) (change : ClipChange) (s : State) (k : Hold) :
    Option Hold :=
  match change with
  | .box b op => k.combineClip? service s.inPath (s.logicalBox b).loose op
  | .path op => k.combineClip? service s.inPath k.path op
  | .shift v =>
    match k.clip with
    | none => return k
    | some region =>
      let origin := s.point Point.zero
      let moved := s.point (.ofInt v)
      k.setClip? s.inPath
        (region.map (LooseSegment.shift ⟨moved.x - origin.x, moved.y - origin.y⟩))
  | .boxes bs op =>
    k.combineClip? service s.inPath (Outline.loose (bs.flatMap (deviceBox s.page.scale))) op
  | .reset => return { k with clip := none }

/-- Returns to the clip region of a saved context. -/
def restore? (relative : Int) (k : Hold) : Option Hold :=
  if Saved.InReach relative k.saved.length then do
    let clip ← k.saved[relative.natAbs - 1]?
    return { k with clip, saved := k.saved.drop relative.natAbs }
  else return k

/-- Does to the outlines what a command does in a state, if every point and every context is where
it is looked up. -/
def perform? (service : LooseService) (c : Command) (s : State) (k : Hold) : Option Hold :=
  match c with
  | .draw shape => return k.extend s.inPath (s.place (shapeOutline s.heading shape))
  | .moveTo p => return k.extend s.inPath (s.place [.move (.ofInt p)])
  | .closeFigure => return k.extend s.inPath (s.place [.close])
  | .beginPath | .abortPath => return { k with path := [] }
  | .flattenPath => return { k with path := ← k.path.flatten? }
  | .clip change => k.changeClip? service change s
  | .save => return { k with saved := k.clip :: k.saved }
  | .restore relative => k.restore? relative
  | _ => return k

end Hold

namespace State

/-- A state keeps no segment that lacks points or has too many. -/
theorem hold_counted (s : State) : s.hold.Counted := by
  have hclip (c : Device.Context) (region : LooseOutline) (h : region ∈ clipHold c) :
      region.Counted := by
    obtain ⟨clip, _, rfl⟩ := Option.map_eq_some_iff.1 h
    exact LooseOutline.counted_loose clip.outline
  refine ⟨LooseOutline.counted_loose _, hclip s.context, fun clip hsaved => ?_⟩
  obtain ⟨c, _, rfl⟩ := List.mem_map.1 hsaved
  exact hclip c

/-! ### The path -/

/-- What is added to an open path is added to the outline that is held. -/
theorem extend_hold {b : Bracket} (o : Outline Float) {s : State} (h : s.bracket = some b) :
    (s.extend o b).hold = s.hold.extend s.inPath (s.place o) := by
  rw [inPath, h]
  show Hold.mk (s.trail.append (s.place o)).outline.loose _ _ = _
  rw [Trail.outline_append, Outline.loose_append]
  rfl

/-- What is drawn outside of a path is no part of the path. -/
theorem hold_extend_of_closed {s : State} (h : s.inPath = false) (o : Outline Float) :
    s.hold.extend s.inPath o = s.hold := by
  rw [Hold.extend, h, if_neg Bool.false_ne_true]

/-- A shape is added to the path if there is one. -/
theorem draw_hold (shape : Shape) (s : State) :
    (s.draw shape).hold = s.hold.extend s.inPath (s.place (shapeOutline s.heading shape)) := by
  unfold draw
  split
  · exact extend_hold _ ‹_›
  · rename_i hbracket
    have hclosed : s.inPath = false := by rw [inPath, hbracket]; rfl
    rw [hold_extend_of_closed hclosed]
    split
    · rfl
    · obtain ⟨written, held, heq⟩ :=
        emit_eq #[s.shapePiece shape] { s with position := s.ownStop shape }
      exact (congrArg hold heq).trans rfl

/-- A move is added to the path if there is one. -/
theorem moveTo_hold (p : Point Float) (s : State) :
    (s.moveTo p).hold = s.hold.extend s.inPath (s.place [.move p]) := by
  unfold moveTo
  split
  · exact extend_hold _ ‹_›
  · rename_i hbracket
    have hclosed : s.inPath = false := by rw [inPath, hbracket]; rfl
    rw [hold_extend_of_closed hclosed]
    rfl

/-- A closing is added to the path if there is one. -/
theorem closeFigure_hold (s : State) :
    s.closeFigure.hold = s.hold.extend s.inPath (s.place [.close]) := by
  unfold closeFigure
  split
  · exact extend_hold _ ‹_›
  · rename_i hbracket
    have hclosed : s.inPath = false := by rw [inPath, hbracket]; rfl
    rw [hold_extend_of_closed hclosed]

/-- A bracket that is begun forgets the path. -/
theorem beginPath_hold {uses : List PathUse} {use : PathUse} {s : State}
    (h : uses[s.brackets]? = some use) :
    (s.beginPath uses).1.hold = { s.hold with path := [] } := by
  rw [beginPath_of_use h]
  obtain ⟨written, held, hgiven⟩ := abandon_eq s
  rw [hgiven]
  obtain ⟨world, wrapped, written', held', heq⟩ := replay_eq use.before
    { s with bracket := none, brackets := s.brackets + 1, written, held }
  dsimp only
  rw [heq]
  rfl

/-- The path outlives its bracket: clip regions are still made from it. -/
theorem endPath_hold (uses : List PathUse) (s : State) : (s.endPath uses).1.hold = s.hold := by
  obtain ⟨world, bracket, wrapped, written, held, heq⟩ := endPath_eq uses s
  exact (congrArg hold heq).trans rfl

/-- A path that is given up is forgotten. -/
theorem abortPath_hold (s : State) : s.abortPath.hold = { s.hold with path := [] } := by
  obtain ⟨written, held, heq⟩ := abandon_eq s
  unfold abortPath
  rw [heq]
  rfl

/-- The lines of the path are found. -/
theorem flattenPath_hold (s : State) :
    (do return { s.hold with path := ← s.hold.path.flatten? }) = some s.flattenPath.hold := by
  show (LooseOutline.flatten? s.trail.outline.loose >>= fun path =>
    some ({ s.hold with path } : Hold)) = _
  rw [LooseOutline.flatten?_loose]
  show _ = some (Hold.mk (Trail.ofOutline s.trail.outline.flatten).outline.loose _ _)
  rw [Trail.outline_ofOutline]
  rfl

/-! ### The clip region -/

/-- The path data of a new clip region is found. -/
theorem setClip_hold (region : Outline Float) (s : State) :
    s.hold.setClip? s.inPath region.loose = some (s.setClip region).hold := by
  obtain ⟨id, clips, written, held, heq⟩ := setClip_eq region s
  rw [heq, Hold.setClip?, LooseOutline.chars?_loose]
  split <;> rfl

/-- The service combines the clip region with the lines of the new one. -/
theorem combineClip_hold {service : LooseService} (hservice : service.Counts)
    (incoming : Outline Float) (op : Clip.Operation) (s : State) :
    s.hold.combineClip? service s.inPath incoming.loose op =
      some (s.combineClip service.combiner incoming op).hold := by
  show (LooseOutline.flatten? incoming.loose >>= fun lines =>
    s.hold.setClip? s.inPath (service s.hold.clip lines op)) = _
  rw [LooseOutline.flatten?_loose, combineClip, ← setClip_hold, Clip.Combiner.apply,
    LooseService.combiner_eq hservice, Option.map_map]
  rfl

/-- A change of the clip region finds every point that it looks up, and changes the outlines as it
changes the state. -/
theorem changeClip_hold {service : LooseService} (hservice : service.Counts) (change : ClipChange)
    (s : State) : s.hold.changeClip? service change s =
      some (s.changeClip service.combiner change).hold := by
  cases change with
  | box b op => exact combineClip_hold hservice _ op s
  | path op => exact combineClip_hold hservice _ op s
  | boxes bs op => exact combineClip_hold hservice _ op s
  | reset => rfl
  | shift v =>
      unfold Hold.changeClip? changeClip shiftClip
      -- a shift needs a region to be shifted
      cases hclip : s.context.clip with
      | none =>
          have hnone : s.hold.clip = none := by
            show clipHold s.context = none
            rw [clipHold, hclip]
            rfl
          simp only [hnone]
          rfl
      | some region =>
          have hsome : s.hold.clip = some region.outline.loose := by
            show clipHold s.context = some region.outline.loose
            rw [clipHold, hclip]
            rfl
          simp only [hsome]
          rw [← LooseOutline.shift_loose]
          exact setClip_hold _ s

/-! ### Saved contexts -/

/-- The context to which a command returns is where it is looked up. -/
theorem restore_hold (relative : Int) (s : State) :
    s.hold.restore? relative = some (s.restore relative).1.hold := by
  unfold Hold.restore?
  have hlength : s.hold.saved.length = s.saved.length := List.length_map ..
  rw [hlength]
  have htrail : (s.restore relative).1.trail = s.trail := by
    obtain ⟨context, saved, wrapped, failed, written, held, log, heq⟩ := restore_eq relative s
    rw [heq]
  -- a place in reach is found in both lists of saves, and one out of reach in neither
  by_cases hreach : Saved.InReach relative s.saved.length
  · rw [if_pos hreach]
    obtain ⟨c, hplace, hdrop⟩ := Saved.exists_of_inReach hreach
    obtain ⟨hcontext, hsavings⟩ := restore_of_inReach hreach hdrop
    have hsaved : (s.restore relative).1.saved = s.saved.drop relative.natAbs :=
      congrArg Prod.fst hsavings
    have hfound : s.hold.saved[relative.natAbs - 1]? = some (clipHold c) := by
      show (s.saved.map clipHold)[relative.natAbs - 1]? = _
      rw [List.getElem?_map, hplace]
      rfl
    have hafter : (s.restore relative).1.hold =
        { s.hold with clip := clipHold c, saved := s.hold.saved.drop relative.natAbs } := by
      rw [hold, htrail, hcontext, hsaved, List.map_drop]
      rfl
    rw [hfound, hafter]
    rfl
  · rw [if_neg hreach]
    obtain ⟨log, heq⟩ := restore_of_not_inReach hreach
    rw [heq]
    rfl

/-! ### Commands -/

/-- A tool is selected without a change of the clip region. -/
theorem select_hold (handle : Nat) (s : State) : (s.select handle).1.hold = s.hold := by
  have hclip (tool : Device.Tool) : (s.context.select tool).clip = s.context.clip := by
    cases tool <;> rfl
  unfold select
  split
  · split
    · rename_i context hcontext
      obtain ⟨pen, brush, rfl⟩ := selectStock?_eq hcontext
      rfl
    · rfl
  · split
    · rename_i context hcontext
      rcases select_eq_ok hcontext with rfl | ⟨tool, _, rfl⟩
      · rfl
      · show Hold.mk _ (clipHold (s.context.select tool)) _ = _
        rw [clipHold, hclip]
        rfl
    · rfl

/-- A setting is no change of the clip region. -/
theorem set_hold (setting : Record.Setting) (s : State) :
    (s.update setting.onto).hold = s.hold := by
  have hclip : (setting.onto s.context).clip = s.context.clip :=
    congrArg Core.clip (onto_core setting s)
  show Hold.mk _ (clipHold (setting.onto s.context)) _ = _
  rw [clipHold, hclip]
  rfl

/-- Whatever a command looks up is there, and the outlines after it are those of the state after
it. -/
theorem perform_hold {setup : Setup} {service : LooseService} (hservice : service.Counts)
    (hcombine : setup.combine = service.combiner) {uses : List PathUse} {c : Command} {s : State}
    (hbegin : c = .beginPath → ∃ use, uses[s.brackets]? = some use) :
    s.hold.perform? service c s = some (s.perform setup uses c).1.hold := by
  -- most commands touch no outline that is kept
  have hquiet {t : State} (h : t.hold = s.hold) : some s.hold = some t.hold := by rw [h]
  cases c with
  | draw shape => exact congrArg some (draw_hold shape s).symm
  | moveTo p => exact congrArg some (moveTo_hold _ s).symm
  | closeFigure => exact congrArg some (closeFigure_hold s).symm
  | beginPath =>
      obtain ⟨use, huse⟩ := hbegin rfl
      exact congrArg some (beginPath_hold huse).symm
  | endPath => exact hquiet (endPath_hold uses s)
  | abortPath => exact congrArg some (abortPath_hold s).symm
  | flattenPath => exact flattenPath_hold s
  | clip change =>
      show _ = some (s.changeClip setup.combine change).hold
      rw [hcombine]
      exact changeClip_hold hservice change s
  | save => rfl
  | restore relative => exact restore_hold relative s
  | header header =>
      obtain ⟨written, held, log, heq⟩ := beginDocument_eq setup.options header s
      exact hquiet ((congrArg hold heq).trans rfl)
  | endOfFile =>
      obtain ⟨player, log, heq⟩ := endDocument_eq setup.options s
      obtain ⟨written, held, hgiven⟩ := abandon_eq s
      rw [hgiven] at heq
      exact hquiet ((congrArg hold heq).trans rfl)
  | set setting => exact hquiet (set_hold setting s)
  | mapMode code =>
      obtain ⟨mapping, log, heq⟩ := setMapMode_eq code s
      exact hquiet ((congrArg hold heq).trans rfl)
  | transform change =>
      obtain ⟨world, wrapped, written, held, log, heq⟩ := transform_eq change s
      exact hquiet ((congrArg hold heq).trans rfl)
  | create index tool =>
      obtain ⟨objects, heq⟩ := put_eq index tool s
      exact hquiet ((congrArg hold heq).trans rfl)
  | createPattern index picture fromContext =>
      obtain ⟨objects, images, written, held, log, heq⟩ :=
        createPattern_eq setup.encode index picture fromContext s
      exact hquiet ((congrArg hold heq).trans rfl)
  | select handle => exact hquiet (select_hold handle s)
  | delete handle =>
      obtain ⟨objects, heq⟩ := delete_eq handle s
      exact hquiet ((congrArg hold heq).trans rfl)
  | blit area =>
      obtain ⟨written, held, log, heq⟩ := blit_eq setup.encode area s
      exact hquiet ((congrArg hold heq).trans rfl)
  | label origin text =>
      obtain ⟨written, held, heq⟩ := emit_eq #[s.labelPiece origin text] s
      exact hquiet ((congrArg hold heq).trans rfl)
  | plus records =>
      obtain ⟨written, held, log, heq⟩ :=
        runPlus_eq (·.play setup.options.verbose s.page.scale records) s
      exact hquiet ((congrArg hold heq).trans rfl)
  | layout _ | nothing => rfl

end State

end Metafile.Playback
