import Metafile.Proofs.Geometry.Flatten
import Metafile.Proofs.Playback.Services
import Metafile.Proofs.Playback.Tools

/-!
# `Metafile.Proofs.Playback.ClipLines`: a combiner never meets a curve

The new region is flattened before it is combined, but the region that it is combined with is
taken as it was stored. `combined_without_curves` states that neither has a curve, as long as the
combiner makes none itself.

For the stored regions this is an invariant. It must be said of the current region and of those of
all saved contexts, because a context may come back at any record (`State.Straight`). A region is
only stored after it was combined or after it was moved, and moving it makes no curves.
-/

set_option autoImplicit false

namespace Metafile

/-- There are no curves in an outline. -/
def Outline.CurveFree (o : Outline Float) : Prop := ∀ s ∈ o, s.isCurve = false

namespace Outline.CurveFree

variable {o : Outline Float}

/-- Lines for curves are no curves. -/
theorem flatten (o : Outline Float) : o.flatten.CurveFree := isCurve_flattenFrom _ _ o

/-- Moving an outline keeps the kinds of its segments. -/
theorem shift (h : o.CurveFree) (v : Point Float) : (o.shift v).CurveFree := by
  intro moved hmoved
  obtain ⟨s, hs, rfl⟩ := List.mem_map.1 hmoved
  have hkind := h s hs
  cases s <;> first | rfl | cases hkind

end Outline.CurveFree

namespace Clip

/-- No region of a combination has a curve. -/
structure Combination.CurveFree (k : Combination) : Prop where
  current : ∀ o, k.current = some o → o.CurveFree
  incoming : k.incoming.CurveFree

/-- A combiner makes a region without curves, if it is given such regions. -/
def Combiner.KeepsCurveFree (combine : Combiner) : Prop :=
  ∀ k : Combination, k.CurveFree → (k.answer combine).CurveFree

end Clip

namespace Playback

open Metafile.Clip (Combination Combiner)
open Metafile.Record (Command Entry Kind PathUse Survey)

namespace State

variable {s : State}

/-- There are no curves in the clip regions of the current context and of the saved ones. -/
def Straight (s : State) : Prop :=
  Stores (fun c => ∀ region, c.clip = some region → region.outline.CurveFree) (fun _ => True) s

namespace Straight

/-- At first there is no clip region at all. -/
theorem start (survey : Survey) : Straight (State.start survey) :=
  ⟨nofun, fun _ hc => absurd hc List.not_mem_nil, fun _ _ => trivial⟩

/-- A message is no clip region. -/
theorem of_log (h : s.Straight) (log : Log) : Straight { s with log } :=
  ⟨h.context, h.saved, h.slots⟩

/-- What a command asks a combiner for has no curves: the new region is flattened, whatever it was
made of. -/
theorem combination_curveFree (h : s.Straight) {c : Command} {k : Combination}
    (hk : s.combination? c = some k) : k.CurveFree := by
  have hcombined (incoming : Outline Float) (op : Clip.Operation) :
      (s.combination incoming op).CurveFree := by
    refine ⟨fun o ho => ?_, .flatten incoming⟩
    obtain ⟨region, hregion, rfl⟩ := Option.map_eq_some_iff.1 ho
    exact h.context region hregion
  unfold combination? at hk
  split at hk <;> first | exact Option.some.inj hk ▸ hcombined _ _ | cases hk

/-- A clip region without curves may become the current one. -/
theorem setClip (h : s.Straight) {region : Outline Float} (hregion : region.CurveFree) :
    Straight (s.setClip region) := by
  obtain ⟨id, clips, written, held, heq⟩ := setClip_eq region s
  rw [heq]
  exact ⟨fun r hr => Option.some.inj hr ▸ hregion, h.saved, h.slots⟩

/-- A change of the clip region stores what the combiner made, or the region that was there in
another place. -/
theorem changeClip (h : s.Straight) {combine : Combiner} (hcombine : combine.KeepsCurveFree)
    (change : Record.ClipChange) : Straight (s.changeClip combine change) := by
  have hcombined (incoming : Outline Float) (op : Clip.Operation)
      (hk : s.combination? (.clip change) = some (s.combination incoming op)) :
      Straight (s.combineClip combine incoming op) :=
    h.setClip (hcombine _ (h.combination_curveFree hk))
  -- three changes combine the region, one moves it and one takes it away
  cases change with
  | box b op => exact hcombined _ op rfl
  | path op => exact hcombined _ op rfl
  | boxes bs op => exact hcombined _ op rfl
  | shift v =>
      show Straight (s.shiftClip v)
      unfold shiftClip
      split
      · exact h
      · rename_i region hregion
        exact h.setClip ((h.context region hregion).shift _)
  | reset => exact ⟨nofun, h.saved, h.slots⟩

/-- Every command keeps the clip regions without curves. -/
theorem perform (h : s.Straight) {setup : Setup} (hcombine : setup.combine.KeepsCurveFree)
    (uses : List PathUse) (c : Command) : Straight (s.perform setup uses c).1 := by
  by_cases hclip : ∃ change, c = .clip change
  · obtain ⟨change, rfl⟩ := hclip
    exact h.changeClip hcombine change
  · exact Stores.perform_regions h setup uses fun change hc => hclip ⟨change, hc⟩

end Straight

end State

/-- At every boundary no clip region has a curve. -/
theorem Reaches.straight {setup : Setup} {stream : Bytes} {survey : Survey}
    {earlier later : List Entry} {t : State} (h : Reaches setup stream survey earlier later t)
    (hcombine : setup.combine.KeepsCurveFree) : t.Straight := by
  refine h.induction (motive := fun _ _ t => t.Straight) (.start survey) ?_
  intro earlier e later s t c _ ih _ hperform
  obtain ⟨log, hlog⟩ := State.announce_eq setup e s
  have hkept := (ih.of_log log).perform hcombine survey.paths c
  rw [hlog] at hperform
  rwa [hperform] at hkept

/-- If a combiner makes no curves out of regions without curves, then it is only ever given such
regions, as the current one and as the new one, wherever they come from. So how it treats curves
does not matter: any combiner that agrees with it on regions without curves gives the same
conversion. -/
theorem combined_without_curves (setup : Setup) (stream : Bytes)
    (hcombine : setup.combine.KeepsCurveFree) :
    (∀ k, Combines setup stream k → k.CurveFree) ∧
      ∀ combine : Combiner,
        (∀ k : Combination, k.CurveFree → k.answer combine = k.answer setup.combine) →
        convert { setup with combine } stream = convert setup stream := by
  have hall (k : Combination) (hk : Combines setup stream k) : k.CurveFree := by
    obtain ⟨hreaches, _, hasks⟩ := hk
    exact (hreaches.straight hcombine).combination_curveFree hasks
  refine ⟨hall, fun combine hagrees => ?_⟩
  exact convert_congr rfl (fun k hk => hagrees k (hall k hk)) fun _ _ _ => rfl

/-- A conversion in which every operation puts the new region behind the current one. -/
def Setup.joining : Setup :=
  { Setup.plain with combine := fun current incoming _ => current.getD [] ++ incoming }

/-- Regions that are put behind each other have no curve if neither has. -/
theorem Setup.joining_keepsCurveFree : joining.combine.KeepsCurveFree := by
  intro k hk s hs
  rcases List.mem_append.1 hs with hs | hs
  · cases hcurrent : k.current with
    | none => simp [hcurrent] at hs
    | some o =>
        rw [hcurrent, Option.getD_some] at hs
        exact hk.current o hcurrent s hs
  · exact hk.incoming s hs

/-- A path with a curve that becomes the clip region. The region is saved, moved and restored, and
then it is combined with the path again. -/
def curvedClipStream : Bytes :=
  Record.streamOf [(.header, List.replicate 80 0), (.beginPath, []),
    (.polyBezierTo, List.replicate 16 0 ++ [3, 0, 0, 0] ++ List.replicate 24 0), (.endPath, []),
    (.selectClipPath, [5, 0, 0, 0]), (.saveContext, []), (.offsetClipRegion, List.replicate 8 1),
    (.restoreContext, [255, 255, 255, 255]), (.selectClipPath, [1, 0, 0, 0]),
    (.endOfFile, List.replicate 12 0)]

/-- The path that is combined with the restored region has a curve, and the combiner is given a
current region and a new one without curves. -/
theorem combined_without_curves_restored :
    Setup.joining.combine.KeepsCurveFree ∧
      ∃ earlier e later t k,
        Reaches .joining curvedClipStream (.ofStream curvedClipStream) earlier (e :: later) t ∧
        t.trail.outline.any Segment.isCurve = true ∧
        t.combination? (.clip (.path .intersect)) = some k ∧
        Combines .joining curvedClipStream k ∧ k.current.isSome = true ∧ k.CurveFree := by
  have h : Reaches .joining curvedClipStream _ _
      ((Survey.ofStream curvedClipStream).entries.drop 8) _ :=
    .of_steps 8 (by decide +kernel) (by decide +kernel)
  have hdrop : (Survey.ofStream curvedClipStream).entries.drop 8 =
      ⟨204, 67, Kind.selectClipPath.record [1, 0, 0, 0]⟩ ::
        (Survey.ofStream curvedClipStream).entries.drop 9 := by decide +kernel
  rw [hdrop] at h
  have hcommand : Entry.command Setup.joining.options.plus
      ⟨204, 67, Kind.selectClipPath.record [1, 0, 0, 0]⟩ = .ok (.clip (.path .intersect)) := by
    rfl
  have hcombines : Combines .joining curvedClipStream _ := .intro h hcommand rfl
  exact ⟨Setup.joining_keepsCurveFree, _, _, _, _, _, h, by decide +kernel, rfl, hcombines,
    by decide +kernel,
    (combined_without_curves .joining curvedClipStream Setup.joining_keepsCurveFree).1 _
      hcombines⟩

end Playback

end Metafile
