import Metafile.Clip

/-!
# `Metafile.Proofs.Geometry.Loose`: segments with any number of points

A `Segment` has exactly the points of its sort. Others keep the points of a segment in a list of
any length and look them up by index, so they may hold a segment that lacks points. A
`LooseSegment` is such a segment. Its readers give nothing where an index is out of range, and
they follow the way in which segments are looked up: `LooseOutline.chars?` for path data, and
`LooseOutline.flatten?` for the lines of curves.

The loose segments that are `Counted` are those of segments (`LooseSegment.loose_of_counted`), and
on them no lookup fails and the readers give what the functions on outlines give. A `LooseService`
combines regions of loose segments. If it gives counted segments it is a combiner of outlines
(`LooseService.combiner_eq`).
-/

set_option autoImplicit false

namespace Metafile

/-! ### Loose segments -/

/-- The sorts of segments. -/
inductive SegmentSort
  | move | line
  | arc (large sweep : Bool)
  | curve | close
deriving DecidableEq, Repr

/-- The number of points of a segment. -/
def SegmentSort.pointCount : SegmentSort → Nat
  | move | line => 1
  | arc .. => 2
  | curve => 3
  | close => 0

/-- A segment with its points in a list of any length. -/
structure LooseSegment where
  sort : SegmentSort
  points : List (Point Float)
deriving Repr

/-- Loose segments in drawing order. -/
abbrev LooseOutline := List LooseSegment

/-- The sort of a segment. -/
def Segment.sort {α : Type} : Segment α → SegmentSort
  | .move _ => .move
  | .line _ => .line
  | .arc _ _ large sweep => .arc large sweep
  | .curve .. => .curve
  | .close => .close

/-- A segment with its points in a list. -/
def Segment.loose (g : Segment Float) : LooseSegment := ⟨g.sort, g.points⟩

/-- An outline of loose segments. -/
def Outline.loose (o : Outline Float) : LooseOutline := List.map Segment.loose o

/-- The segments of two outlines are loosened one by one. -/
theorem Outline.loose_append (a b : Outline Float) : loose (a ++ b) = loose a ++ loose b :=
  List.map_append

/-- Lines to points are loosened one by one. -/
theorem Outline.loose_lines (ps : List (Point Float)) :
    loose (ps.map .line) = ps.map fun p => (Segment.line p).loose :=
  List.map_map

namespace LooseSegment

/-- Whether a segment has exactly the points of its sort. -/
def Counted (g : LooseSegment) : Prop := g.points.length = g.sort.pointCount

/-- The segment that a loose segment is, if it has exactly the points of its sort. -/
def tight? : LooseSegment → Option (Segment Float)
  | ⟨.move, [p]⟩ => some (.move p)
  | ⟨.line, [p]⟩ => some (.line p)
  | ⟨.arc large sweep, [radii, stop]⟩ => some (.arc radii stop large sweep)
  | ⟨.curve, [c₁, c₂, stop]⟩ => some (.curve c₁ c₂ stop)
  | ⟨.close, []⟩ => some .close
  | _ => none

/-- A segment is that of its loose segment. -/
theorem tight?_loose (g : Segment Float) : g.loose.tight? = some g := by
  cases g <;> rfl

/-- A segment has exactly the points of its sort. -/
theorem counted_loose (g : Segment Float) : g.loose.Counted := by
  cases g <;> rfl

/-- The segments with exactly the points of their sort are the loose segments of segments. -/
theorem loose_of_counted {g : LooseSegment} (h : g.Counted) :
    ∃ s : Segment Float, g.tight? = some s ∧ s.loose = g := by
  obtain ⟨sort, points⟩ := g
  cases sort with
  | move => match points, h with | [p], _ => exact ⟨.move p, rfl, rfl⟩
  | line => match points, h with | [p], _ => exact ⟨.line p, rfl, rfl⟩
  | arc large sweep =>
      match points, h with
      | [radii, stop], _ => exact ⟨.arc radii stop large sweep, rfl, rfl⟩
  | curve =>
      match points, h with
      | [c₁, c₂, stop], _ => exact ⟨.curve c₁ c₂ stop, rfl, rfl⟩
  | close => match points, h with | [], _ => exact ⟨.close, rfl, rfl⟩

/-- Moves a segment by a vector. The radii of an arc do not move, and its end is looked up. -/
def shift (v : Point Float) (g : LooseSegment) : LooseSegment :=
  match g.sort with
  | .arc .. => { g with points := g.points.modify 1 (·.shift v) }
  | _ => { g with points := g.points.map (·.shift v) }

/-- The path data of a segment, if its points are where they are looked up. -/
def chars? (g : LooseSegment) : Option (List Char) :=
  match g.sort with
  | .move => do return 'M' :: ' ' :: (← g.points[0]?).chars
  | .line => do return 'L' :: ' ' :: (← g.points[0]?).chars
  | .arc large sweep => do
    let radii ← g.points[0]?
    let stop ← g.points[1]?
    return 'A' :: ' ' :: (radii.chars ++
      '0' :: ' ' :: flagChar large :: ' ' :: flagChar sweep :: ' ' :: stop.chars)
  | .curve => return 'C' :: ' ' :: g.points.flatMap Point.chars
  | .close => return ['Z', ' ']

/-- The path data of a segment is found, whatever the segment is. -/
theorem chars?_loose (g : Segment Float) : g.loose.chars? = some g.chars := by
  cases g with
  | curve c₁ c₂ stop =>
      show some ('C' :: ' ' :: [c₁, c₂, stop].flatMap Point.chars) = _
      rw [List.flatMap_cons, List.flatMap_cons, List.flatMap_singleton, ← List.append_assoc]
      rfl
  | move _ | line _ | arc _ _ _ _ | close => rfl

/-- A segment may be moved before it is loosened, or after. -/
theorem shift_loose (v : Point Float) (g : Segment Float) :
    (Segment.map (·.shift v) id g).loose = g.loose.shift v := by
  cases g <;> rfl

end LooseSegment

/-! ### Loose outlines -/

namespace LooseOutline

/-- Whether every segment of an outline has exactly the points of its sort. -/
def Counted (o : LooseOutline) : Prop := ∀ g ∈ o, g.Counted

/-- Every segment of an outline has exactly the points of its sort. -/
theorem counted_loose (o : Outline Float) : Counted o.loose := by
  intro g hg
  obtain ⟨s, _, rfl⟩ := List.mem_map.1 hg
  exact LooseSegment.counted_loose s

/-- The path data of an outline, if every point is where it is looked up. -/
def chars? : LooseOutline → Option (List Char)
  | [] => return []
  | g :: rest => return (← g.chars?) ++ (← chars? rest)

/-- The segments from a pen position on, with lines for curves, if every point is where it is
looked up. A line or an arc without points leaves the pen where it is. -/
def flattenFrom? (pen figure : Point Float) : LooseOutline → Option LooseOutline
  | [] => return []
  | g :: rest =>
    match g.sort with
    | .curve => do
      let c₁ ← g.points[0]?
      let c₂ ← g.points[1]?
      let stop ← g.points[2]?
      let lines := (Cubic.mk pen c₁ c₂ stop).flatten.map fun p => (Segment.line p).loose
      return lines ++ (← flattenFrom? stop figure rest)
    | .move => do
      let p ← g.points[0]?
      return g :: (← flattenFrom? p p rest)
    | .close => return g :: (← flattenFrom? figure figure rest)
    | .line | .arc .. => return g :: (← flattenFrom? (g.points.getLast?.getD pen) figure rest)

/-- An outline with lines for curves, if every point is where it is looked up. -/
def flatten? (o : LooseOutline) : Option LooseOutline :=
  flattenFrom? Point.zero Point.zero o

/-- The path data of an outline is found. -/
theorem chars?_loose (o : Outline Float) : chars? o.loose = some o.chars := by
  induction o with
  | nil => rfl
  | cons g rest ih =>
      show (do return (← g.loose.chars?) ++ (← chars? (Outline.loose rest))) = _
      rw [LooseSegment.chars?_loose, ih]
      rfl

/-- Every point that is looked up is there when the curves of a loosened outline are replaced, and
the lines are the same. -/
theorem flattenFrom?_loose (pen figure : Point Float) (o : Outline Float) :
    flattenFrom? pen figure o.loose = some (Outline.flattenFrom pen figure o).loose := by
  induction o generalizing pen figure with
  | nil => rfl
  | cons g rest ih =>
      -- only a curve is replaced, and every command says where the next one starts
      cases g with
      | curve c₁ c₂ stop =>
          show (do return _ ++ (← flattenFrom? stop figure (Outline.loose rest))) = _
          rw [ih, Outline.flattenFrom, Outline.loose_append, Outline.loose_lines]
          rfl
      | move p =>
          show (do return _ :: (← flattenFrom? p p (Outline.loose rest))) = _
          rw [ih]
          rfl
      | line p =>
          show (do return _ :: (← flattenFrom? p figure (Outline.loose rest))) = _
          rw [ih]
          rfl
      | arc radii stop large sweep =>
          show (do return _ :: (← flattenFrom? stop figure (Outline.loose rest))) = _
          rw [ih]
          rfl
      | close =>
          show (do return _ :: (← flattenFrom? figure figure (Outline.loose rest))) = _
          rw [ih]
          rfl

/-- The lines of an outline are found. -/
theorem flatten?_loose (o : Outline Float) : flatten? o.loose = some o.flatten.loose :=
  flattenFrom?_loose Point.zero Point.zero o

/-- An outline of loose segments moves as the outline does. -/
theorem shift_loose (v : Point Float) (o : Outline Float) :
    (o.shift v).loose = o.loose.map (LooseSegment.shift v) := by
  unfold Outline.shift Outline.map Outline.loose
  rw [List.map_map, List.map_map]
  exact List.map_congr_left fun g _ => LooseSegment.shift_loose v g

/-- The segments of an outline that have exactly the points of their sort. -/
def tight (o : LooseOutline) : Outline Float := o.filterMap LooseSegment.tight?

/-- An outline is that of its loose segments. -/
theorem tight_loose (o : Outline Float) : tight o.loose = o := by
  unfold tight Outline.loose
  have hback : LooseSegment.tight? ∘ Segment.loose = some := funext LooseSegment.tight?_loose
  rw [List.filterMap_map, hback, List.filterMap_some]

/-- An outline in which every segment has exactly the points of its sort is kept as it is. -/
theorem loose_tight {o : LooseOutline} (h : o.Counted) : (tight o).loose = o := by
  induction o with
  | nil => rfl
  | cons g rest ih =>
      obtain ⟨s, htight, hloose⟩ := LooseSegment.loose_of_counted (h g List.mem_cons_self)
      have hrest := ih fun g hg => h g (List.mem_cons_of_mem _ hg)
      rw [tight, List.filterMap_cons_some htight]
      show s.loose :: (tight rest).loose = _
      rw [hloose, hrest]

end LooseOutline

/-! ### Services that combine loose regions -/

namespace Clip

/-- A way to combine the current region, if there is one, with a new region, where both are made
of loose segments. -/
abbrev LooseService := Option LooseOutline → LooseOutline → Operation → LooseOutline

namespace LooseService

/-- A service that is given counted segments and gives nothing but counted segments. -/
def Counts (service : LooseService) : Prop :=
  ∀ current incoming op, (∀ o ∈ current, LooseOutline.Counted o) → LooseOutline.Counted incoming →
    LooseOutline.Counted (service current incoming op)

/-- The combiner of outlines that a service is. -/
def combiner (service : LooseService) : Combiner := fun current incoming op =>
  LooseOutline.tight (service (current.map Outline.loose) incoming.loose op)

/-- A service that gives counted segments is a combiner of outlines. -/
theorem combiner_eq {service : LooseService} (h : service.Counts)
    (current : Option (Outline Float)) (incoming : Outline Float) (op : Operation) :
    (service.combiner current incoming op).loose =
      service (current.map Outline.loose) incoming.loose op := by
  refine LooseOutline.loose_tight
    (h _ _ op (fun o ho => ?_) (LooseOutline.counted_loose incoming))
  obtain ⟨region, _, rfl⟩ := Option.map_eq_some_iff.1 ho
  exact LooseOutline.counted_loose region

/-- The plainest service: every operation installs the new region. -/
def replacing : LooseService := fun _ incoming _ => incoming

/-- The plainest service gives the segments that it is given. -/
theorem counts_replacing : replacing.Counts := fun _ _ _ _ hincoming => hincoming

/-- The plainest service is the plainest combiner. -/
theorem combiner_replacing : replacing.combiner = .replacing := by
  funext _ incoming _
  exact LooseOutline.tight_loose incoming

end LooseService

end Clip

end Metafile
