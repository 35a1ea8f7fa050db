import Mathlib.Data.List.Chain
import Mathlib.Data.List.Flatten
import Metafile.Plus.Player

/-!
# `Metafile.Proofs.Plus.PathFigures`: every segment of a path is drawn once

The points of a path come one by one, each with a type. `Path.Group` says which of them belong
together: a start, a line, or the three points of a curve. A curve that is broken off by a start,
by a line or by the end of the path is a group, too, and draws nothing. `Path.exists_groups` cuts
any points into groups, and `Path.outlineFrom_groups` states that groups are drawn one after the
other, each as `Group.outline` says. So path data is written group by group
(`Player.data_groups`).

A type has room for more than the kind of the point. The highest bit closes the figure, which is
written behind the segment that ends there, or at once where the point is not the last one of a
curve. The bits between mean nothing here, and points of other kinds are passed over
(`Path.outlineFrom_filter`).
-/

set_option autoImplicit false

namespace Metafile

namespace Outline

variable {α : Type} (onPoint onRadii : Point Float → Point Float)

/-- The path data of two outlines on the page is written one after the other. -/
theorem chars_map_append (o o' : Outline Float) :
    chars (map onPoint onRadii (o ++ o')) =
      chars (map onPoint onRadii o) ++ chars (map onPoint onRadii o') := by
  rw [map, List.map_append, chars_append]
  rfl

/-- The path data of several outlines on the page is written one after the other. -/
theorem chars_map_flatMap (draw : α → Outline Float) (xs : List α) :
    chars (map onPoint onRadii (xs.flatMap draw)) =
      xs.flatMap fun x => chars (map onPoint onRadii (draw x)) := by
  simp only [chars, map, List.map_flatMap, List.flatMap_assoc]

end Outline

namespace Plus

namespace Path

/-! ### Groups of points -/

/-- A type that closes the figure. -/
abbrev Closes (type : Nat) : Prop := type / 0x80 % 2 = 1

/-- A point whose type has a kind in its lowest bits. The other bits are arbitrary. -/
structure Typed (kind : Nat) where
  point : Point Float
  type : Nat
  kind_eq : type % 8 = kind

/-- A point and its type as a path has them. -/
def Typed.pair {kind : Nat} (p : Typed kind) : Point Float × Nat := (p.point, p.type)

/-- Points of a path that belong together. -/
inductive Group
  | start (p : Typed 0)
  | line (p : Typed 1)
  | curve (c₁ c₂ stop : Typed 3)
  /-- A curve that lacks its last point or its last two points. -/
  | broken (met : List (Typed 3)) (some : met ≠ []) (few : met.length < 3)

/-- The closing that a type asks for. -/
def closing (type : Nat) : Outline Float := if Closes type then [.close] else []

namespace Group

/-- The points of a group with their types. -/
def typed : Group → List (Point Float × Nat)
  | start p => [p.pair]
  | line p => [p.pair]
  | curve c₁ c₂ stop => [c₁.pair, c₂.pair, stop.pair]
  | broken met _ _ => met.map Typed.pair

/-- The points of a group. -/
def points (g : Group) : List (Point Float) := g.typed.map Prod.fst

/-- What is drawn for a group. -/
def outline : Group → Outline Float
  | start p => .move p.point :: closing p.type
  | line p => .line p.point :: closing p.type
  | curve c₁ c₂ stop =>
    closing c₁.type ++
      (closing c₂.type ++ .curve c₁.point c₂.point stop.point :: closing stop.type)
  | broken met _ _ => met.flatMap fun c => closing c.type

/-- A start or a line. -/
def IsFresh : Group → Prop
  | start _ => True
  | line _ => True
  | _ => False

/-- What may follow a group: a curve is broken off by a start or by a line only. -/
def Precedes : Group → Group → Prop
  | broken .., g => g.IsFresh
  | _, _ => True

end Group

/-! ### Drawing group by group -/

variable {met : List (Point Float)} {rest : List (Point Float × Nat)}

/-- One point of a path. -/
theorem outlineFrom_cons (p : Point Float) (type : Nat) :
    outlineFrom met ((p, type) :: rest) =
      match type % 8 with
      | 0 => .move p :: (closing type ++ outlineFrom [] rest)
      | 1 => .line p :: (closing type ++ outlineFrom [] rest)
      | 3 =>
        match met with
        | [c₁, c₂] => .curve c₁ c₂ p :: (closing type ++ outlineFrom [] rest)
        | _ => closing type ++ outlineFrom (met ++ [p]) rest
      | _ => outlineFrom met rest := by
  rw [outlineFrom.eq_def]
  rfl

/-- A start or a line is drawn in the same way whatever points of a curve are met before it. -/
theorem outlineFrom_fresh {g : Group} (hg : g.IsFresh) :
    outlineFrom met (g.typed ++ rest) = g.outline ++ outlineFrom [] rest := by
  cases g with
  | start p =>
      rw [Group.typed, Typed.pair, List.singleton_append, outlineFrom_cons, p.kind_eq]
      rfl
  | line p =>
      rw [Group.typed, Typed.pair, List.singleton_append, outlineFrom_cons, p.kind_eq]
      rfl
  | curve => cases hg
  | broken => cases hg

/-- A point of a curve waits for the third one. -/
theorem outlineFrom_wait (hmet : met.length < 2) (c : Typed 3) :
    outlineFrom met (c.pair :: rest) = closing c.type ++ outlineFrom (met ++ [c.point]) rest := by
  rw [Typed.pair, outlineFrom_cons, c.kind_eq]
  rcases met with _ | ⟨c₁, _ | ⟨c₂, more⟩⟩
  · rfl
  · rfl
  · simp only [List.length_cons] at hmet
    omega

/-- The third point of a curve completes it, and what it closes is closed behind it. -/
theorem outlineFrom_complete (c₁ c₂ : Point Float) (stop : Typed 3) :
    outlineFrom [c₁, c₂] (stop.pair :: rest) =
      .curve c₁ c₂ stop.point :: (closing stop.type ++ outlineFrom [] rest) := by
  rw [Typed.pair, outlineFrom_cons, stop.kind_eq]
  rfl

/-- The three points of a curve draw it. Of the first two only a closing is drawn before. -/
theorem outlineFrom_curve (c₁ c₂ stop : Typed 3) :
    outlineFrom [] ((Group.curve c₁ c₂ stop).typed ++ rest) =
      (Group.curve c₁ c₂ stop).outline ++ outlineFrom [] rest := by
  show outlineFrom [] (c₁.pair :: c₂.pair :: stop.pair :: rest) = _
  rw [outlineFrom_wait (by decide), List.nil_append, outlineFrom_wait (by simp),
    List.singleton_append, outlineFrom_complete]
  simp only [Group.outline, List.append_assoc, List.cons_append]

/-- Fewer than three points of a curve draw nothing but what they close. -/
theorem outlineFrom_broken (cs : List (Typed 3)) (hfew : met.length + cs.length < 3) :
    outlineFrom met (cs.map Typed.pair ++ rest) =
      (cs.flatMap fun c => closing c.type) ++ outlineFrom (met ++ cs.map Typed.point) rest := by
  induction cs generalizing met with
  | nil => simp
  | cons c cs ih =>
      rw [List.length_cons] at hfew
      rw [List.map_cons, List.cons_append, outlineFrom_wait (by omega), ih (by simp; omega)]
      simp only [List.flatMap_cons, List.append_assoc, List.map_cons, List.singleton_append]

/-- Groups are drawn one after the other. -/
theorem outlineFrom_groups {groups : List Group} (h : groups.IsChain Group.Precedes) :
    outlineFrom [] (groups.flatMap Group.typed) = groups.flatMap Group.outline := by
  induction groups with
  | nil => rfl
  | cons g groups ih =>
      have htail := ih h.tail
      rw [List.flatMap_cons, List.flatMap_cons, ← htail]
      cases g with
      | start p => exact outlineFrom_fresh trivial
      | line p => exact outlineFrom_fresh trivial
      | curve c₁ c₂ stop => exact outlineFrom_curve c₁ c₂ stop
      | broken cs hsome hfew =>
          refine (outlineFrom_broken cs (by simpa using hfew)).trans (congrArg (_ ++ ·) ?_)
          -- what follows a broken curve does not look at the points that were met
          cases groups with
          | nil => rfl
          | cons next groups =>
              have hfresh : next.IsFresh := (List.isChain_cons_cons.mp h).1
              rw [List.flatMap_cons, outlineFrom_fresh hfresh, outlineFrom_fresh hfresh]

/-! ### Cutting points into groups -/

/-- The kinds of points that are drawn: a start, a line and a point of a curve. -/
def isDrawn (q : Point Float × Nat) : Bool := q.2 % 8 == 0 || q.2 % 8 == 1 || q.2 % 8 == 3

/-- Points of other kinds are passed over, whatever other bits their types have. -/
theorem outlineFrom_filter (met : List (Point Float)) (typed : List (Point Float × Nat)) :
    outlineFrom met typed = outlineFrom met (typed.filter isDrawn) := by
  induction typed generalizing met with
  | nil => rfl
  | cons q rest ih =>
      obtain ⟨p, type⟩ := q
      by_cases hdrawn : isDrawn (p, type)
      · rw [List.filter_cons_of_pos hdrawn, outlineFrom_cons, outlineFrom_cons]
        simp only [← ih]
      · rw [List.filter_cons_of_neg hdrawn, ← ih, outlineFrom_cons]
        simp only [isDrawn, Bool.or_eq_true, beq_iff_eq, not_or] at hdrawn
        split
        · exact absurd ‹_› hdrawn.1.1
        · exact absurd ‹_› hdrawn.1.2
        · exact absurd ‹_› hdrawn.2
        · rfl

/-- In front of a start or a line, some points of a curve are a group of their own. -/
theorem exists_groups_fresh (met : List (Typed 3)) (hfew : met.length < 3) {g : Group}
    (hg : g.IsFresh) {groups : List Group} (h : (g :: groups).IsChain Group.Precedes) :
    ∃ groups' : List Group, groups'.IsChain Group.Precedes ∧
      groups'.flatMap Group.typed = met.map Typed.pair ++ (g :: groups).flatMap Group.typed := by
  by_cases hmet : met = []
  · subst hmet
    exact ⟨g :: groups, h, rfl⟩
  · exact ⟨.broken met hmet hfew :: g :: groups, List.isChain_cons_cons.mpr ⟨hg, h⟩, rfl⟩

/-- Points that are drawn can be cut into groups, also where some points of a curve are met before
them. -/
theorem exists_groups (met : List (Typed 3)) (hfew : met.length < 3)
    {typed : List (Point Float × Nat)} (h : ∀ q ∈ typed, isDrawn q) :
    ∃ groups : List Group, groups.IsChain Group.Precedes ∧
      groups.flatMap Group.typed = met.map Typed.pair ++ typed := by
  -- by induction on the points, with up to two points of a curve that wait
  induction typed generalizing met with
  | nil =>
      by_cases hmet : met = []
      · subst hmet
        exact ⟨[], .nil, rfl⟩
      · exact ⟨[.broken met hmet hfew], .singleton _, by simp [Group.typed]⟩
  | cons q rest ih =>
      obtain ⟨hq, hrest⟩ := List.forall_mem_cons.mp h
      obtain ⟨p, type⟩ := q
      simp only [isDrawn, Bool.or_eq_true, beq_iff_eq] at hq
      obtain ⟨groups, hchain, hgroups⟩ := ih [] (by decide) hrest
      -- a start or a line breaks off what waits
      rcases hq with (hstart | hline) | hcurve
      · obtain ⟨groups', hchain', hgroups'⟩ := exists_groups_fresh met hfew
          (g := .start ⟨p, type, hstart⟩) trivial
            (List.isChain_cons.mpr ⟨fun _ _ => trivial, hchain⟩)
        exact ⟨groups', hchain', by rw [hgroups', List.flatMap_cons, hgroups]; rfl⟩
      · obtain ⟨groups', hchain', hgroups'⟩ := exists_groups_fresh met hfew
          (g := .line ⟨p, type, hline⟩) trivial
            (List.isChain_cons.mpr ⟨fun _ _ => trivial, hchain⟩)
        exact ⟨groups', hchain', by rw [hgroups', List.flatMap_cons, hgroups]; rfl⟩
      · -- the point is the third one of a curve, or one more that waits
        by_cases hthird : met.length = 2
        · obtain ⟨c₁, c₂, rfl⟩ := List.length_eq_two.mp hthird
          refine ⟨.curve c₁ c₂ ⟨p, type, hcurve⟩ :: groups,
            List.isChain_cons.mpr ⟨fun _ _ => trivial, hchain⟩, ?_⟩
          rw [List.flatMap_cons, hgroups]
          rfl
        · obtain ⟨groups', hchain', hgroups'⟩ :=
            ih (met ++ [⟨p, type, hcurve⟩]) (by rw [List.length_append]; simp; omega) hrest
          refine ⟨groups', hchain', ?_⟩
          rw [hgroups', List.map_append, List.append_assoc]
          rfl

/-- A path is drawn group by group, from the points that are drawn at all. -/
theorem exists_outline_groups (path : Path) :
    ∃ groups : List Group, groups.IsChain Group.Precedes ∧
      (path.points.zip path.types).filter isDrawn = groups.flatMap Group.typed ∧
      path.outline = groups.flatMap Group.outline := by
  have hdrawn : ∀ q ∈ (path.points.zip path.types).filter isDrawn, isDrawn q :=
    fun q hq => (List.mem_filter.mp hq).2
  obtain ⟨groups, hchain, hgroups⟩ := exists_groups [] (by decide) hdrawn
  refine ⟨groups, hchain, hgroups.symm, ?_⟩
  rw [← outlineFrom_groups hchain, hgroups, outline, outlineFrom_filter]
  rfl

/-! ### Which points are drawn -/

namespace Group

/-- Of its points, a group draws each one once at most. -/
theorem points_sublist (g : Group) :
    (g.outline.flatMap Segment.points).Sublist g.points := by
  have hclosing (type : Nat) : (closing type).flatMap Segment.points = [] := by
    unfold closing
    split <;> rfl
  cases g with
  | start p => simp [outline, points, typed, Typed.pair, Segment.points, hclosing]
  | line p => simp [outline, points, typed, Typed.pair, Segment.points, hclosing]
  | curve c₁ c₂ stop => simp [outline, points, typed, Typed.pair, Segment.points, hclosing]
  | broken met _ _ =>
      have hnone : (outline (.broken met ‹_› ‹_›)).flatMap Segment.points = [] := by
        simp only [outline, List.flatMap_assoc, hclosing, List.flatMap_eq_nil_iff, implies_true]
      rw [hnone]
      exact List.nil_sublist _

/-- A group that draws a curve has the three points of it. -/
theorem eq_of_curve_mem {g : Group} {p₁ p₂ p₃ : Point Float} (h : .curve p₁ p₂ p₃ ∈ g.outline) :
    ∃ t₁ t₂ t₃, g.typed = [(p₁, t₁), (p₂, t₂), (p₃, t₃)] ∧
      t₁ % 8 = 3 ∧ t₂ % 8 = 3 ∧ t₃ % 8 = 3 := by
  have hclosing (type : Nat) : Segment.curve p₁ p₂ p₃ ∉ closing type := by
    unfold closing
    split <;> simp
  cases g with
  | start p => simp [outline, hclosing] at h
  | line p => simp [outline, hclosing] at h
  | curve c₁ c₂ stop =>
      simp only [outline, List.mem_append, List.mem_cons, hclosing, false_or, or_false,
        Segment.curve.injEq] at h
      obtain ⟨rfl, rfl, rfl⟩ := h
      exact ⟨_, _, _, rfl, c₁.kind_eq, c₂.kind_eq, stop.kind_eq⟩
  | broken met _ _ => simp [outline, hclosing] at h

end Group

/-- No point of a path is drawn twice. -/
theorem points_outline_sublist (path : Path) :
    (path.outline.flatMap Segment.points).Sublist path.points := by
  obtain ⟨groups, _, hgroups, houtline⟩ := path.exists_outline_groups
  have hdrawn : (path.outline.flatMap Segment.points).Sublist (groups.flatMap Group.points) := by
    rw [houtline, List.flatMap_assoc]
    exact List.Sublist.flatMap_right groups fun g _ => g.points_sublist
  have hpoints : groups.flatMap Group.points =
      ((path.points.zip path.types).filter isDrawn).map Prod.fst := by
    rw [hgroups, List.map_flatMap]
    rfl
  have hzip : (path.points.zip path.types).map Prod.fst = path.points.take path.types.length := by
    rw [List.zip_eq_zip_take_min, List.map_fst_zip (by simp), List.take_eq_take_iff]
    simp [Nat.min_comm]
  rw [hpoints] at hdrawn
  refine hdrawn.trans ((List.filter_sublist.map Prod.fst).trans ?_)
  rw [hzip]
  exact List.take_sublist _ _

/-- The three points of a curve follow one another, but for the points that are passed over. -/
theorem consecutive_of_curve_mem {path : Path} {p₁ p₂ p₃ : Point Float}
    (h : .curve p₁ p₂ p₃ ∈ path.outline) :
    ∃ before after t₁ t₂ t₃, (path.points.zip path.types).filter isDrawn =
      before ++ (p₁, t₁) :: (p₂, t₂) :: (p₃, t₃) :: after ∧
        t₁ % 8 = 3 ∧ t₂ % 8 = 3 ∧ t₃ % 8 = 3 := by
  obtain ⟨groups, _, hgroups, houtline⟩ := path.exists_outline_groups
  rw [houtline] at h
  obtain ⟨g, hg, hcurve⟩ := List.mem_flatMap.mp h
  obtain ⟨t₁, t₂, t₃, htyped, hkinds⟩ := Group.eq_of_curve_mem hcurve
  obtain ⟨before, after, rfl⟩ := List.append_of_mem hg
  refine ⟨before.flatMap Group.typed, after.flatMap Group.typed, t₁, t₂, t₃, ?_, hkinds⟩
  rw [hgroups, List.flatMap_append, List.flatMap_cons, htyped]
  rfl

/-! ### Figures -/

namespace Group

/-- A line, or a curve that closes nothing before its last point. -/
inductive Continues : Group → Prop
  | line (p : Typed 1) : Continues (.line p)
  | curve {c₁ c₂ : Typed 3} (h₁ : ¬Closes c₁.type) (h₂ : ¬Closes c₂.type) (stop : Typed 3) :
      Continues (.curve c₁ c₂ stop)

/-- Whether the last point of a group closes the figure. -/
def EndsClosed : Group → Prop
  | start p => Closes p.type
  | line p => Closes p.type
  | curve _ _ stop => Closes stop.type
  | broken .. => False

/-- Whether a group closes the figure is seen from the type of its last point. -/
instance : DecidablePred EndsClosed := fun g =>
  match g with
  | start p => inferInstanceAs (Decidable (Closes p.type))
  | line p => inferInstanceAs (Decidable (Closes p.type))
  | curve _ _ stop => inferInstanceAs (Decidable (Closes stop.type))
  | broken .. => inferInstanceAs (Decidable False)

section Text

variable (write : Point Float → List Char)

/-- The command of a group, if points are written in some way: a letter, and then each point. -/
def command : Group → List Char
  | start p => 'M' :: ' ' :: write p.point
  | line p => 'L' :: ' ' :: write p.point
  | curve c₁ c₂ stop => 'C' :: ' ' :: (write c₁.point ++ write c₂.point ++ write stop.point)
  | broken .. => []

/-- The text of a closing that a type asks for. -/
def closingChars (type : Nat) : List Char := if Closes type then ['Z', ' '] else []

/-- The path data of a group. A point of a curve that closes the figure before the curve is
complete does so at once. -/
def chars : Group → List Char
  | start p => command write (.start p) ++ closingChars p.type
  | line p => command write (.line p) ++ closingChars p.type
  | curve c₁ c₂ stop =>
    closingChars c₁.type ++ closingChars c₂.type ++
      (command write (.curve c₁ c₂ stop) ++ closingChars stop.type)
  | broken met _ _ => met.flatMap fun c => closingChars c.type

/-- A closing is written in the same way wherever the figure lies. -/
theorem chars_map_closing (onPage : Point Float → Point Float) (type : Nat) :
    Outline.chars (Outline.map onPage id (closing type)) = closingChars type := by
  unfold closing closingChars
  split <;> rfl

/-- A group that is drawn on the page is written with its points on the page. -/
theorem chars_map_outline (onPage : Point Float → Point Float) (g : Group) :
    Outline.chars (Outline.map onPage id g.outline) = g.chars fun q => (onPage q).chars := by
  cases g with
  | start p => exact congrArg (_ ++ ·) (chars_map_closing onPage p.type)
  | line p => exact congrArg (_ ++ ·) (chars_map_closing onPage p.type)
  | curve c₁ c₂ stop =>
      have hstop : Outline.chars (Outline.map onPage id
          (.curve c₁.point c₂.point stop.point :: closing stop.type)) =
          command (fun q => (onPage q).chars) (.curve c₁ c₂ stop) ++ closingChars stop.type :=
        congrArg (_ ++ ·) (chars_map_closing onPage stop.type)
      rw [outline, Outline.chars_map_append, Outline.chars_map_append, hstop, chars_map_closing,
        chars_map_closing, chars, List.append_assoc]
  | broken met _ _ =>
      rw [outline, Outline.chars_map_flatMap]
      simp only [chars_map_closing, chars]

end Text

end Group

/-- Figures one after the other: each is a start, and then lines and curves. -/
inductive Figures : List Group → Prop
  | nil : Figures []
  | figure (start : Typed 0) {parts groups : List Group} (hparts : ∀ g ∈ parts, g.Continues)
      (h : Figures groups) : Figures (.start start :: (parts ++ groups))

/-- In figures no curve is broken, and curves close nothing before their last point. -/
theorem Figures.mem_cases {groups : List Group} (h : Figures groups) {g : Group}
    (hg : g ∈ groups) :
    (∃ p, g = .start p) ∨ g.Continues := by
  induction h with
  | nil => cases hg
  | @figure start parts groups hparts _ ih =>
      rcases List.mem_cons.mp hg with rfl | hg
      · exact .inl ⟨start, rfl⟩
      · rcases List.mem_append.mp hg with hg | hg
        · exact .inr (hparts g hg)
        · exact ih hg

/-- A group of a figure is one command, and a closing where its last point closes the figure. -/
theorem Figures.chars_eq {groups : List Group} (h : Figures groups) {g : Group} (hg : g ∈ groups)
    (write : Point Float → List Char) :
    g.chars write = g.command write ++ if g.EndsClosed then ['Z', ' '] else [] := by
  rcases h.mem_cases hg with ⟨p, rfl⟩ | ⟨p⟩ | ⟨h₁, h₂, stop⟩
  · rfl
  · rfl
  · rw [Group.chars, Group.closingChars, Group.closingChars, if_neg h₁, if_neg h₂]
    rfl

/-- The groups of figures can follow each other, for none of them is broken off. -/
theorem Figures.isChain {groups : List Group} (h : Figures groups) :
    groups.IsChain Group.Precedes := by
  refine (List.pairwise_of_forall_mem_list fun g hg g' _ => ?_).isChain
  rcases h.mem_cases hg with ⟨p, rfl⟩ | ⟨p⟩ | ⟨h₁, h₂, stop⟩ <;> trivial

end Path

namespace Player

open Plus.Path (Group Figures)

variable (p : Player) (scale : Float)

/-- The characters of a point on the page. -/
def pointChars (q : Point Float) : List Char := (p.point scale q).chars

/-- Path data is written group by group. -/
theorem data_groups {path : Path} {groups : List Group}
    (h : path.outline = groups.flatMap Group.outline) :
    p.data scale path.outline =
      String.ofList (Outline.trimBlanks (groups.flatMap (Group.chars (p.pointChars scale)))) := by
  rw [data, Outline.data, h, Outline.chars_map_flatMap]
  simp only [Group.chars_map_outline]
  rfl

/-- Where the types of a path are a sequence of figures, path data has one command for each group
of points, in their order, and the command writes each of them. A `Z` stands behind the groups
that close the figure and nowhere else.

Whatever the types are, the points that are drawn are cut into groups, and path data is what the
groups are written as. A broken curve is written without coordinates. No point is drawn twice, and
the three points of a curve follow one another, but for points that are passed over. -/
theorem data_figures :
    (∀ (path : Path) (groups : List Group), Figures groups →
      path.points.length = path.types.length →
      path.points.zip path.types = groups.flatMap Group.typed →
        path.points = groups.flatMap Group.points ∧
        p.data scale path.outline = String.ofList (Outline.trimBlanks (groups.flatMap fun g =>
          g.command (p.pointChars scale) ++ if g.EndsClosed then ['Z', ' '] else []))) ∧
    ∀ path : Path,
      (∃ groups : List Group, groups.IsChain Group.Precedes ∧
        (path.points.zip path.types).filter Path.isDrawn = groups.flatMap Group.typed ∧
        p.data scale path.outline =
          String.ofList
            (Outline.trimBlanks (groups.flatMap (Group.chars (p.pointChars scale))))) ∧
      (path.outline.flatMap Segment.points).Sublist path.points ∧
      ∀ p₁ p₂ p₃, .curve p₁ p₂ p₃ ∈ path.outline →
        ∃ before after t₁ t₂ t₃, (path.points.zip path.types).filter Path.isDrawn =
          before ++ (p₁, t₁) :: (p₂, t₂) :: (p₃, t₃) :: after ∧
            t₁ % 8 = 3 ∧ t₂ % 8 = 3 ∧ t₃ % 8 = 3 := by
  refine ⟨fun path groups hfigures hlength hzip => ⟨?_, ?_⟩, fun path => ⟨?_, ?_, ?_⟩⟩
  · have hpoints := congrArg (List.map Prod.fst) hzip
    rwa [List.map_fst_zip (Nat.le_of_eq hlength), List.map_flatMap] at hpoints
  · have houtline : path.outline = groups.flatMap Group.outline := by
      rw [Path.outline, hzip, Path.outlineFrom_groups hfigures.isChain]
    -- a figure that ends closed has its command followed by the letter that closes
    have hchars : (groups.flatMap (Group.chars (p.pointChars scale))) = groups.flatMap fun g =>
        g.command (p.pointChars scale) ++ if g.EndsClosed then ['Z', ' '] else [] :=
      List.flatMap_congr fun g hg => hfigures.chars_eq hg _
    rw [p.data_groups scale houtline, hchars]
  · obtain ⟨groups, hchain, hgroups, houtline⟩ := path.exists_outline_groups
    exact ⟨groups, hchain, hgroups, p.data_groups scale houtline⟩
  · exact path.points_outline_sublist
  · intro p₁ p₂ p₃ h
    exact Path.consecutive_of_curve_mem h

/-- A figure with a curve and a line, closed by the last point and nowhere else. The bits of the
types that mean nothing are set in two of them. -/
theorem data_figures_closed :
    let path : Path := ⟨[⟨0, 0⟩, ⟨1, 0⟩, ⟨2, 1⟩, ⟨2, 2⟩, ⟨0, 2⟩], [0x10, 3, 0x23, 3, 0x81]⟩
    Player.initial.data 1 path.outline = "M 0,0 C 1,0 2,1 2,2 L 0,2 Z" := by
  intro path
  let start : Path.Typed 0 := ⟨⟨0, 0⟩, 0x10, rfl⟩
  let curve : Group := .curve ⟨⟨1, 0⟩, 3, rfl⟩ ⟨⟨2, 1⟩, 0x23, rfl⟩ ⟨⟨2, 2⟩, 3, rfl⟩
  let line : Group := .line ⟨⟨0, 2⟩, 0x81, rfl⟩
  have hparts : ∀ g ∈ [curve, line], g.Continues := by
    simp only [List.forall_mem_cons, List.not_mem_nil, false_implies, implies_true, and_true]
    exact ⟨.curve (by decide) (by decide) _, .line _⟩
  have hfigures : Figures [.start start, curve, line] := .figure start hparts .nil
  obtain ⟨_, hdata⟩ := (data_figures Player.initial 1).1 path _ hfigures rfl rfl
  rw [hdata]
  decide +kernel

end Player

end Plus

end Metafile
