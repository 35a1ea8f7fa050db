import Metafile.Proofs.Record.Walk

/-!
# `Metafile.Proofs.Record.Paints`: which records paint a path

The records that fill or stroke a path come after its bracket, when its element is already
written. The walk over the stream notes them at the bracket that was begun last. This module says
which records those are: `ownRecords k` are the records between the beginning of the `k`-th
bracket and the beginning of the next one, and `Survey.painted_of_begin` shows that the entry of a
bracket is stroked or filled exactly if one of its own records says so.

How brackets are ended, aborted or left open plays no part. `Walk.painted_step` is the step of the
walk, and `Walk.painted_run` follows one entry through the rest of the stream: the next record
that begins a bracket puts a newer entry before it, and after that it is settled.
-/

set_option autoImplicit false

namespace Metafile.Record

namespace Entry

/-- Whether a record begins a path bracket. -/
def beginsPath (e : Entry) : Bool := e.kind? == some .beginPath

/-- Whether a record asks for the line of the last path to be drawn. -/
def strokesPath (e : Entry) : Bool :=
  [some Kind.strokePath, some .strokeAndFillPath].contains e.kind?

/-- Whether a record asks for the inside of the last path to be drawn. -/
def fillsPath (e : Entry) : Bool :=
  [some Kind.fillPath, some .strokeAndFillPath].contains e.kind?

/-- A record that draws or that changes the world transform does not paint. -/
theorem not_paints {e : Entry} {kind : Kind} (hkind : e.kind? = some kind)
    (h : kind.drawsGeometry = true ∨ kind = .setWorldTransform ∨ kind = .modifyWorldTransform) :
    e.strokesPath = false ∧ e.fillsPath = false := by
  unfold strokesPath fillsPath
  rw [hkind]
  cases kind <;> first | exact ⟨rfl, rfl⟩ | simp [Kind.drawsGeometry] at h

end Entry

/-! ### The records of a bracket -/

/-- The records after the one that begins the `k`-th bracket. The first bracket has the number 1,
and all records come after the bracket 0. -/
def afterBegin : Nat → List Entry → List Entry
  | 0, records => records
  | k + 1, records => afterBegin k (records.dropWhile (!·.beginsPath)).tail

/-- The records that belong to the `k`-th bracket: those after the record that begins it and
before the record that begins the next one. -/
def ownRecords (k : Nat) (records : List Entry) : List Entry :=
  (afterBegin k records).takeWhile (!·.beginsPath)

/-- A record that begins a bracket is counted by the brackets up to it. -/
theorem afterBegin_begins {b : Entry} (hbegin : b.beginsPath = true)
    (opened rest : List Entry) : afterBegin (begins opened + 1) (opened ++ b :: rest) = rest := by
  -- each record that begins a bracket takes one from the number, and the others are passed over
  induction opened with
  | nil =>
      change (((b :: rest).dropWhile (!·.beginsPath)).tail) = rest
      rw [List.dropWhile_cons_of_neg (by simp [hbegin])]
      rfl
  | cons e opened ih =>
      cases he : e.beginsPath with
      | true =>
          have hcount : begins (e :: opened) = begins opened + 1 := List.countP_cons_of_pos he
          rw [hcount, afterBegin, List.cons_append, List.dropWhile_cons_of_neg (by simp [he])]
          exact ih
      | false =>
          have hcount : begins (e :: opened) = begins opened :=
            List.countP_cons_of_neg (Bool.eq_false_iff.1 he)
          rw [hcount, afterBegin, List.cons_append, List.dropWhile_cons_of_pos (by simp [he])]
          exact ih

/-- The records of a bracket are those up to the next beginning. -/
theorem ownRecords_begins {b : Entry} (hbegin : b.beginsPath = true) (opened rest : List Entry) :
    ownRecords (begins opened + 1) (opened ++ b :: rest) = rest.takeWhile (!·.beginsPath) := by
  rw [ownRecords, afterBegin_begins hbegin]

/-! ### What the walk notes -/

namespace PathUse

/-- How the path of a bracket is painted: whether it is stroked, and whether it is filled. -/
def painted (p : PathUse) : Bool × Bool := (p.isStroked, p.isFilled)

/-- A change of the world transform does not paint. -/
theorem painted_defer (drawn : Bool) (t : TransformChange) (p : PathUse) :
    (p.defer drawn t).painted = p.painted := by
  unfold defer
  split <;> rfl

end PathUse

/-- What one more record adds to the paint of the last path. -/
def paintedAfter (e : Entry) (paint : Bool × Bool) : Bool × Bool :=
  (paint.1 || e.strokesPath, paint.2 || e.fillsPath)

/-- Noting a record adds its paint. -/
theorem PathUse.painted_note {e : Entry} {kind : Kind} (hkind : e.kind? = some kind)
    (offset : Nat) (p : PathUse) : (p.note offset kind).painted = paintedAfter e p.painted := by
  unfold paintedAfter Entry.strokesPath Entry.fillsPath
  rw [hkind]
  unfold PathUse.note
  split
  case h_1 | h_2 | h_3 => simp [painted, isStroked, isFilled]
  case h_4 | h_5 | h_6 | h_7 => simp [painted, isStroked, isFilled]
  case h_8 hfill hstroke hboth _ _ _ _ =>
    -- none of the kinds that paint is left
    have hnot : kind ≠ .fillPath ∧ kind ≠ .strokePath ∧ kind ≠ .strokeAndFillPath :=
      ⟨hfill, hstroke, hboth⟩
    simp [painted, hnot]

/-- A record of a kind that does not paint leaves the paint as it is. -/
theorem paintedAfter_other {e : Entry} (hstroke : e.strokesPath = false)
    (hfill : e.fillsPath = false) (paint : Bool × Bool) : paintedAfter e paint = paint := by
  rw [paintedAfter, hstroke, hfill, Bool.or_false, Bool.or_false]

namespace Walk

/-- A change of the last path is a change of the head of the list. -/
theorem amend_paths (f : PathUse → PathUse) (w : Walk) :
    (w.amend f).paths = w.paths.modifyHead f := by
  unfold amend
  cases hpaths : w.paths with
  | nil => rw [hpaths]; rfl
  | cons p rest => rfl

/-- A change of the last path changes its paint. -/
theorem painted_amend {f : PathUse → PathUse} {e : Entry}
    (hf : ∀ p, (f p).painted = paintedAfter e p.painted) (w : Walk) :
    (w.amend f).paths.map PathUse.painted =
      (w.paths.map PathUse.painted).modifyHead (paintedAfter e) := by
  rw [amend_paths]
  cases w.paths with
  | nil => rfl
  | cons p rest => exact congrArg (· :: _) (hf p)

/-- A record that does not paint leaves the paint of the last path as it is. -/
theorem modifyHead_paintedAfter {e : Entry} (hstroke : e.strokesPath = false)
    (hfill : e.fillsPath = false) (paints : List (Bool × Bool)) :
    paints.modifyHead (paintedAfter e) = paints := by
  cases paints with
  | nil => rfl
  | cons paint rest => exact congrArg (· :: rest) (paintedAfter_other hstroke hfill paint)

/-- The walk over one record puts a path that is not painted yet before the others, or it adds the
paint of the record to the last path. -/
theorem painted_step {w v : Walk} {e : Entry} (h : w.observe e = .ok v) :
    v.paths.map PathUse.painted =
      if e.beginsPath then (false, false) :: w.paths.map PathUse.painted
      else (w.paths.map PathUse.painted).modifyHead (paintedAfter e) := by
  replace h := note_of_observe h
  unfold note at h
  -- a record without a kind, the two ends of a bracket, a comment, and all other kinds
  split at h
  case h_1 hkind | h_3 hkind | h_4 hkind =>
    obtain rfl := Except.ok.inj h
    rw [if_neg (by simp [Entry.beginsPath, hkind]), modifyHead_paintedAfter
      (by simp [Entry.strokesPath, hkind]) (by simp [Entry.fillsPath, hkind])]
  case h_2 hkind =>
    obtain rfl := Except.ok.inj h
    rw [if_pos (by simp [Entry.beginsPath, hkind])]
    rfl
  case h_5 kind hbegin _ _ hkind =>
    rw [if_neg (by simpa [Entry.beginsPath, hkind] using hbegin)]
    split at h
    · -- a change of the world transform inside of a bracket
      rename_i hdefer
      rw [Bool.and_eq_true, Bool.or_eq_true, beq_iff_eq, beq_iff_eq] at hdefer
      obtain ⟨hstroke, hfill⟩ := Entry.not_paints hkind (Or.inr hdefer.2)
      split at h
      · obtain rfl := Except.ok.inj h
        refine painted_amend (fun p => ?_) _
        rw [PathUse.painted_defer, paintedAfter_other hstroke hfill]
      · cases h
    · split at h
      · -- a record that draws
        rename_i hdraws
        obtain ⟨hstroke, hfill⟩ :=
          Entry.not_paints hkind (Or.inl (Bool.and_eq_true_iff.1 hdraws).2)
        obtain rfl := Except.ok.inj h
        rw [modifyHead_paintedAfter hstroke hfill]
      · obtain rfl := Except.ok.inj h
        exact painted_amend (PathUse.painted_note hkind e.offset) _

/-- What the records of a list add to the paint of the last path before the next bracket begins.
-/
def paintedBy (records : List Entry) (paint : Bool × Bool) : Bool × Bool :=
  (paint.1 || (records.takeWhile (!·.beginsPath)).any Entry.strokesPath,
    paint.2 || (records.takeWhile (!·.beginsPath)).any Entry.fillsPath)

/-- The walk over more records adds the paint of those up to the next beginning to the last path,
and leaves the paths before it as they are. -/
theorem painted_run {records : List Entry} {v w : Walk} {paint : Bool × Bool}
    {older : List (Bool × Bool)} (h : records.foldlM observe v = .ok w)
    (hv : v.paths.map PathUse.painted = paint :: older) :
    ∃ newer, w.paths.map PathUse.painted = newer ++ paintedBy records paint :: older := by
  -- from the front, because the next beginning is what settles the path
  induction records generalizing v paint older with
  | nil =>
      obtain rfl : v = w := Except.ok.inj h
      exact ⟨[], by rw [hv, paintedBy]; simp⟩
  | cons e rest ih =>
      obtain ⟨u, hu, hafter⟩ := foldlM_observe_cons h
      have hstep := painted_step hu
      rw [hv] at hstep
      cases he : e.beginsPath with
      | true =>
          -- a newer path takes what comes, and this one is settled
          rw [if_pos he] at hstep
          obtain ⟨newer, hw⟩ := ih hafter hstep
          refine ⟨newer ++ [paintedBy rest (false, false)], ?_⟩
          have hown : paintedBy (e :: rest) paint = paint := by
            rw [paintedBy, List.takeWhile_cons_of_neg (by simp [he])]
            simp
          rw [hw, hown, List.append_assoc]
          rfl
      | false =>
          rw [if_neg (Bool.eq_false_iff.1 he)] at hstep
          obtain ⟨newer, hw⟩ := ih hafter hstep
          refine ⟨newer, ?_⟩
          have hown : paintedBy (e :: rest) paint = paintedBy rest (paintedAfter e paint) := by
            simp only [paintedBy, paintedAfter]
            rw [List.takeWhile_cons_of_pos (by simp [he]), List.any_cons, List.any_cons,
              Bool.or_assoc, Bool.or_assoc]
          rw [hw, hown]

end Walk

/-- Every record that begins a bracket has its path, and the path is stroked or filled exactly if
one of the records between it and the next beginning says so. -/
theorem Survey.painted_of_begin {stream : Bytes} {survey : Survey}
    (h : Survey.ofBytes stream = .ok survey) {opened rest : List Entry} {b : Entry}
    (hsplit : survey.entries = opened ++ b :: rest) (hbegin : b.beginsPath = true) :
    ∃ use, survey.paths[begins opened]? = some use ∧
      use.isStroked = (ownRecords (begins opened + 1) survey.entries).any Entry.strokesPath ∧
      use.isFilled = (ownRecords (begins opened + 1) survey.entries).any Entry.fillsPath := by
  obtain ⟨_, w, hwalk, hpaths⟩ := ofBytes_eq_ok h
  rw [hsplit, ownRecords_begins hbegin]
  rw [hsplit] at hwalk
  obtain ⟨v, hv, hfrom⟩ := Walk.ofEntries_append hwalk
  obtain ⟨u, hu, hafter⟩ := Walk.foldlM_observe_cons hfrom
  -- after the record that begins the bracket its path is the last one, and it is not painted
  have hbegun : u.paths.map PathUse.painted = (false, false) :: v.paths.map PathUse.painted := by
    rw [Walk.painted_step hu, if_pos hbegin]
  obtain ⟨newer, hw⟩ := Walk.painted_run hafter hbegun
  -- the number of brackets before it finds the path from the other end
  have hlookup : (survey.paths.map PathUse.painted)[begins opened]? =
      some (Walk.paintedBy rest (false, false)) := by
    rw [hpaths, List.map_reverse, hw, ← Walk.length_paths hv]
    simp
  rw [List.getElem?_map] at hlookup
  obtain ⟨use, huse, hpaint⟩ := Option.map_eq_some_iff.1 hlookup
  obtain ⟨hstroked, hfilled⟩ := Prod.mk.inj hpaint
  exact ⟨use, huse, by simpa using hstroked, by simpa using hfilled⟩

end Metafile.Record
