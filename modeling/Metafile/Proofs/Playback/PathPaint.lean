import Metafile.Proofs.Playback.Held
import Metafile.Proofs.Record.Paints

/-!
# `Metafile.Proofs.Playback.PathPaint`: a path is painted by its own records

The element of a path is written when its bracket ends, and the records that fill or stroke it
come later. Playing therefore asks the survey, and it finds the entry of the bracket by counting
the brackets that were begun. `Reaches.painted_by_own_records` shows that the count finds the
right one: the end of the `k`-th bracket paints the path as the records between the beginnings of
the brackets `k` and `k + 1` say, whatever became of the brackets before it.

It joins two facts. `Reaches.opening` finds the record that began the open bracket, and
`Survey.painted_of_begin` says what the survey knows about it.
-/

set_option autoImplicit false

namespace Metafile.Playback

open Metafile.Markup (Attribute)
open Metafile.Record (Entry Kind PathUse Survey begins begins_concat ownRecords)

namespace State

/-- The paint that a path gets from the records that belong to it: the attributes of the pen if
one of them strokes the path, those of the brush if one of them fills it, and otherwise none. -/
def ownPaint (own : List Entry) (s : State) : List Attribute :=
  (if own.any Entry.strokesPath then s.strokeAttributes else []) ++
    (if own.any Entry.fillsPath then s.context.fillAttributes else []) ++
    (if own.any Entry.fillsPath then [] else [("fill", "none")]) ++
    (if own.any Entry.strokesPath then [] else [("stroke", "none")])

/-- What the survey knows about a path paints it like the records that belong to it. -/
theorem pathPaint_eq_ownPaint {use : PathUse} {own : List Entry}
    (hstroked : use.isStroked = own.any Entry.strokesPath)
    (hfilled : use.isFilled = own.any Entry.fillsPath) (s : State) :
    s.pathPaint use = s.ownPaint own := by
  rw [pathPaint, ownPaint, hstroked, hfilled]

end State

/-- The records inside of an open bracket begin no other one. -/
theorem begins_of_opening {setup : Setup} {stream : Bytes} {survey : Survey}
    {opened inside later : List Entry} {b : Entry} {s t : State}
    (h : Opening setup stream survey opened b inside later s t) :
    begins (opened ++ b :: inside) = begins opened + 1 := by
  have hinside : begins inside = 0 := by
    refine List.countP_eq_zero.2 (fun e hmem hbegin => ?_)
    exact (State.closesPath_eq_false.1 (h.keeps e hmem)).1 (beq_iff_eq.1 hbegin)
  have hfirst : begins (opened ++ [b]) = begins opened + 1 := by
    rw [begins_concat, if_pos h.begins]
  calc begins (opened ++ b :: inside)
      = begins ((opened ++ [b]) ++ inside) := by rw [List.append_assoc]; rfl
    _ = begins (opened ++ [b]) + begins inside := List.countP_append
    _ = begins opened + 1 := by rw [hfirst, hinside]

namespace Reaches

variable {setup : Setup} {stream : Bytes} {survey : Survey} {earlier later : List Entry}
  {e : Entry} {t : State}

/-- The end record of a bracket writes the path of the bracket, and it is painted by the records
that belong to the bracket: if `b` began it as the `k`-th one, then those between `b` and the
beginning of the next one. Brackets before it do not matter, whether they were ended, aborted or
given up. -/
theorem painted_by_own_records (h : Reaches setup stream survey earlier (e :: later) t)
    (hend : e.kind? = some .endPath) (hopen : t.inPath = true) :
    ∃ opened b inside s bracket u more, earlier = opened ++ b :: inside ∧
      Opening setup stream survey opened b inside (e :: later) s t ∧ t.bracket = some bracket ∧
      t.next setup survey.paths e = (u, none) ∧
      u.written = t.written.push
        (bracket.piece (t.ownPaint (ownRecords (begins opened + 1) survey.entries))) ++
          t.held ++ more := by
  obtain ⟨opened, b, inside, s, hearlier, _, hopening⟩ := h.opening hopen
  obtain ⟨bracket, hbracket⟩ := Option.isSome_iff_exists.1 hopen
  -- the record closes the bracket with the entry that the count finds
  have hcloses : State.closesPath e = true := by simp [State.closesPath, hend]
  obtain ⟨hopened, huse⟩ := h.use_of_end hopen
  obtain ⟨u, paint, more, hnext, hpaint, hwritten, _⟩ :=
    State.closes hbracket hcloses h.use_of_begin hopened huse
  rw [State.ClosedWith, if_pos hend] at hpaint
  obtain ⟨use, hlookup, rfl⟩ := hpaint
  -- and this entry is the one of the record that began the bracket
  have hcount : t.brackets - 1 = begins opened := by
    rw [h.brackets_eq, hearlier, begins_of_opening hopening, Nat.add_sub_cancel]
  have hsplit : survey.entries = opened ++ b :: (inside ++ e :: later) := by
    rw [h.split, hearlier, List.append_assoc]
    rfl
  obtain ⟨own, hown, hstroked, hfilled⟩ :=
    Survey.painted_of_begin h.accepted hsplit (beq_iff_eq.2 hopening.begins)
  rw [hcount] at hlookup
  obtain rfl : use = own := Option.some.inj (hlookup.symm.trans hown)
  rw [State.pathPaint_eq_ownPaint hstroked hfilled] at hwritten
  exact ⟨opened, b, inside, s, bracket, u, more, hearlier, hopening, hbracket, hnext, hwritten⟩

end Reaches

/-- A path that is aborted, a record that strokes it, a path that is left open by another one
inside of it, and then the end of that one and a record that fills it. -/
def bracketsStream : Bytes :=
  Record.streamOf [(.header, List.replicate 80 0), (.beginPath, []),
    (.lineTo, List.replicate 8 0), (.abortPath, []), (.strokePath, List.replicate 16 0),
    (.beginPath, []), (.lineTo, List.replicate 8 0), (.beginPath, []),
    (.lineTo, List.replicate 8 0), (.endPath, []), (.fillPath, List.replicate 16 0),
    (.endOfFile, List.replicate 12 0)]

/-- The path of the third bracket is filled and not stroked. Its element has the attributes of the
brush, and the one for a stroke that is absent. -/
theorem painted_by_own_records_third :
    ∃ earlier e later t u more,
      Reaches .plain bracketsStream (.ofStream bracketsStream) earlier (e :: later) t ∧
      e.kind? = some .endPath ∧ t.inPath = true ∧ begins earlier = 3 ∧
      t.next .plain (Survey.ofStream bracketsStream).paths e = (u, none) ∧
      u.written = t.written.push
        (.shape "path" [("d", "L 0,0"), ("fill-rule", "evenodd"), ("fill", "#FFFFFF"),
          ("stroke", "none")]) ++ t.held ++ more := by
  have h : Reaches .plain bracketsStream _ _
      ((Survey.ofStream bracketsStream).entries.drop 9) _ :=
    .of_steps 9 (by decide +kernel) (by decide +kernel)
  have hopen : ((State.start (.ofStream bracketsStream)).steps .plain
      (Survey.ofStream bracketsStream).paths
      ((Survey.ofStream bracketsStream).entries.take 9)).1.inPath = true := by decide +kernel
  have hdrop : (Survey.ofStream bracketsStream).entries.drop 9 =
      ⟨192, 60, Kind.endPath.record []⟩ ::
        (Survey.ofStream bracketsStream).entries.drop 10 := by decide +kernel
  rw [hdrop] at h
  have hthird : begins ((Survey.ofStream bracketsStream).entries.take 9) = 3 := by decide +kernel
  obtain ⟨opened, b, inside, s, bracket, u, more, hearlier, hopening, hbracket, hnext,
      hwritten⟩ := h.painted_by_own_records (by decide) hopen
  have hcount : begins opened + 1 = 3 := by rw [← begins_of_opening hopening, ← hearlier, hthird]
  -- the records of the third bracket are the last four
  have hstrokes : (ownRecords 3 (Survey.ofStream bracketsStream).entries).any Entry.strokesPath =
      false := by decide +kernel
  have hfills : (ownRecords 3 (Survey.ofStream bracketsStream).entries).any Entry.fillsPath =
      true := by decide +kernel
  -- the path has one line and no clip region, and the brush is the one of every device
  have hdrawn : ((State.start (.ofStream bracketsStream)).steps .plain
      (Survey.ofStream bracketsStream).paths
      ((Survey.ofStream bracketsStream).entries.take 9)).1.bracket.map
        (fun b => (b.clip, b.drawn.outline.data)) = some ([], "L 0,0") := by decide +kernel
  have hfill : ((State.start (.ofStream bracketsStream)).steps .plain
      (Survey.ofStream bracketsStream).paths
      ((Survey.ofStream bracketsStream).entries.take 9)).1.context.fillAttributes =
        [("fill-rule", "evenodd"), ("fill", "#FFFFFF")] := by decide +kernel
  rw [hbracket] at hdrawn
  obtain ⟨hclip, hdata⟩ := Prod.mk.inj (Option.some.inj hdrawn)
  rw [hcount, State.ownPaint, hstrokes, hfills, hfill, Bracket.piece, hclip, hdata] at hwritten
  exact ⟨_, _, _, _, u, more, h, rfl, hopen, hthird, hnext, hwritten⟩

end Metafile.Playback
