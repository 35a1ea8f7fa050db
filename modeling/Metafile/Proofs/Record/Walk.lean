import Metafile.Proofs.Record.Reading

/-!
# `Metafile.Proofs.Record.Walk`: what the walk over a stream knows

The survey of a stream is a fold of `Walk.observe` over its records. `Walk.Observed` lists the
four things that one step can do, and `Walk.observe_induction` carries what each of them preserves
over any number of records. Everything here follows from these two.

* `Walk.inPath_eq`: a bracket counts as open exactly if `sinceBegin` gives the records inside.
* `Survey.use_of_begin`: every record that begins a bracket has an entry among the paths.
* `Survey.changes_of_end`: that entry holds the changes of the world transform inside of the
  bracket, those before the drawing and then those after it, in the order of the records.
* `Survey.header_first` and `Survey.end_last`: the header is the first record of a stream and the
  end record is the last, and neither stands anywhere else.
-/

set_option autoImplicit false

namespace Metafile.Record

/-! ### The open bracket of a history -/

/-- The records inside the open bracket after one more record. -/
def insideAfter (inside : Option (List Entry)) (e : Entry) : Option (List Entry) :=
  match e.kind? with
  | some .beginPath => some []
  | some .endPath => none
  | _ => inside.map (· ++ [e])

/-- The records since the last bracket was begun, if it has not been ended. Only the records that
begin and end brackets count. -/
def sinceBegin (records : List Entry) : Option (List Entry) :=
  records.foldl insideAfter none

/-- The number of brackets that the records begin. -/
def begins (records : List Entry) : Nat :=
  records.countP (·.kind? == some .beginPath)

/-- The changes of the world transform that the records bring, in their order. -/
def changes (records : List Entry) : List TransformChange :=
  records.filterMap Entry.change?

/-- The last record decides whether a bracket is open, or it is inside of the open one. -/
theorem sinceBegin_concat (records : List Entry) (e : Entry) :
    sinceBegin (records ++ [e]) = insideAfter (sinceBegin records) e := by
  rw [sinceBegin, List.foldl_append]
  rfl

/-- The last record counts if it begins a bracket. -/
theorem begins_concat (records : List Entry) (e : Entry) :
    begins (records ++ [e]) =
      begins records + if e.kind? = some .beginPath then 1 else 0 := by
  rw [begins, List.countP_append, List.countP_singleton]
  simp only [beq_iff_eq]
  rfl

/-- A record that does not begin or end a bracket stays inside of an open one. -/
theorem insideAfter_other {e : Entry} (hbegin : e.kind? ≠ some .beginPath)
    (hend : e.kind? ≠ some .endPath) (inside : Option (List Entry)) :
    insideAfter inside e = inside.map (· ++ [e]) := by
  unfold insideAfter
  split
  · contradiction
  · contradiction
  · rfl

/-- Where no bracket is open, only a record that begins one opens one. -/
theorem insideAfter_none {e : Entry} (hbegin : e.kind? ≠ some .beginPath) :
    insideAfter none e = none := by
  unfold insideAfter
  split
  · contradiction
  · rfl
  · rfl

namespace PathUse

/-- The deferred changes of a bracket: those before the path and those after it. -/
def deferred (p : PathUse) : List TransformChange × List TransformChange := (p.before, p.after)

/-- To note a use of the path defers nothing. -/
theorem deferred_note (offset : Nat) (kind : Kind) (p : PathUse) :
    (p.note offset kind).deferred = p.deferred := by
  unfold note
  split <;> rfl

end PathUse

namespace Walk

/-! ### One step -/

/-- What one record does to what is known. -/
inductive Observed (w : Walk) (e : Entry) : Walk → Prop
  | began (h : e.kind? = some .beginPath) :
      Observed w e
        { w with begun := true, paths := .unused :: w.paths, inPath := true, drawn := false }
  | ended (h : e.kind? = some .endPath) :
      Observed w e { w with begun := true, inPath := false, drawn := false }
  | changed (hbegin : e.kind? ≠ some .beginPath) (hend : e.kind? ≠ some .endPath)
      (hopen : w.inPath = true) (t : TransformChange) (h : e.change? = some t) :
      Observed w e ({ w with begun := true }.amend (·.defer w.drawn t))
  | other (hbegin : e.kind? ≠ some .beginPath) (hend : e.kind? ≠ some .endPath)
      (h : w.inPath = true → e.change? = none) (v : Walk) (hbegun : v.begun = true)
      (hopen : v.inPath = w.inPath)
      (hpaths : v.paths.map PathUse.deferred = w.paths.map PathUse.deferred)
      (hdrawn : v.drawn = false → w.drawn = false) :
      Observed w e v

/-- Noting how the last path is used leaves the deferred changes as they are. -/
theorem deferred_amend_note (w : Walk) (offset : Nat) (kind : Kind) :
    (w.amend (·.note offset kind)).paths.map PathUse.deferred =
      w.paths.map PathUse.deferred := by
  unfold amend
  cases hpaths : w.paths with
  | nil => simp [hpaths]
  | cons p rest => simp [PathUse.deferred_note]

/-- A change of the last path is not a change of anything else. -/
theorem amend_rest (f : PathUse → PathUse) (w : Walk) :
    (w.amend f).inPath = w.inPath ∧ (w.amend f).drawn = w.drawn ∧
      (w.amend f).begun = w.begun := by
  unfold amend
  split <;> exact ⟨rfl, rfl, rfl⟩

/-- Outside of a bracket nothing is deferred, and a record of a kind that leaves the world
transform as it is defers nothing. -/
private theorem change?_eq_none {e : Entry} {kind : Kind} (hkind : e.kind? = some kind)
    (h : kind.isTransform = false) : e.change? = none := by
  unfold Entry.change?
  rw [hkind]
  exact if_neg (by rw [h]; exact Bool.false_ne_true)

/-- A change inside of a bracket is the one that its record brings. -/
theorem deferredChange_eq_ok {kind : Kind} {body : Bytes} {t : TransformChange} :
    deferredChange kind body = .ok t ↔ (transformChange kind).from body headerBytes = .ok t := by
  unfold deferredChange Decode.from
  cases Cursor.seek headerBytes (Cursor.start body) with
  | error fault => exact iff_of_false nofun nofun
  | ok p =>
      change ((transformChange kind p.2).mapError Fault.framing >>= fun q => pure q.1) = _ ↔
        (transformChange kind p.2).map Prod.fst = _
      -- a fault is renamed on one side only, and what is read is the same on both
      cases transformChange kind p.2 with
      | error broken => exact iff_of_false nofun nofun
      | ok q => exact Iff.rfl

/-- A record that the walk accepts is noted. -/
theorem note_of_observe {w v : Walk} {e : Entry} (h : w.observe e = .ok v) :
    { w with begun := true }.note e = .ok v := by
  obtain ⟨_, _, hnote⟩ := of_bind_eq_ok h
  exact hnote

/-- The walk over one record does one of four things. -/
theorem observed {w v : Walk} {e : Entry} (h : w.observe e = .ok v) : Observed w e v := by
  replace h := note_of_observe h
  unfold note at h
  -- one case for each branch: a header, a bracket begun or ended, a comment, and the rest
  split at h
  · rename_i hkind
    obtain rfl := Except.ok.inj h
    refine .other (by simp [hkind]) (by simp [hkind]) (fun _ => ?_) _ rfl rfl rfl id
    unfold Entry.change?
    rw [hkind]
  · rename_i hkind
    obtain rfl := Except.ok.inj h
    exact .began hkind
  · rename_i hkind
    obtain rfl := Except.ok.inj h
    exact .ended hkind
  · rename_i hkind
    obtain rfl := Except.ok.inj h
    exact .other (by simp [hkind]) (by simp [hkind])
      (fun _ => change?_eq_none hkind rfl) _ rfl rfl rfl id
  · rename_i kind hbegin hend _ hkind
    have hb : e.kind? ≠ some .beginPath := fun heq => hbegin (Option.some.inj (hkind ▸ heq))
    have he : e.kind? ≠ some .endPath := fun heq => hend (Option.some.inj (hkind ▸ heq))
    split at h
    · -- a change of the world transform inside of a bracket
      rename_i hdefer
      rw [Bool.and_eq_true] at hdefer
      have ht : kind.isTransform = true := by
        cases kind <;> first | rfl | (simp at hdefer)
      split at h
      · rename_i t hread
        obtain rfl := Except.ok.inj h
        refine Observed.changed (w := w) hb he hdefer.1 t ?_
        unfold Entry.change?
        rw [hkind]
        simp only [if_pos ht, deferredChange_eq_ok.1 hread]
        rfl
      · cases h
    · rename_i hdefer
      -- what the branch before did not take is no change, or stands outside of a bracket
      have hnone : w.inPath = true → e.change? = none := fun hopen =>
        change?_eq_none hkind (by cases kind <;> first | rfl | (simp [hopen] at hdefer))
      split at h
      · obtain rfl := Except.ok.inj h
        exact .other hb he hnone _ rfl rfl rfl (fun hd => by cases hd)
      · obtain rfl := Except.ok.inj h
        obtain ⟨hopen, hdrawn, hbegun⟩ :=
          amend_rest (·.note e.offset kind) { w with begun := true }
        exact .other hb he hnone _ hbegun hopen (deferred_amend_note _ _ _)
          (fun hd => hdrawn ▸ hd)

/-! ### Any number of steps -/

/-- What the walk over one record preserves, the walk over all of them preserves. -/
theorem observe_induction {w₀ : Walk} {motive : List Entry → Walk → Prop} (nil : motive [] w₀)
    (concat : ∀ records e v w, records.foldlM observe w₀ = .ok v → motive records v →
      Observed v e w → motive (records ++ [e]) w)
    {records : List Entry} {w : Walk} (h : records.foldlM observe w₀ = .ok w) :
    motive records w := by
  -- the last record is the first of the reversed list
  obtain ⟨reversed, rfl⟩ : ∃ reversed : List Entry, records = reversed.reverse :=
    ⟨records.reverse, records.reverse_reverse.symm⟩
  induction reversed generalizing w with
  | nil =>
      obtain rfl : w₀ = w := Except.ok.inj h
      exact nil
  | cons e rest ih =>
      rw [List.reverse_cons, List.foldlM_append] at h
      rw [List.reverse_cons]
      obtain ⟨v, hrest, hlast⟩ := of_bind_eq_ok h
      refine concat rest.reverse e v w hrest (ih hrest) (observed ?_)
      change (v.observe e >>= pure) = .ok w at hlast
      rwa [bind_pure] at hlast

/-- A walk over two parts of a stream goes over the first, and goes on over the second from there.
-/
theorem ofEntries_append {earlier later : List Entry} {w : Walk}
    (h : ofEntries (earlier ++ later) = .ok w) :
    ∃ v, ofEntries earlier = .ok v ∧ later.foldlM observe v = .ok w := by
  unfold ofEntries at h
  rw [List.foldlM_append] at h
  exact of_bind_eq_ok h

/-- A walk over a record and those after it goes on from what is known after the record. -/
theorem foldlM_observe_cons {e : Entry} {rest : List Entry} {w v : Walk}
    (h : (e :: rest).foldlM observe w = .ok v) :
    ∃ u, w.observe e = .ok u ∧ rest.foldlM observe u = .ok v := by
  rw [List.foldlM_cons] at h
  exact of_bind_eq_ok h

/-- The walk has begun as soon as there is a record. -/
theorem begun_eq {records : List Entry} {w : Walk} (h : ofEntries records = .ok w) :
    w.begun = !records.isEmpty := by
  -- every step sets the mark, whatever else it does
  refine observe_induction (motive := fun records w => w.begun = !records.isEmpty) rfl ?_ h
  intro records e v w _ _ hstep
  have hnonempty : (records ++ [e]).isEmpty = false := by simp
  rw [hnonempty]
  cases hstep with
  | began _ => rfl
  | ended _ => rfl
  | changed _ _ _ t _ => exact (amend_rest _ _).2.2
  | other _ _ _ _ hbegun _ _ _ => exact hbegun

/-- A bracket counts as open exactly if it was begun and not ended. -/
theorem inPath_eq {records : List Entry} {w : Walk} (h : ofEntries records = .ok w) :
    w.inPath = (sinceBegin records).isSome := by
  refine observe_induction (motive := fun records w => w.inPath = (sinceBegin records).isSome)
    rfl ?_ h
  intro records e v w _ ih hstep
  rw [sinceBegin_concat]
  cases hstep with
  | began hkind => simp [insideAfter, hkind]
  | ended hkind => simp [insideAfter, hkind]
  | changed hbegin hend _ t _ =>
      rw [insideAfter_other hbegin hend, Option.isSome_map, ← ih]
      exact (amend_rest _ _).1
  | other hbegin hend _ _ _ hopen _ _ =>
      rw [insideAfter_other hbegin hend, Option.isSome_map, ← ih, hopen]

/-- There is one path for every record that begins a bracket. -/
theorem length_paths {records : List Entry} {w : Walk} (h : ofEntries records = .ok w) :
    w.paths.length = begins records := by
  refine observe_induction (motive := fun records w => w.paths.length = begins records) rfl ?_ h
  intro records e v w _ ih hstep
  rw [begins_concat, ← ih]
  cases hstep with
  | began hkind => simp [hkind]
  | ended hkind => simp [hkind]
  | changed hbegin _ _ t _ =>
      rw [if_neg hbegin]
      unfold amend
      cases v.paths <;> simp
  | other hbegin _ _ _ _ _ hpaths _ =>
      rw [if_neg hbegin]
      have hlength := congrArg List.length hpaths
      rwa [List.length_map, List.length_map] at hlength

/-! ### Deferred changes -/

/-- While a bracket is open, the last path holds the changes inside of it. Those after the drawing
follow those before it, and there are none after it as long as nothing is drawn. -/
theorem deferred_inside {records inside : List Entry} {w : Walk} (h : ofEntries records = .ok w)
    (hinside : sinceBegin records = some inside) :
    ∃ before after rest, w.paths.map PathUse.deferred = (before, after) :: rest ∧
      before ++ after = changes inside ∧ (w.drawn = false → after = []) := by
  refine observe_induction (motive := fun records w => ∀ inside,
    sinceBegin records = some inside →
      ∃ before after rest, w.paths.map PathUse.deferred = (before, after) :: rest ∧
        before ++ after = changes inside ∧ (w.drawn = false → after = []))
    (fun _ hnone => by cases hnone) ?_ h inside hinside
  intro records e v w hv ih hstep inside hinside
  rw [sinceBegin_concat] at hinside
  cases hstep with
  | began hkind =>
      obtain rfl : [] = inside := by simpa [insideAfter, hkind] using hinside
      exact ⟨[], [], _, rfl, rfl, fun _ => rfl⟩
  | ended hkind => simp [insideAfter, hkind] at hinside
  | changed hbegin hend hopen t ht =>
      rw [insideAfter_other hbegin hend] at hinside
      obtain ⟨older, holder, rfl⟩ := Option.map_eq_some_iff.1 hinside
      obtain ⟨before, after, rest, hpaths, hchanges, hdrawn⟩ := ih older holder
      have hnew : changes (older ++ [e]) = (before ++ after) ++ [t] := by
        rw [hchanges]
        simp [changes, ht]
      obtain ⟨p, ps, hp, hhead, hrest⟩ := List.map_eq_cons_iff.1 hpaths
      obtain ⟨rfl, rfl⟩ := Prod.mk.inj hhead
      have hamend : ({ v with begun := true }.amend (·.defer v.drawn t)).paths =
          p.defer v.drawn t :: ps := by
        unfold amend
        rw [hp]
      rw [hamend, (amend_rest _ _).2.1, hnew]
      cases hd : v.drawn with
      | true =>
          refine ⟨p.before, p.after ++ [t], rest, by rw [← hrest]; rfl, ?_, fun hf => by cases hf⟩
          rw [List.append_assoc]
      | false =>
          -- nothing is drawn yet, so the new change still comes before the path
          rw [hdrawn hd]
          refine ⟨p.before ++ [t], p.after, rest, by rw [← hrest]; rfl, ?_, fun _ => hdrawn hd⟩
          rw [hdrawn hd, List.append_nil, List.append_nil]
  | other hbegin hend hnone _ _ _ hpaths hdrawn =>
      rw [insideAfter_other hbegin hend] at hinside
      obtain ⟨older, holder, rfl⟩ := Option.map_eq_some_iff.1 hinside
      obtain ⟨before, after, rest, hbefore, hchanges, hafter⟩ := ih older holder
      have hchange : e.change? = none := by
        apply hnone
        rw [inPath_eq hv, holder]
        rfl
      refine ⟨before, after, rest, hpaths.trans hbefore, ?_, fun hd => hafter (hdrawn hd)⟩
      rw [hchanges]
      simp [changes, hchange]

/-- Once a bracket is closed, later records leave its deferred changes as they are. -/
theorem deferred_settled {later : List Entry} {v w : Walk} (hclosed : v.inPath = false)
    (h : later.foldlM observe v = .ok w) :
    ∃ newer, w.paths.map PathUse.deferred = newer ++ v.paths.map PathUse.deferred := by
  -- a change can only reach the last path, so as long as a bracket is open there is a newer path
  suffices hstrong : ∃ newer, w.paths.map PathUse.deferred =
      newer ++ v.paths.map PathUse.deferred ∧ (newer = [] → w.inPath = false) by
    obtain ⟨newer, hnewer, _⟩ := hstrong
    exact ⟨newer, hnewer⟩
  refine observe_induction (motive := fun _ w => ∃ newer, w.paths.map PathUse.deferred =
    newer ++ v.paths.map PathUse.deferred ∧ (newer = [] → w.inPath = false))
    ⟨[], rfl, fun _ => hclosed⟩ ?_ h
  intro records e u w _ ih hstep
  obtain ⟨newer, hnewer, hnil⟩ := ih
  cases hstep with
  | began _ =>
      refine ⟨PathUse.unused.deferred :: newer, ?_, fun hcontra => by cases hcontra⟩
      rw [List.map_cons, hnewer]
      rfl
  | ended _ => exact ⟨newer, hnewer, fun _ => rfl⟩
  | changed _ _ hopen t _ =>
      cases newer with
      | nil => rw [hnil rfl] at hopen; cases hopen
      | cons d newer =>
          obtain ⟨p, ps, hp, _, hrest⟩ := List.map_eq_cons_iff.1 hnewer
          refine ⟨(p.defer u.drawn t).deferred :: newer, ?_, fun hcontra => by cases hcontra⟩
          unfold amend
          rw [hp, List.map_cons, hrest]
          rfl
  | other _ _ _ _ _ hopen hpaths _ =>
      exact ⟨newer, hpaths.trans hnewer, fun hn => hopen.trans (hnil hn)⟩

end Walk

namespace Survey

variable {stream : Bytes} {survey : Survey}

/-- An accepted stream is cut into its records, and the walk over them gives the paths. -/
theorem ofBytes_eq_ok (h : ofBytes stream = .ok survey) :
    Entry.cut 0 stream = (survey.entries, none) ∧
      ∃ w, Walk.ofEntries survey.entries = .ok w ∧ survey.paths = w.paths.reverse := by
  unfold ofBytes at h
  generalize Entry.cut 0 stream = records at h ⊢
  obtain ⟨entries, broken⟩ := records
  obtain ⟨w, hwalk, hend⟩ := of_bind_eq_ok h
  cases broken with
  | some cause => cases hend
  | none =>
      obtain rfl := Except.ok.inj hend
      exact ⟨rfl, w, hwalk, rfl⟩

variable {earlier later : List Entry} {e : Entry}

/-- There are at least as many paths as records that have begun one. -/
theorem begins_le_length (h : ofBytes stream = .ok survey)
    (hsplit : survey.entries = earlier ++ later) : begins earlier ≤ survey.paths.length := by
  obtain ⟨_, w, hwalk, hpaths⟩ := ofBytes_eq_ok h
  rw [hpaths, List.length_reverse, Walk.length_paths hwalk, hsplit, begins, begins,
    List.countP_append]
  exact Nat.le_add_right ..

/-- Every record that begins a bracket has its path. -/
theorem use_of_begin (h : ofBytes stream = .ok survey)
    (hsplit : survey.entries = earlier ++ e :: later) (hbegin : e.kind? = some .beginPath) :
    ∃ use, survey.paths[begins earlier]? = some use := by
  have hle : begins (earlier ++ [e]) ≤ survey.paths.length :=
    begins_le_length h (hsplit.trans (List.append_assoc earlier [e] later).symm)
  rw [begins_concat, if_pos hbegin] at hle
  exact ⟨survey.paths[begins earlier], List.getElem?_eq_getElem hle⟩

/-- At the record that ends a bracket, the path of the bracket holds all changes inside of it, in
their order. -/
theorem changes_of_end (h : ofBytes stream = .ok survey)
    (hsplit : survey.entries = earlier ++ e :: later) (hend : e.kind? = some .endPath)
    {inside : List Entry} (hinside : sinceBegin earlier = some inside) :
    ∃ use, survey.paths[begins earlier - 1]? = some use ∧
      use.before ++ use.after = changes inside := by
  obtain ⟨_, w, hwalk, hpaths⟩ := ofBytes_eq_ok h
  rw [hsplit] at hwalk
  obtain ⟨u, hu, hrest⟩ := Walk.ofEntries_append hwalk
  -- up to the end record the last path holds the changes inside of the bracket
  obtain ⟨before, after, older, hhead, hchanges, _⟩ := Walk.deferred_inside hu hinside
  obtain ⟨v, hv, hafter⟩ := Walk.foldlM_observe_cons hrest
  have hclosed : v.inPath = false ∧ v.paths = u.paths := by
    cases Walk.observed hv with
    | began hkind => rw [hend] at hkind; cases hkind
    | ended _ => exact ⟨rfl, rfl⟩
    | changed _ hother _ _ _ => exact absurd hend hother
    | other _ hother _ _ _ _ _ _ => exact absurd hend hother
  -- later records only put newer paths before it, and so the number of brackets finds it
  obtain ⟨newer, hnewer⟩ := Walk.deferred_settled hclosed.1 hafter
  rw [hclosed.2, hhead] at hnewer
  have hcount : begins earlier - 1 = older.length := by
    rw [← Walk.length_paths hu]
    have hlength := congrArg List.length hhead
    rw [List.length_map, List.length_cons] at hlength
    omega
  have hlookup : (survey.paths.map PathUse.deferred)[begins earlier - 1]? =
      some (before, after) := by
    rw [hpaths, List.map_reverse, hnewer, hcount]
    simp
  rw [List.getElem?_map] at hlookup
  obtain ⟨use, huse, hdeferred⟩ := Option.map_eq_some_iff.1 hlookup
  obtain ⟨rfl, rfl⟩ := Prod.mk.inj hdeferred
  exact ⟨use, huse, hchanges⟩

end Survey

/-! ### The end record -/

/-- A stream with a first record is that record and the records of the rest, unless it is the end
record. -/
theorem Entry.cut_of_next {offset : Nat} {stream rest : Bytes} {e : Entry}
    (hempty : ¬stream.isEmpty = true) (hnext : Entry.next offset stream = .ok (e, rest)) :
    Entry.cut offset stream =
      if e.kind? = some .endOfFile then ([e], none)
      else (e :: (Entry.cut (offset + e.size) rest).1, (Entry.cut (offset + e.size) rest).2) := by
  rw [Entry.cut, if_neg hempty]
  split
  · rename_i herror
    rw [hnext] at herror
    cases herror
  · rename_i hok
    rw [hnext] at hok
    obtain ⟨rfl, rfl⟩ := Prod.mk.inj (Except.ok.inj hok)
    rfl

/-- A stream from which no record can be taken is not cut any further. -/
theorem Entry.cut_of_broken {offset : Nat} {stream : Bytes} {fault : Fault}
    (hempty : ¬stream.isEmpty = true) (hnext : Entry.next offset stream = .error fault) :
    Entry.cut offset stream = ([], some fault) := by
  rw [Entry.cut, if_neg hempty]
  split
  · rename_i herror
    rw [hnext] at herror
    rw [Except.error.inj herror]
  · rename_i hok
    rw [hnext] at hok
    cases hok

/-- What holds of the end record alone, and of a record in front of records of which it holds,
holds of all records that a stream is cut into. A stream without an end record is broken. -/
theorem Entry.cut_induction {motive : Nat → Bytes → List Entry → Prop}
    (last : ∀ offset stream e rest, Entry.next offset stream = .ok (e, rest) →
      e.kind? = some .endOfFile → motive offset stream [e])
    (cons : ∀ offset stream e rest entries, Entry.next offset stream = .ok (e, rest) →
      e.kind? ≠ some .endOfFile → motive (offset + e.size) rest entries →
      motive offset stream (e :: entries))
    {offset : Nat} {stream : Bytes} {entries : List Entry}
    (h : Entry.cut offset stream = (entries, none)) : motive offset stream entries := by
  induction offset, stream using Entry.cut.induct generalizing entries with
  | case1 offset stream hempty =>
      rw [Entry.cut, if_pos hempty] at h
      cases h
  | case2 offset stream hempty cause hnext =>
      rw [cut_of_broken hempty hnext] at h
      cases h
  | case3 offset stream hempty e rest hnext hend =>
      rw [cut_of_next hempty hnext, if_pos hend] at h
      obtain rfl : [e] = entries := (Prod.mk.inj h).1
      exact last offset stream e rest hnext hend
  | case4 offset stream hempty e rest hnext hend _ _ _ ih =>
      rw [cut_of_next hempty hnext, if_neg hend] at h
      obtain ⟨rfl, hnone⟩ := Prod.mk.inj h
      exact cons offset stream e rest _ hnext hend (ih (Prod.ext rfl hnone))

/-- The end record is the last of the records that a stream is cut into, and it stands nowhere
else. -/
theorem Entry.cut_end {offset : Nat} {stream : Bytes} {entries : List Entry}
    (h : Entry.cut offset stream = (entries, none)) :
    ∃ front last, entries = front ++ [last] ∧ last.kind? = some .endOfFile ∧
      ∀ e ∈ front, e.kind? ≠ some .endOfFile := by
  refine Entry.cut_induction (motive := fun _ _ entries => ∃ front last,
    entries = front ++ [last] ∧ last.kind? = some .endOfFile ∧
      ∀ e ∈ front, e.kind? ≠ some .endOfFile) ?_ ?_ h
  · exact fun _ _ e _ _ hend => ⟨[], e, rfl, hend, fun _ hmem => by cases hmem⟩
  · rintro _ _ e _ entries _ hend ⟨front, last, rfl, hlast, hfront⟩
    exact ⟨e :: front, last, rfl, hlast, List.forall_mem_cons.2 ⟨hend, hfront⟩⟩

/-- The walk accepts a header exactly as the first record. -/
private theorem Walk.header_iff {w v : Walk} {e : Entry} (h : w.observe e = .ok v) :
    e.kind? = some .header ↔ w.begun = false := by
  unfold observe checkHeader at h
  cases hbegun : w.begun with
  | true =>
      -- once the walk has begun, a header is refused
      refine iff_of_false (fun hheader => ?_) (by simp)
      rw [hbegun, hheader] at h
      cases h
  | false =>
      -- at the beginning everything but a header is refused
      refine iff_of_true ?_ rfl
      cases hheader : decide (e.kind? = some .header) with
      | true => exact of_decide_eq_true hheader
      | false =>
          rw [hbegun, hheader] at h
          cases h

/-- The records before the last record of an accepted stream are not the end record, and the last
one is. -/
theorem Survey.end_last {stream : Bytes} {survey : Survey}
    (h : Survey.ofBytes stream = .ok survey) {earlier later : List Entry} {e : Entry}
    (hsplit : survey.entries = earlier ++ e :: later) :
    (∀ other ∈ earlier, other.kind? ≠ some .endOfFile) ∧
      (e.kind? = some .endOfFile ↔ later = []) := by
  obtain ⟨front, last, hentries, hlast, hfront⟩ := Entry.cut_end (ofBytes_eq_ok h).1
  rw [hentries, List.append_eq_append_iff] at hsplit
  -- either the record is the last one, or it stands in front of the last one
  rcases hsplit with ⟨middle, rfl, hrest⟩ | ⟨middle, rfl, hrest⟩
  · cases middle with
    | nil =>
        obtain ⟨rfl, rfl⟩ := List.cons.inj hrest
        rw [List.append_nil]
        exact ⟨hfront, iff_of_true hlast rfl⟩
    | cons x xs => simp at hrest
  · cases middle with
    | nil =>
        obtain ⟨rfl, rfl⟩ := List.cons.inj hrest
        rw [List.append_nil] at hfront
        exact ⟨hfront, iff_of_true hlast rfl⟩
    | cons x xs =>
        obtain ⟨rfl, rfl⟩ := List.cons.inj hrest
        refine ⟨fun other hmem => hfront other (List.mem_append_left _ hmem), ?_⟩
        exact iff_of_false (hfront e (by simp)) (by simp)

/-- The header is the first record of an accepted stream, and it stands nowhere else. -/
theorem Survey.header_first {stream : Bytes} {survey : Survey}
    (h : Survey.ofBytes stream = .ok survey) {earlier later : List Entry} {e : Entry}
    (hsplit : survey.entries = earlier ++ e :: later) :
    e.kind? = some .header ↔ earlier = [] := by
  obtain ⟨_, w, hwalk, _⟩ := ofBytes_eq_ok h
  rw [hsplit] at hwalk
  obtain ⟨u, hu, hrest⟩ := Walk.ofEntries_append hwalk
  obtain ⟨v, hv, _⟩ := Walk.foldlM_observe_cons hrest
  rw [Walk.header_iff hv, Walk.begun_eq hu, Bool.not_eq_false', List.isEmpty_iff]

/-- The records of an accepted stream begin with the header. -/
theorem Survey.header_of_entries {stream : Bytes} {survey : Survey}
    (h : Survey.ofBytes stream = .ok survey) {first : Entry} {rest : List Entry}
    (hentries : survey.entries = first :: rest) : first.kind? = some .header :=
  have hsplit : survey.entries = [] ++ first :: rest := hentries
  (Survey.header_first h hsplit).2 rfl

/-! ### Streams of given records -/

/-- The bytes of a record of a kind. -/
def Kind.record (kind : Kind) (fields : Bytes) : Bytes :=
  Bytes.ofNat 4 kind.code ++ Bytes.ofNat 4 (headerBytes + fields.length) ++ fields

/-- The bytes of records, given by their kinds and their fields. -/
def streamOf (records : List (Kind × Bytes)) : Bytes :=
  records.flatMap fun r => r.1.record r.2

/-- The survey of a stream, or an empty one if the stream is refused. -/
def Survey.ofStream (stream : Bytes) : Survey :=
  (Survey.ofBytes stream).toOption.getD default

/-- An accepted stream has its survey. -/
theorem Survey.ofBytes_ofStream {stream : Bytes} (h : (Survey.ofBytes stream).isOk = true) :
    Survey.ofBytes stream = .ok (Survey.ofStream stream) := by
  unfold ofStream
  cases hread : Survey.ofBytes stream with
  | error cause =>
      rw [hread] at h
      cases h
  | ok survey => rfl

end Metafile.Record
