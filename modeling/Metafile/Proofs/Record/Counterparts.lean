import Metafile.Proofs.Record.Framing
import Metafile.Proofs.Record.Reading

/-!
# `Metafile.Proofs.Record.Counterparts`: streams that say the same

Two streams may have different bytes and say the same. A record of the one `Stands` for a record
of the other if it asks for the same and means the same to the survey, and a record is `Inert` if
it asks for nothing and means nothing to the survey. Two lists of records are `Counterparts` if
they differ by such records only.

The survey keeps more about a path than the playing takes from it. `PathUse.effect` is what is
taken. `Survey.ofBytes_of_counterparts` states that a stream of counterparts is accepted where the
other one is, and that its paths have the same effect.
-/

set_option autoImplicit false

namespace Metafile.Record

/-! ### What the playing takes from the survey -/

/-- What the playing takes from a path: whether it is filled, whether it is stroked, and the
changes of the world transform before and after it. -/
def PathUse.effect (p : PathUse) :
    Bool × Bool × List TransformChange × List TransformChange :=
  (p.isFilled, p.isStroked, p.deferred)

/-- What the playing takes from a walk, and what the rest of the walk depends on. -/
def Walk.effect (w : Walk) :
    Bool × List (Bool × Bool × List TransformChange × List TransformChange) × Bool × Bool :=
  (w.begun, w.paths.map PathUse.effect, w.inPath, w.drawn)

namespace Walk

variable {w w' : Walk}

/-- The effect of a walk, part by part. -/
theorem effect_eq_iff : w'.effect = w.effect ↔ w'.begun = w.begun ∧
    w'.paths.map PathUse.effect = w.paths.map PathUse.effect ∧ w'.inPath = w.inPath ∧
    w'.drawn = w.drawn := by
  unfold effect
  simp only [Prod.mk.injEq]

/-- Changes with the same effect on a path have the same effect on a walk. -/
theorem effect_amend {f f' : PathUse → PathUse} (h : w'.effect = w.effect)
    (hf : ∀ p p' : PathUse, p'.effect = p.effect → (f' p').effect = (f p).effect) :
    (w'.amend f').effect = (w.amend f).effect := by
  obtain ⟨hbegun, hpaths, hopen, hdrawn⟩ := effect_eq_iff.1 h
  unfold amend
  cases hp : w.paths with
  | nil =>
      rw [hp, List.map_nil, List.map_eq_nil_iff] at hpaths
      rw [hpaths]
      exact h
  | cons p rest =>
      cases hp' : w'.paths with
      | nil => simp [hp, hp'] at hpaths
      | cons p' rest' =>
          rw [hp, hp', List.map_cons, List.map_cons] at hpaths
          obtain ⟨hfirst, hrest⟩ := List.cons.inj hpaths
          refine effect_eq_iff.2 ⟨hbegun, ?_, hopen, hdrawn⟩
          rw [List.map_cons, List.map_cons, hf p p' hfirst, hrest]

end Walk

/-- Where a path is used does not matter, only how. -/
theorem PathUse.effect_note {p p' : PathUse} (h : p'.effect = p.effect) (offset offset' : Nat)
    (kind : Kind) : (p'.note offset' kind).effect = (p.note offset kind).effect := by
  unfold effect isFilled isStroked deferred at h ⊢
  simp only [Prod.mk.injEq] at h
  obtain ⟨hfill, hstroke, hbefore, hafter⟩ := h
  unfold note
  split <;> simp_all

/-- A change of the world transform is deferred in the same way by paths with the same effect. -/
theorem PathUse.effect_defer {p p' : PathUse} (h : p'.effect = p.effect) (drawn : Bool)
    (t : TransformChange) : (p'.defer drawn t).effect = (p.defer drawn t).effect := by
  unfold effect isFilled isStroked deferred at h ⊢
  simp only [Prod.mk.injEq] at h
  obtain ⟨hfill, hstroke, hbefore, hafter⟩ := h
  unfold defer
  split <;> simp only [hfill, hstroke, hbefore, hafter]

/-! ### Records that say the same -/

/-- A record that says the same as another one, to the survey and to the playing. -/
structure Stands (plus : Bool) (e e' : Entry) : Prop where
  asks : (e'.command plus).toOption = (e.command plus).toOption
  ends : e'.kind? = some .endOfFile ↔ e.kind? = some .endOfFile
  observed : ∀ w w' : Walk, w'.effect = w.effect →
    (w'.observe e').map Walk.effect = (w.observe e).map Walk.effect

/-- A record that says nothing, neither to the survey nor to the playing. It is no header and no
end record. -/
structure Inert (plus : Bool) (e : Entry) : Prop where
  asks : e.command plus = .ok .nothing
  header : e.kind? ≠ some .header
  ends : e.kind? ≠ some .endOfFile
  noted : ∀ w : Walk, (w.note e).map Walk.effect = .ok w.effect

namespace Walk

variable {w w' : Walk}

/-- Whether a header is due is part of the effect. -/
theorem checkHeader_congr {e e' : Entry} (h : w'.begun = w.begun)
    (hkind : e'.kind? = some .header ↔ e.kind? = some .header) :
    w'.checkHeader e' = w.checkHeader e := by
  unfold checkHeader
  rw [h, decide_eq_decide.2 hkind]

/-- The walk over a record is the note of it, where a header stands in its place. -/
theorem map_effect_observe {e e' : Entry} (h : w'.effect = w.effect)
    (hkind : e'.kind? = some .header ↔ e.kind? = some .header)
    (hnote : ∀ v v' : Walk, v'.effect = v.effect →
      (v'.note e').map effect = (v.note e).map effect) :
    (w'.observe e').map effect = (w.observe e).map effect := by
  obtain ⟨hbegun, hpaths, hopen, hdrawn⟩ := effect_eq_iff.1 h
  unfold observe
  rw [checkHeader_congr hbegun hkind]
  cases w.checkHeader e with
  | error cause => rfl
  | ok _ => exact hnote _ _ (effect_eq_iff.2 ⟨rfl, hpaths, hopen, hdrawn⟩)

end Walk

/-- A record in another place says the same. -/
theorem Stands.of_same (plus : Bool) {e e' : Entry} (hcode : e'.code = e.code)
    (hbody : e'.body = e.body) : Stands plus e e' := by
  have hkind : e'.kind? = e.kind? := congrArg Kind.ofCode? hcode
  refine ⟨?_, by rw [hkind], fun w w' h => Walk.map_effect_observe h (by rw [hkind]) ?_⟩
  · unfold Entry.command
    rw [hkind, hbody]
  · intro v v' h
    obtain ⟨hbegun, hpaths, hopen, hdrawn⟩ := Walk.effect_eq_iff.1 h
    -- the walk keeps the offset of a change, which has no effect
    unfold Walk.note
    rw [hkind, hbody, hopen, hdrawn]
    split
    · exact congrArg Except.ok h
    · refine congrArg Except.ok (Walk.effect_eq_iff.2 ⟨hbegun, ?_, rfl, rfl⟩)
      rw [List.map_cons, List.map_cons, hpaths]
    · exact congrArg Except.ok (Walk.effect_eq_iff.2 ⟨hbegun, hpaths, rfl, rfl⟩)
    · exact congrArg Except.ok (Walk.effect_eq_iff.2 ⟨hbegun, hpaths, rfl, rfl⟩)
    · split
      · split
        · exact congrArg Except.ok
            (Walk.effect_amend h fun p p' hp => PathUse.effect_defer hp _ _)
        · rfl
      · split
        · exact congrArg Except.ok (Walk.effect_eq_iff.2 ⟨hbegun, hpaths, rfl, rfl⟩)
        · exact congrArg Except.ok
            (Walk.effect_amend h fun p p' hp => PathUse.effect_note hp _ _ _)

/-- A change that leaves every path as it is leaves the walk as it is. -/
theorem Walk.amend_id {f : PathUse → PathUse} (h : ∀ p, f p = p) (w : Walk) : w.amend f = w := by
  unfold amend
  split
  · rfl
  · rename_i p rest hpaths
    rw [h p, ← hpaths]

/-- A record that adds geometry to an open path notes nothing else. -/
theorem Walk.note_of_drawsGeometry {e : Entry} {kind : Kind} (hkind : e.kind? = some kind)
    (h : kind.drawsGeometry = true) (w : Walk) :
    w.note e = .ok (if w.inPath then { w with drawn := true } else w) := by
  have hkeeps (offset : Nat) (p : PathUse) : p.note offset kind = p := by
    unfold PathUse.note
    split <;> first | rfl | cases h
  have htransform : (kind == .setWorldTransform || kind == .modifyWorldTransform) = false := by
    cases kind <;> first | rfl | cases h
  unfold note
  rw [hkind]
  -- a record that draws is neither a header nor a bracket nor a comment
  split
  · contradiction
  · rename_i heq
    obtain rfl := Option.some.inj heq
    cases h
  · rename_i heq
    obtain rfl := Option.some.inj heq
    cases h
  · rename_i heq
    obtain rfl := Option.some.inj heq
    cases h
  · rename_i heq
    obtain rfl := Option.some.inj heq
    rw [htransform, Bool.and_false, if_neg Bool.false_ne_true, h, Bool.and_true,
      amend_id (hkeeps e.offset)]
    cases w.inPath <;> rfl

/-- Drawing records that ask for the same say the same. -/
theorem Stands.of_shapes {plus : Bool} {e e' : Entry} {kind kind' : Kind}
    (hkind : e.kind? = some kind) (hkind' : e'.kind? = some kind')
    (h : kind.drawsGeometry = true) (h' : kind'.drawsGeometry = true)
    (hasks : (e'.command plus).toOption = (e.command plus).toOption) : Stands plus e e' := by
  have hother {k : Kind} (hk : k.drawsGeometry = true) : k ≠ .endOfFile ∧ k ≠ .header := by
    constructor <;> rintro rfl <;> cases hk
  refine ⟨hasks, ?_, fun w w' hw => Walk.map_effect_observe hw ?_ ?_⟩
  · simp only [hkind, hkind', Option.some.injEq, (hother h).1, (hother h').1]
  · simp only [hkind, hkind', Option.some.injEq, (hother h).2, (hother h').2]
  · intro v v' hv
    obtain ⟨hbegun, hpaths, hopen, _⟩ := Walk.effect_eq_iff.1 hv
    rw [Walk.note_of_drawsGeometry hkind h, Walk.note_of_drawsGeometry hkind' h', hopen]
    refine congrArg Except.ok ?_
    split
    · exact Walk.effect_eq_iff.2 ⟨hbegun, hpaths, rfl, rfl⟩
    · exact hv

/-- The walk over an inert record has no effect. Where a header is due it stops. -/
theorem Inert.effect_observe {plus : Bool} {e : Entry} {w v : Walk} (h : Inert plus e)
    (hv : w.observe e = .ok v) : v.effect = w.effect := by
  have hbegun : w.begun = true := by
    rw [← Bool.not_eq_false, ← (Walk.observe_eq_ok_iff.1 ⟨v, hv⟩).1]
    exact h.header
  have hnoted := h.noted w
  have hcheck : w.checkHeader e = .ok () := by
    unfold Walk.checkHeader
    rw [hbegun, decide_eq_false h.header]
  have hsame : { w with begun := true } = w := by rw [← hbegun]
  unfold Walk.observe at hv
  rw [hcheck, hsame] at hv
  change w.note e = .ok v at hv
  rw [hv] at hnoted
  exact Except.ok.inj hnoted

/-! ### Lists of records -/

/-- Two lists that differ only in that some elements stand for others, and that idle elements of
the first list are missing in the second. -/
inductive Matches {α : Type} (Same : α → α → Prop) (Idle : α → Prop) : List α → List α → Prop
  | nil : Matches Same Idle [] []
  | both {x x' : α} {xs xs' : List α} (h : Same x x') (rest : Matches Same Idle xs xs') :
      Matches Same Idle (x :: xs) (x' :: xs')
  | idle {x : α} {xs xs' : List α} (h : Idle x) (rest : Matches Same Idle xs xs') :
      Matches Same Idle (x :: xs) xs'

/-- Lists that match in one sense match in every weaker one. -/
theorem Matches.mono {α : Type} {Same Same' : α → α → Prop} {Idle Idle' : α → Prop}
    {xs xs' : List α} (h : Matches Same Idle xs xs') (hsame : ∀ x x', Same x x' → Same' x x')
    (hidle : ∀ x, Idle x → Idle' x) : Matches Same' Idle' xs xs' := by
  induction h with
  | nil => exact .nil
  | both h _ ih => exact .both (hsame _ _ h) ih
  | idle h _ ih => exact .idle (hidle _ h) ih

/-- A list matches itself if each of its elements stands for itself. -/
theorem Matches.self {α : Type} {Same : α → α → Prop} {Idle : α → Prop} {xs : List α}
    (h : ∀ x ∈ xs, Same x x) : Matches Same Idle xs xs := by
  induction xs with
  | nil => exact .nil
  | cons x rest ih =>
      obtain ⟨hfirst, hrest⟩ := List.forall_mem_cons.1 h
      exact .both hfirst (ih hrest)

/-- Lists of records that say the same. -/
abbrev Counterparts (plus : Bool) : List Entry → List Entry → Prop :=
  Matches (Stands plus) (Inert plus)

variable {plus : Bool} {entries entries' : List Entry}

/-- The walk over counterparts goes as far and has the same effect. -/
theorem Counterparts.walk (h : Counterparts plus entries entries') {w w' v : Walk}
    (heffect : w'.effect = w.effect) (hwalk : entries.foldlM Walk.observe w = .ok v) :
    ∃ v', entries'.foldlM Walk.observe w' = .ok v' ∧ v'.effect = v.effect := by
  induction h generalizing w w' with
  | nil =>
      obtain rfl := Except.ok.inj hwalk
      exact ⟨w', rfl, heffect⟩
  | @both e e' rest rest' hstands _ ih =>
      obtain ⟨u, hu, hafter⟩ := Walk.foldlM_observe_cons hwalk
      have hobserved := hstands.observed w w' heffect
      rw [hu] at hobserved
      rw [List.foldlM_cons]
      cases hu' : w'.observe e' with
      | error cause =>
          rw [hu'] at hobserved
          cases hobserved
      | ok u' =>
          rw [hu'] at hobserved
          exact ih (Except.ok.inj hobserved) hafter
  | @idle e rest _ hinert _ ih =>
      -- a record that is left out has no effect on the walk
      obtain ⟨u, hu, hrest⟩ := Walk.foldlM_observe_cons hwalk
      exact ih (heffect.trans (hinert.effect_observe hu).symm) hrest

/-- Counterparts end where the others end. -/
theorem Counterparts.ended (h : Counterparts plus entries entries') (hends : EndsOnce entries) :
    EndsOnce entries' := by
  induction h with
  | nil => exact hends
  | @both e e' rest rest' hstands hrest ih =>
      rw [endsOnce_cons] at hends ⊢
      simp only [hstands.ends]
      split at hends
      · rename_i hend
        subst hends
        cases hrest
        rw [if_pos hend]
      · rename_i hend
        rw [if_neg hend]
        exact ih hends
  | idle hinert _ ih =>
      rw [endsOnce_cons, if_neg hinert.ends] at hends
      exact ih hends

/-! ### Streams -/

/-- Where a stream is accepted, the records of a list of counterparts are accepted too, with any
bytes after them, and their paths have the same effect. -/
theorem Survey.ofBytes_of_counterparts {stream : Bytes} {survey : Survey} {records : List Bytes}
    (h : Survey.ofBytes stream = .ok survey) (hmeasured : ∀ record ∈ records, Measured record)
    (hsame : Counterparts plus survey.entries (placed 0 records)) :
    ∃ survey', survey'.entries = placed 0 records ∧
      survey'.paths.map PathUse.effect = survey.paths.map PathUse.effect ∧
      ∀ tail, Survey.ofBytes (records.flatten ++ tail) = .ok survey' := by
  obtain ⟨hcut, w, hwalk, hpaths⟩ := ofBytes_eq_ok h
  obtain ⟨_, _, _, _, _, hends⟩ := Entry.measured_of_cut hcut
  obtain ⟨w', hwalk', heffect⟩ := hsame.walk rfl hwalk
  obtain ⟨survey', hentries, haccepted⟩ :=
    ofBytes_of_framed (framed_iff.2 ⟨hmeasured, hsame.ended hends, w', hwalk'⟩)
  refine ⟨survey', hentries, ?_, haccepted⟩
  obtain ⟨_, v, hv, hpaths'⟩ := ofBytes_eq_ok (haccepted [])
  rw [hentries] at hv
  obtain rfl : w' = v := Except.ok.inj (hwalk'.symm.trans hv)
  rw [hpaths, hpaths', List.map_reverse, List.map_reverse, (Walk.effect_eq_iff.1 heffect).2.1]

end Metafile.Record
