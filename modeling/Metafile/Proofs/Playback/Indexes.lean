import Metafile.Proofs.Playback.Loose
import Metafile.Proofs.Playback.Patterns
import Metafile.Proofs.Record.Causes

/-!
# `Metafile.Proofs.Playback.Indexes`: whatever is looked up is there

Some values are looked up by index without a check of their own: the slots of the object table
after the check of the handle, the points of segments, the path of a bracket in what the survey
knows, and the points and types of a record that draws to points with types. Each of them is there
because of what happened before. The table has slots since the header was played, and no record
but the header comes before that. There is a path for every record that begins one, and an open
bracket was begun.

`InRange` lists the lookups of one record, and `Reaches.inRange` states it of every record that
the playing comes to, also of one that cannot be done. So the only reasons to stop at a record are
a record that is cut short or counts too much, and a handle outside of the table
(`Reaches.next_cause`).
-/

set_option autoImplicit false

namespace Metafile

/-! ### As many values as are counted -/

namespace Cursor

/-- Reading so many points gives so many, in either width. -/
theorem yields_points (count : Nat) (short : Bool) :
    (points count short).Yields fun ps => ps.length = count := by
  have hread : (do require (count * pointWidth short)
                   many count (point short) : Decode (List (Point Int))).Yields
      fun ps => ps.length = count :=
    Decode.yields_bind fun _ => yields_many _ count
  unfold points
  dsimp only
  split
  · exact Decode.yields_bind fun _ => hread
  · exact hread

end Cursor

/-! ### Records of points with types -/

namespace Record

namespace Shape

/-- The points and the types of a record are as many as it counts. -/
theorem typedPoints_eq_ok {short : Bool} {body : Bytes} {ps : List (Point Int × Nat)}
    (h : (typedPoints short).first body = .ok ps) :
    ∃ (count : Nat) (points : List (Point Int)) (types : List Nat),
      Cursor.u32.from body countOffset = .ok count ∧ points.length = count ∧
        types.length = count ∧ ps = points.zip types := by
  -- the reads one after the other: the place, the number, the points and their types
  obtain ⟨_, h⟩ := Decode.first_eq_ok h
  obtain ⟨_, placed, hplaced, h⟩ := Decode.bind_eq_ok h
  obtain ⟨count, counted, hcount, h⟩ := Decode.bind_eq_ok h
  obtain ⟨points, pointed, hpoints, h⟩ := Decode.bind_eq_ok h
  obtain ⟨types, typed, htypes, h⟩ := Decode.bind_eq_ok h
  obtain ⟨rfl, _⟩ := Prod.mk.inj (Except.ok.inj h)
  refine ⟨count, points, types.map UInt8.toNat, ?_,
    Cursor.yields_points _ _ _ _ _ hpoints, ?_, rfl⟩
  · unfold Decode.from
    rw [hplaced]
    change (Cursor.u32 placed >>= fun read => pure read.1) = _
    rw [hcount]
    rfl
  · rw [List.length_map, Cursor.yields_bytes _ _ _ _ htypes]

end Shape

/-- The kinds of records that draw to points with types, with points of either width. -/
def Kind.ofTypedPoints (short : Bool) : Kind := if short then .polyDraw16 else .polyDraw

/-- A record that draws to points with types asks for nothing else, and has as many of both as it
counts. -/
theorem Entry.command_of_typedPoints {plus short : Bool} {e : Entry} {c : Command}
    (hkind : e.kind? = some (.ofTypedPoints short)) (h : e.command plus = .ok c) :
    ∃ (count : Nat) (points : List (Point Int)) (types : List Nat),
      Cursor.u32.from e.body Shape.countOffset = .ok count ∧ points.length = count ∧
        types.length = count ∧ c = .draw (.steps (points.zip types)) := by
  have hread : e.command plus =
      ((Shape.typedPoints short).first e.body).map fun ps => .draw (.steps ps) := by
    unfold command
    rw [hkind]
    cases short with
    | false => exact first_draw _ Shape.steps _
    | true => exact first_draw _ Shape.steps _
  rw [hread] at h
  cases hpoints : (Shape.typedPoints short).first e.body with
  | error cause =>
      rw [hpoints] at h
      cases h
  | ok ps =>
      rw [hpoints] at h
      obtain ⟨count, points, types, hcount, hlength, hlength', rfl⟩ :=
        Shape.typedPoints_eq_ok hpoints
      exact ⟨count, points, types, hcount, hlength, hlength', (Except.ok.inj h).symm⟩

end Record

namespace Playback

open Metafile.Clip (LooseService)
open Metafile.Device (ObjectTable)
open Metafile.Record (Command Entry PathUse Survey)

/-! ### Points with types by index -/

/-- The outline of so many points with types from an index on, if every point and every type is
where it is looked up. -/
def stepsFrom? (points : List (Point Float)) (types : List Nat) (count i : Nat) :
    Option (Outline Float) :=
  if i < count then do
    let type ← types[i]?
    let p ← points[i]?
    if type / 2 = 2 ∧ i + 2 < count then
      let q ← points[i + 1]?
      let r ← points[i + 2]?
      let last ← types[i + 2]?
      return .curve p q r :: (closing last ++ (← stepsFrom? points types count (i + 3)))
    else return stepOutline p type ++ (← stepsFrom? points types count (i + 1))
  else return []
termination_by count - i

/-- The outline that points with types add to an open path, if each of them is where it is looked
up. -/
def steps? (h : Heading) (points : List (Point Float)) (types : List Nat) (count : Nat) :
    Option (Outline Float) := do
  let start := if types.head?.any (· / 2 == 3) then [] else [.move h.position]
  return start ++ (← stepsFrom? points types count 0)

/-- A point that draws no curve draws on its own. -/
theorem stepsOutline_cons {p : Point Float} {type : Nat} {rest : List (Point Float × Nat)}
    (h : ¬(type / 2 = 2 ∧ 2 ≤ rest.length)) :
    stepsOutline ((p, type) :: rest) = stepOutline p type ++ stepsOutline rest := by
  match rest with
  | [] => rfl
  | [_] => rfl
  | (q, middle) :: (r, last) :: rest =>
      have htype : type / 2 ≠ 2 := fun htype => h ⟨htype, Nat.le_add_left 2 rest.length⟩
      rw [stepsOutline, if_neg htype]

/-- Every point and every type is found, if there are as many of both as are counted. What is
drawn from an index on is the outline of the points that are left. -/
theorem stepsFrom?_eq {points : List (Point Float)} {types : List Nat} {count : Nat}
    (hpoints : points.length = count) (htypes : types.length = count) (i : Nat) :
    stepsFrom? points types count i = some (stepsOutline ((points.zip types).drop i)) := by
  have hlength : (points.zip types).length = count := by
    rw [List.length_zip, hpoints, htypes, Nat.min_self]
  -- below the count, the next point and the next type are found
  have hnext {j : Nat} (hj : j < count) : ∃ p type, points[j]? = some p ∧ types[j]? = some type ∧
      (points.zip types).drop j = (p, type) :: (points.zip types).drop (j + 1) := by
    refine ⟨points[j], types[j], List.getElem?_eq_getElem _, List.getElem?_eq_getElem _, ?_⟩
    rw [List.drop_eq_getElem_cons (hlength.symm ▸ hj), List.getElem_zip]
  unfold stepsFrom?
  by_cases hi : i < count
  · obtain ⟨p, type, hp, htype, hdrop⟩ := hnext hi
    rw [if_pos hi, htype, hp, hdrop]
    by_cases hcurve : type / 2 = 2 ∧ i + 2 < count
    · -- a curve takes the next two points with it, and the walk goes on behind them
      obtain ⟨q, middle, hq, _, hdrop'⟩ := hnext (show i + 1 < count by omega)
      obtain ⟨r, last, hr, hlast, hdrop''⟩ := hnext hcurve.2
      rw [hdrop', hdrop'', stepsOutline, if_pos hcurve.1]
      show (if type / 2 = 2 ∧ i + 2 < count then _ else _) = _
      rw [if_pos hcurve, hq, hr, hlast, stepsFrom?_eq hpoints htypes (i + 3)]
      rfl
    · have halone : ¬(type / 2 = 2 ∧ 2 ≤ ((points.zip types).drop (i + 1)).length) := by
        rw [List.length_drop, hlength]
        omega
      rw [stepsOutline_cons halone]
      show (if type / 2 = 2 ∧ i + 2 < count then _ else _) = _
      rw [if_neg hcurve, stepsFrom?_eq hpoints htypes (i + 1)]
      rfl
  · rw [if_neg hi, List.drop_eq_nil_of_le (by omega)]
    rfl
termination_by count - i

/-- Whether points with types begin with a move is known from the first type. -/
theorem beginsWithMove_zip {points : List (Point Float)} {types : List Nat}
    (h : points.length = types.length) :
    beginsWithMove (points.zip types) = types.head?.any (· / 2 == 3) := by
  cases points with
  | nil =>
      obtain rfl := List.length_eq_zero_iff.1 h.symm
      rfl
  | cons p points =>
      cases types with
      | nil => cases h
      | cons type types => rfl

/-- The outline of points with types needs no point and no type that is not there. -/
theorem steps?_eq {points : List (Point Int)} {types : List Nat} {count : Nat} (h : Heading)
    (hpoints : points.length = count) (htypes : types.length = count) :
    steps? h (floatPoints points) types count =
      some (shapeOutline h (.steps (points.zip types))) := by
  have hzip : (floatPoints points).zip types =
      (points.zip types).map fun s => (Point.ofInt s.1, s.2) := List.zip_map_left
  have hfloat : (floatPoints points).length = count := (List.length_map _).trans hpoints
  unfold steps?
  dsimp only
  rw [stepsFrom?_eq hfloat htypes, ← beginsWithMove_zip (hfloat.trans htypes.symm), hzip]
  rfl

/-! ### Handles -/

/-- A handle that passes the check of a table with slots has a slot. -/
theorem lt_slots_of_checkIndex {objects : ObjectTable} {index : Nat}
    (hslots : 0 < objects.slots.size) (h : ObjectTable.checkIndex objects.size index = .ok ()) :
    index < objects.slots.size := by
  unfold ObjectTable.checkIndex at h
  split at h
  · rename_i hle
    unfold ObjectTable.size at hle
    omega
  · cases h

/-- The check alone lets handle zero through, also where there is no slot. -/
example : ObjectTable.checkIndex ObjectTable.empty.size 0 = .ok () ∧
    ObjectTable.empty.slots.size = 0 := ⟨rfl, rfl⟩

/-- The fault of a handle, if the check of a table refuses it. -/
def refusal? (objects : ObjectTable) (index : Nat) : Option Fault :=
  match ObjectTable.checkIndex objects.size index with
  | .ok () => none
  | .error fault => some fault

/-- A handle is only refused because it is outside of the table. -/
theorem refusal?_eq_some {objects : ObjectTable} {index : Nat} {fault : Fault}
    (h : refusal? objects index = some fault) :
    fault = .outOfBounds (.objectIndex objects.size index) := by
  unfold refusal? at h
  split at h
  · cases h
  · rename_i refused hcheck
    obtain rfl : refused = fault := Option.some.inj h
    exact ObjectTable.checkIndex_eq_error hcheck

namespace State

/-- The access to the slot of a handle: the table, and the handle. Tools which every device has
are in no slot. -/
def slot? (handle : Nat) (s : State) : Option (ObjectTable × Nat) :=
  if Device.Context.isStock handle then none else some (s.objects, handle)

/-- The access of a command to the object table: the table as it is then, and the handle whose
slot is read or written. -/
def access? (setup : Setup) (c : Command) (s : State) : Option (ObjectTable × Nat) :=
  match c with
  | .create index _ => some (s.objects, index)
  | .createPattern index picture fromContext =>
    some ((s.patternOf setup.encode picture fromContext).1.objects, index)
  | .select handle | .delete handle => s.slot? handle
  | _ => none

/-- A tool is refused exactly where there is no slot for it. -/
theorem put_cause (index : Nat) (tool : Device.Tool) (s : State) :
    (s.put index tool).2 = refusal? s.objects index := by
  unfold put refusal? ObjectTable.set
  cases ObjectTable.checkIndex s.objects.size index <;> rfl

/-- A handle is refused exactly where there is no slot for it, and the tools of every device never
are. -/
theorem select_cause (handle : Nat) (s : State) :
    (s.select handle).2 = (s.slot? handle).bind fun a => refusal? a.1 a.2 := by
  unfold select slot?
  split
  · split <;> rfl
  · unfold ObjectTable.select ObjectTable.get
    show _ = refusal? s.objects handle
    unfold refusal?
    cases ObjectTable.checkIndex s.objects.size handle <;> rfl

/-- The same when a slot is emptied. -/
theorem delete_cause (handle : Nat) (s : State) :
    (s.delete handle).2 = (s.slot? handle).bind fun a => refusal? a.1 a.2 := by
  unfold delete slot?
  split
  · rfl
  · unfold ObjectTable.delete ObjectTable.set
    show _ = refusal? s.objects handle
    unfold refusal?
    cases ObjectTable.checkIndex s.objects.size handle <;> rfl

/-- A command cannot be done exactly if its access to the object table is refused, where the
survey knows the paths that it asks for. -/
theorem perform_cause {setup : Setup} {uses : List PathUse} {c : Command} {s : State}
    (hbegin : c = .beginPath → ∃ use, uses[s.brackets]? = some use)
    (hend : c = .endPath → s.inPath = true →
      s.brackets ≠ 0 ∧ ∃ use, uses[s.brackets - 1]? = some use) :
    (s.perform setup uses c).2 = (s.access? setup c).bind fun a => refusal? a.1 a.2 := by
  -- only tools are looked up, since the survey knows every bracket
  cases c with
  | create index tool => exact put_cause index tool s
  | createPattern index picture fromContext => exact put_cause index _ _
  | select handle => exact select_cause handle s
  | delete handle => exact delete_cause handle s
  | beginPath =>
      obtain ⟨use, huse⟩ := hbegin rfl
      exact congrArg Prod.snd (beginPath_of_use huse)
  | endPath =>
      show (s.endPath uses).2 = none
      cases hbracket : s.bracket with
      | none =>
          unfold endPath
          rw [hbracket]
      | some bracket =>
          obtain ⟨hopened, use, huse⟩ := hend rfl (by rw [inPath, hbracket]; rfl)
          rw [endPath_of_use hbracket hopened huse]
  | restore relative => exact restore_snd relative s
  | _ => rfl

/-- The table of a command is that of the state, also where a picture is defined before. -/
theorem access?_objects {setup : Setup} {c : Command} {s : State} {objects : ObjectTable}
    {index : Nat} (h : s.access? setup c = some (objects, index)) : objects = s.objects := by
  cases c with
  | create _ _ => exact (congrArg Prod.fst (Option.some.inj h)).symm
  | createPattern i picture fromContext =>
      obtain ⟨images, written, held, log, heq⟩ := patternOf_eq setup.encode picture fromContext s
      have hobjects : (s.patternOf setup.encode picture fromContext).1.objects = objects :=
        congrArg Prod.fst (Option.some.inj h)
      rw [← hobjects, heq]
  | select handle | delete handle =>
      change s.slot? handle = some (objects, index) at h
      unfold slot? at h
      split at h
      · cases h
      · exact (congrArg Prod.fst (Option.some.inj h)).symm
  | _ => cases h

end State

/-! ### Records -/

/-- Whatever a record looks up is there, in the state in which it is played. The outlines are
looked up with loose segments, and clip regions are combined by a service. -/
structure InRange (setup : Setup) (service : LooseService) (survey : Survey) (e : Entry)
    (s : State) : Prop where
  /-- A handle that passes the check of the object table has a slot. -/
  slots : ∀ c objects index, e.command setup.options.plus = .ok c →
    s.access? setup c = some (objects, index) →
    ObjectTable.checkIndex objects.size index = .ok () → index < objects.slots.size
  /-- The segments of the path and of the clip regions, also of the saved contexts, have exactly
  the points of their sort, before the record and after it. -/
  counted : s.hold.Counted ∧ (s.next setup survey.paths e).1.hold.Counted
  /-- Every point of these segments is found, and so is the context to which the record returns.
  -/
  outlines : ∀ c, e.command setup.options.plus = .ok c →
    s.hold.perform? service c s = some (s.next setup survey.paths e).1.hold
  /-- The survey knows the path that the record begins. -/
  begins : e.kind? = some .beginPath → ∃ use, survey.paths[s.brackets]? = some use
  /-- The survey knows the open path that the record ends. -/
  ends : e.kind? = some .endPath → s.inPath = true →
    s.brackets ≠ 0 ∧ ∃ use, survey.paths[s.brackets - 1]? = some use
  /-- So no record lacks a path bracket to belong to. -/
  matched : (s.next setup survey.paths e).2 ≠ some (.outOfBounds .unmatchedPath)
  /-- A record that draws to points with types has every point and every type that it counts. -/
  steps : ∀ c short, e.kind? = some (.ofTypedPoints short) →
    e.command setup.options.plus = .ok c →
    ∃ (count : Nat) (points : List (Point Int)) (types : List Nat),
      Cursor.u32.from e.body Record.Shape.countOffset = .ok count ∧
        c = .draw (.steps (points.zip types)) ∧ points.length = count ∧ types.length = count ∧
        steps? s.heading (floatPoints points) types count =
          some (shapeOutline s.heading (.steps (points.zip types)))

namespace Reaches

variable {setup : Setup} {stream : Bytes} {survey : Survey} {earlier later : List Entry}
  {e : Entry} {s : State}

/-- A record that cannot be done is cut short or counts too much, or its handle is outside of the
object table. -/
theorem next_cause {fault : Fault} (h : Reaches setup stream survey earlier (e :: later) s)
    (hnext : (s.next setup survey.paths e).2 = some fault) :
    fault.isReading = true ∨
      ∃ index, fault = .outOfBounds (.objectIndex s.objects.size index) := by
  -- a record fails while it is read, or when it looks for a slot that is not there
  cases hc : e.command setup.options.plus with
  | error refused =>
      rw [State.next, State.step_eq, hc] at hnext
      obtain rfl : refused = fault := Option.some.inj hnext
      exact Or.inl (Entry.command_blames_bytes hc)
  | ok c =>
      obtain ⟨log, hlog⟩ := State.announce_eq setup e s
      rw [State.next_of_command hc, hlog, State.perform_cause] at hnext
      · obtain ⟨⟨objects, index⟩, haccess, hrefused⟩ := Option.bind_eq_some_iff.1 hnext
        rw [State.access?_objects haccess] at hrefused
        exact Or.inr ⟨index, refusal?_eq_some hrefused⟩
      · rintro rfl
        exact h.use_of_begin ((Entry.command_soleKind? hc rfl).1 rfl)
      · exact fun _ hopen => h.use_of_end hopen

/-- No command but that of the header is asked for before there are slots. -/
theorem slots_of_access {c : Command} {objects : ObjectTable} {index : Nat}
    (h : Reaches setup stream survey earlier (e :: later) s)
    (hc : e.command setup.options.plus = .ok c)
    (haccess : s.access? setup c = some (objects, index)) : 0 < objects.slots.size := by
  rw [State.access?_objects haccess]
  -- the first record is the header, and the header accesses no slot
  refine h.slots_pos fun hnone => ?_
  have hheader : c.soleKind? = some .header := (h.header_iff hc).2 hnone
  cases c with
  | header header => cases haccess
  | _ => cases hheader

/-- Whatever a record looks up is there, if the service that combines clip regions gives nothing
but segments with exactly the points of their sort. -/
theorem inRange {service : LooseService} (hservice : service.Counts)
    (hcombine : setup.combine = service.combiner)
    (h : Reaches setup stream survey earlier (e :: later) s) :
    InRange setup service survey e s where
  slots c objects index hc haccess hcheck :=
    lt_slots_of_checkIndex (h.slots_of_access hc haccess) hcheck
  counted := ⟨s.hold_counted, State.hold_counted _⟩
  outlines c hc := by
    obtain ⟨log, hlog⟩ := State.announce_eq setup e s
    rw [State.next_of_command hc, hlog]
    refine State.perform_hold (s := { s with log }) hservice hcombine ?_
    rintro rfl
    exact h.use_of_begin ((Entry.command_soleKind? hc rfl).1 rfl)
  begins := h.use_of_begin
  ends _ := h.use_of_end
  matched hnext := by
    -- points without as many types are none of the causes for which a record fails
    rcases h.next_cause hnext with hreading | ⟨index, hindex⟩
    · cases hreading
    · cases hindex
  steps c short hkind hc := by
    obtain ⟨count, points, types, hcount, hpoints, htypes, hsteps⟩ :=
      Entry.command_of_typedPoints hkind hc
    exact ⟨count, points, types, hcount, hsteps, hpoints, htypes, steps?_eq _ hpoints htypes⟩

end Reaches

/-- A move and a curve: four points at the corner of the page, and their types. -/
def curveFields : Bytes :=
  List.replicate 16 0 ++ [4, 0, 0, 0] ++ List.replicate 32 0 ++ [6, 4, 4, 5]

/-- A stream that selects handle zero without declaring any handles, draws a path of points with
types and clips to it. -/
def curveStream : Bytes :=
  Record.streamOf [(.header, List.replicate 80 0), (.selectObject, [0, 0, 0, 0]),
    (.beginPath, []), (.polyDraw, curveFields), (.endPath, []), (.selectClipPath, [5, 0, 0, 0]),
    (.endOfFile, List.replicate 12 0)]

/-- The records of the stream that draws a path of points with types. -/
def curveEntries : List Entry := (Survey.ofStream curveStream).entries

/-- Handle zero has a slot, although no handle was declared. The four points and types of the path
are found. -/
theorem inRange_curve :
    LooseService.replacing.Counts ∧ Setup.plain.combine = LooseService.replacing.combiner ∧
    (∃ e later s, Reaches .plain curveStream (.ofStream curveStream) (curveEntries.take 1)
        (e :: later) s ∧
      InRange .plain .replacing (.ofStream curveStream) e s ∧ 0 < s.objects.slots.size) ∧
    ∃ e later s points types, Reaches .plain curveStream (.ofStream curveStream)
        (curveEntries.take 3) (e :: later) s ∧
      InRange .plain .replacing (.ofStream curveStream) e s ∧
      e.command true = .ok (.draw (.steps (points.zip types))) ∧
      points.length = 4 ∧ types.length = 4 ∧
      (steps? s.heading (floatPoints points) types 4).isSome = true := by
  have hselect : Reaches .plain curveStream _ (curveEntries.take 1) (curveEntries.drop 1) _ :=
    .of_steps 1 (by decide +kernel) (by decide +kernel)
  have hdraw : Reaches .plain curveStream _ (curveEntries.take 3) (curveEntries.drop 3) _ :=
    .of_steps 3 (by decide +kernel) (by decide +kernel)
  rw [show curveEntries.drop 1 =
    ⟨88, 37, Record.Kind.selectObject.record [0, 0, 0, 0]⟩ :: curveEntries.drop 2 by
    decide +kernel] at hselect
  rw [show curveEntries.drop 3 =
    ⟨108, 56, Record.Kind.polyDraw.record curveFields⟩ :: curveEntries.drop 4 by
    decide +kernel] at hdraw
  have hcombine : Setup.plain.combine = LooseService.replacing.combiner :=
    LooseService.combiner_replacing.symm
  have hin := hselect.inRange LooseService.counts_replacing hcombine
  have hin' := hdraw.inRange LooseService.counts_replacing hcombine
  refine ⟨LooseService.counts_replacing, hcombine, ⟨_, _, _, hselect, hin, ?_⟩, ?_⟩
  · exact hin.slots (.select 0) _ 0 (by rfl) rfl rfl
  · -- the record counts four points, and all of them are there
    have hread :
        ((⟨108, 56, Record.Kind.polyDraw.record curveFields⟩ : Entry).command true).isOk =
        true := by decide +kernel
    cases hc : (⟨108, 56, Record.Kind.polyDraw.record curveFields⟩ : Entry).command true with
    | error cause =>
        rw [hc] at hread
        cases hread
    | ok c =>
        obtain ⟨count, points, types, hcount, rfl, hpoints, htypes, hsteps⟩ :=
          hin'.steps c false rfl hc
        have hfour : Cursor.u32.from (Record.Kind.polyDraw.record curveFields)
            Record.Shape.countOffset = .ok 4 := by decide +kernel
        obtain rfl : count = 4 := Except.ok.inj (hcount.symm.trans hfour)
        exact ⟨_, _, _, points, types, hdraw, hin', hc, hpoints, htypes, by rw [hsteps]; rfl⟩

end Playback

end Metafile
