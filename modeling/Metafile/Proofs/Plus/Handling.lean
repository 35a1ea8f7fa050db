import Metafile.Plus.Player
import Metafile.Proofs.Bytes.Width
import Metafile.Proofs.Record.Reading

/-!
# `Metafile.Proofs.Plus.Handling`: what is done with one EMF+ record

To play a record is to let it arrive (`Stage.arrive`), to do what it says (`Stage.handle`), and to
report it as skipped if that came to a fault (`Stage.report`). `Stage.playRecord_eq` puts the
three together.

The kind of a record says which part of the player it concerns, whatever its flags and its payload
are. A `Concern` names such a part, and `Command.ofRecord_concern` states that the command of a
record concerns the part that its kind does.

A record is read to its end before anything is done, so a record that is skipped should leave no
trace. The header is the exception: whether other records draw the same picture stands in its
flags, and it is taken over before the payload is read. `Stage.handle_skipped` says exactly what
is left of a record that is skipped, and `Stage.short_header_counts` is a header for which that is
something.
-/

set_option autoImplicit false

namespace Metafile.Plus

/-! ### Parts of the player -/

/-- A part of the player that records are about. -/
inductive Concern
  | header | object | drawing | saving | returning | world | page | nothing
deriving DecidableEq, Repr

/-- What records of a kind are about. -/
def Kind.concern : Kind → Concern
  | .header => .header
  | .object => .object
  | .fillRects | .drawRects | .fillPolygon | .drawLines | .fillEllipse | .drawEllipse | .fillPath
  | .drawPath | .drawBeziers | .drawString => .drawing
  | .save | .beginContainer | .beginContainerNoParams => .saving
  | .restore | .endContainer => .returning
  | .setWorldTransform | .resetWorldTransform | .multiplyWorldTransform
  | .translateWorldTransform | .scaleWorldTransform | .rotateWorldTransform => .world
  | .setPageTransform => .page
  | _ => .nothing

/-- What a command is about. -/
def Command.concern : Command → Concern
  | .header .. => .header
  | .object .. => .object
  | .fill .. | .stroke .. | .label .. => .drawing
  | .save .. | .container .. => .saving
  | .restore .. => .returning
  | .world .. => .world
  | .page .. => .page
  | .nothing => .nothing

/-- What a record asks for is about what its kind is about. -/
theorem Command.ofRecord_concern {kind : Kind} {flags : Nat} {payload : Bytes} {c : Command}
    (h : ofRecord kind flags payload = .ok c) : c.concern = kind.concern := by
  have hdecode : (decode kind flags payload).Yields fun c => c.concern = kind.concern := by
    cases kind with
    | object =>
        -- a piece of an object is read in two ways
        show (objectCommand flags payload).Yields _
        unfold objectCommand
        split
        · exact Decode.yields_bind fun _ => Decode.yields_pure rfl
        · exact Decode.yields_pure rfl
    | _ =>
        repeat' refine Decode.yields_bind fun _ => ?_
        exact Decode.yields_pure rfl
  exact hdecode.first h

/-- Only header records ask for what headers do. -/
theorem Command.concern_ne_header {kind : Kind} {flags : Nat} {payload : Bytes} {c : Command}
    (hkind : kind ≠ .header) (h : ofRecord kind flags payload = .ok c) : c.concern ≠ .header := by
  rw [ofRecord_concern h]
  cases kind <;> first | exact absurd rfl hkind | exact nofun

/-- What a header asks for: its flag, and the resolution in its payload if it is there. -/
theorem Command.ofRecord_header (flags : Nat) (payload : Bytes) :
    ofRecord .header flags payload =
      .ok (.header (hasFlag flags 1) (resolution.from payload 8)) :=
  rfl

/-- The resolution takes two numbers of 32 bits. -/
theorem takes_resolution : Decode.Takes resolution 8 :=
  Cursor.takes_u32.bind fun _ => Cursor.takes_u32.map _

namespace Stage

/-! ### Playing a record in three steps -/

/-- Counts a record, and ends the arrival of an object if the record is about something else. -/
def arrive (kind : Kind) (s : Stage) : Stage :=
  let s := s.update fun p => { p with records := p.records + 1 }
  if kind ≠ .object && s.player.pending.isSome then
    (s.note .debug s!"EMF+ {kind.name} ends a pending object early").flush
  else s

/-- Does what a record says. A fault is the reason why a part of it was not done. -/
def handle (scale : Float) (kind : Kind) (flags : Nat) (payload : Bytes) (s : Stage) :
    Stage × Option Fault :=
  match Command.ofRecord kind flags payload with
  | .ok c => s.perform scale c
  | .error f => (s, some f)

/-- Reports a record as skipped, if there is a reason. -/
def report (kind : Kind) (result : Stage × Option Fault) : Stage :=
  match result.2 with
  | none => result.1
  | some f => result.1.note .warn s!"EMF+ record {kind.name} skipped: {f.message}"

/-- To play a record is to let it arrive, to handle it and to report what could not be done. -/
theorem playRecord_eq (scale : Float) (kind : Kind) (flags : Nat) (payload : Bytes) (s : Stage) :
    s.playRecord scale kind flags payload =
      report kind ((s.arrive kind).handle scale kind flags payload) := by
  unfold playRecord report handle
  cases Command.ofRecord kind flags payload <;> rfl

variable {scale : Float} {kind : Kind} {flags : Nat} {payload : Bytes} {s : Stage}

/-- A record that can be read is handled by its command. -/
theorem handle_of_ok {c : Command} (h : Command.ofRecord kind flags payload = .ok c) :
    s.handle scale kind flags payload = s.perform scale c := by
  rw [handle, h]

/-- A record that cannot be read is not handled. -/
theorem handle_of_error {f : Fault} (h : Command.ofRecord kind flags payload = .error f) :
    s.handle scale kind flags payload = (s, some f) := by
  rw [handle, h]

/-! ### What the arrival of objects leaves alone -/

/-- Two stages that differ at most in the objects, the pending object, the number of records and
the messages. -/
structure Collects (s t : Stage) : Prop where
  player : t.player = { s.player with
    objects := t.player.objects, pending := t.player.pending, records := t.player.records }
  drawn : t.drawn = s.drawn

namespace Collects

variable {t u : Stage}

/-- Where nothing happens, nothing arrives. -/
theorem refl (s : Stage) : Collects s s := ⟨rfl, rfl⟩

/-- Two arrivals are an arrival. -/
theorem trans (h : Collects s t) (k : Collects t u) : Collects s u where
  player := k.player.trans (congrArg (fun p : Player => { p with
    objects := u.player.objects, pending := u.player.pending, records := u.player.records })
    h.player)
  drawn := k.drawn.trans h.drawn

/-- An arrival does not say whether the picture is dual. -/
theorem dual (h : Collects s t) : t.player.dual = s.player.dual := by
  rw [h.player]

/-- What is stored is an object, or nothing but a message. -/
theorem store (type id : Nat) (content : Bytes) (s : Stage) :
    Collects s (s.store type id content) := by
  unfold Stage.store
  cases Object.ofBytes type content <;> exact ⟨rfl, rfl⟩

/-- A message is all that differs. -/
theorem note (level : Level) (text : String) (s : Stage) : Collects s (s.note level text) :=
  ⟨rfl, rfl⟩

/-- Another object may become the pending one, or none. -/
theorem await (pending : Gather) (s : Stage) :
    Collects s (s.update fun p => { p with pending }) :=
  ⟨rfl, rfl⟩

/-- The pending object is stored or dropped. -/
theorem flush (s : Stage) : Collects s s.flush := by
  unfold Stage.flush
  cases s.player.pending with
  | none => exact .refl s
  | some p => exact (await none s).trans (store ..)

/-- A piece is taken, and what is complete is stored. -/
theorem receive (type id : Nat) (fragment : Fragment) (s : Stage) :
    Collects s (s.receive type id fragment) := by
  have hsettled {t : Stage} (h : Collects s t) :
      Collects s (if t.player.pending.isComplete then t.flush else t) := by
    split
    · exact h.trans (flush t)
    · exact h
  cases fragment with
  | last content =>
      simp only [Stage.receive]
      cases s.player.pending.append? type id content with
      | some p => exact (await (some p) s).trans (flush _)
      | none => exact (flush s).trans (store ..)
  | part total content =>
      simp only [Stage.receive]
      cases s.player.pending.append? type id content with
      | some p => exact hsettled (await (some p) s)
      | none => exact hsettled ((flush s).trans (await (some ⟨type, id, total, content⟩) s.flush))

/-- The arrival of a record changes nothing else either. -/
theorem arrive (kind : Kind) (s : Stage) : Collects s (s.arrive kind) := by
  have hcounted : Collects s (s.update fun p => { p with records := p.records + 1 }) := ⟨rfl, rfl⟩
  unfold Stage.arrive
  dsimp only
  split
  · exact (hcounted.trans (note ..)).trans (flush ..)
  · exact hcounted

end Collects

/-! ### Records that are skipped -/

/-- No command but that of a header comes to a fault. -/
theorem perform_fault {c : Command} (h : c.concern ≠ .header) : (s.perform scale c).2 = none := by
  cases c with
  | header dual resolution => exact absurd rfl h
  | restore index =>
      unfold perform
      dsimp only
      cases s.player.restore? index <;> rfl
  | _ => rfl

/-- A header comes to a fault only if its payload ends before the resolution does. Its flag counts
in any case. -/
theorem handle_header_short {f : Fault}
    (h : (s.handle scale .header flags payload).2 = some f) :
    payload.length < 16 ∧
      (s.handle scale .header flags payload).1 =
        s.update fun p => { p with dual := hasFlag flags 1 } := by
  have hread := takes_resolution.from_eq_ok payload 8
  rw [handle_of_ok (Command.ofRecord_header flags payload)] at h ⊢
  simp only [perform, header] at h ⊢
  cases hresolution : resolution.from payload 8 with
  | ok values =>
      rw [hresolution] at h
      cases h
  | error cause =>
      rw [hresolution] at hread
      refine ⟨Nat.lt_of_not_le fun hlong => ?_, rfl⟩
      obtain ⟨values, hvalues⟩ := hread.2 hlong
      cases hvalues

/-- A record that is skipped and is not a header does nothing. -/
theorem handle_eq_of_ne_header {f : Fault} (hkind : kind ≠ .header)
    (h : (s.handle scale kind flags payload).2 = some f) :
    (s.handle scale kind flags payload).1 = s := by
  cases hread : Command.ofRecord kind flags payload with
  | error cause => rw [handle_of_error hread]
  | ok c =>
      rw [handle_of_ok hread, perform_fault (Command.concern_ne_header hkind hread)] at h
      cases h

/-- A record that is skipped leaves everything as it is, with one exception: of a header that is
cut short, the flag has been taken over. So nothing at all has changed if and only if the record
is not a header, or is one whose flag says what the player knows already. All that playing such a
record adds is that it is counted, that it may end the arrival of an object, and the message about
it. -/
theorem handle_skipped {f : Fault} (h : (s.handle scale kind flags payload).2 = some f) :
    let t := (s.handle scale kind flags payload).1
    (kind ≠ .header → t = s) ∧
      (kind = .header →
        payload.length < 16 ∧ t = s.update fun p => { p with dual := hasFlag flags 1 }) ∧
      (t = s ↔ (kind = .header → s.player.dual = hasFlag flags 1)) ∧
      ∀ r : Stage, r.arrive kind = s →
        r.playRecord scale kind flags payload =
          t.note .warn s!"EMF+ record {kind.name} skipped: {f.message}" := by
  intro t
  have hother : kind ≠ .header → t = s := fun hkind => handle_eq_of_ne_header hkind h
  have hheader : kind = .header →
      payload.length < 16 ∧ t = s.update fun p => { p with dual := hasFlag flags 1 } := by
    rintro rfl
    exact handle_header_short h
  refine ⟨hother, hheader, ⟨fun hsame hkind => ?_, fun hdual => ?_⟩, ?_⟩
  · -- a header leaves the stage as it is only if the flag was set before
    have hflag := congrArg (·.player.dual) ((hheader hkind).2.symm.trans hsame)
    exact hflag.symm
  · by_cases hkind : kind = .header
    · rw [(hheader hkind).2, ← hdual hkind]
      rfl
    · exact hother hkind
  · rintro r rfl
    rw [playRecord_eq, report, h]

/-- The payload of a record that fills a red rectangle. -/
def redRectangle : Bytes := [0, 0, 0xff, 0xff, 1, 0, 0, 0, 1, 0, 2, 0, 10, 0, 20, 0]

/-- A header with a flag and no payload is skipped, but its flag counts: the rectangle that
follows is not drawn, and without the header it would be. -/
theorem short_header_counts :
    let s : Stage := ⟨.initial, #[], #[]⟩
    let t := (s.handle 1 .header 1 []).1
    (s.handle 1 .header 1 []).2 = some (.outOfBounds (.span 0 8 0)) ∧
      s.player.dual = false ∧ t.player.dual = true ∧
      (s.playRecord 1 .fillRects 0xC000 redRectangle).drawn.size = 1 ∧
      (t.playRecord 1 .fillRects 0xC000 redRectangle).drawn.size = 0 := by
  decide +kernel

/-- A container that is cut short inside of its second rectangle is skipped. It leaves the state
that was saved before it as it is and saves none, and all that is left of it is the message. A
header that is cut short inside of its resolution is skipped as well, and what it changes is the
flag. -/
theorem handle_skipped_container :
    let r : Stage := (⟨.initial, #[], #[]⟩ : Stage).playRecord 1 .save 0 [7, 0, 0, 0]
    let s : Stage := r.arrive .beginContainer
    let cut : Bytes := List.replicate 16 1 ++ [2, 3, 4, 5]
    r.player.saved.map (·.index) = [7] ∧
      (s.handle 1 .beginContainer 0 cut).2 = some (.outOfBounds .shortRead) ∧
      (s.handle 1 .beginContainer 0 cut).1 = s ∧
      r.playRecord 1 .beginContainer 0 cut =
        s.note .warn ("EMF+ record EmfPlusBeginContainer skipped: Out of bounds: " ++
          "read past end of record: failed to fill whole buffer") ∧
      (s.handle 1 .header 1 (List.replicate 12 0)).2 = some (.outOfBounds .shortRead) ∧
      (s.handle 1 .header 1 (List.replicate 12 0)).1 =
        s.update fun p => { p with dual := true } := by
  intro r s cut
  have hcontainer : (s.handle 1 .beginContainer 0 cut).2 = some (.outOfBounds .shortRead) := by
    decide +kernel
  have hheader : (s.handle 1 .header 1 (List.replicate 12 0)).2 =
      some (.outOfBounds .shortRead) := by decide +kernel
  obtain ⟨hskipped, _, _, hplayed⟩ := handle_skipped hcontainer
  have hsame := hskipped nofun
  refine ⟨by decide +kernel, hcontainer, hsame, ?_, hheader, ((handle_skipped hheader).2.1 rfl).2⟩
  rw [hplayed r rfl, hsame]
  exact congrArg (s.note .warn) (by decide +kernel)

end Stage

end Metafile.Plus
