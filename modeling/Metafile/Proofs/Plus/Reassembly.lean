import Mathlib.Data.List.Forall2
import Metafile.Proofs.Plus.Comments

/-!
# `Metafile.Proofs.Plus.Reassembly`: what arrives in pieces is stored once, in order

The pieces of objects arrive in any order, with any announced totals, and between records of other
kinds. A `Ledger` is a stage with a list of the contents that were handed to `Stage.store`. It
does what the stage does (`Ledger.stage_playCues`), so the list says what is stored although
content that cannot be read leaves no object behind.

`arrivals` are the pieces in the order of their records, each with the number of records of other
kinds before it. `stored_arrivals` states that the stored contents are the arrivals cut into
consecutive groups: each content is put together from the pieces of one object, with no record of
another kind between them, and every piece is in exactly one content.
-/

set_option autoImplicit false

namespace Metafile.Plus

/-- A content, or a piece of one, with the type and the number of its object. -/
structure Delivery where
  type : Nat
  id : Nat
  content : Bytes
deriving DecidableEq, Repr

/-! ### A stage with a list of what is stored -/

/-- A stage with the contents that were stored, in order. -/
structure Ledger where
  stage : Stage
  stored : List Delivery

namespace Ledger

/-- Does something to the stage that stores nothing. -/
def alter (f : Stage → Stage) (l : Ledger) : Ledger := { l with stage := f l.stage }

/-- Stores a content, and notes that it was. -/
def store (type id : Nat) (content : Bytes) (l : Ledger) : Ledger :=
  ⟨l.stage.store type id content, l.stored ++ [⟨type, id, content⟩]⟩

/-- Makes an object the pending one. -/
def await (p : Pending) (l : Ledger) : Ledger :=
  l.alter (·.update fun q => { q with pending := some p })

/-- Ends the arrival of the pending object, as `Stage.flush` does. -/
def flush (l : Ledger) : Ledger :=
  match l.stage.player.pending with
  | none => l
  | some p => (l.alter (·.update fun q => { q with pending := none })).store p.type p.id p.content

/-- Ends the arrival of the pending object if all of it is there. -/
def settle (l : Ledger) : Ledger :=
  if l.stage.player.pending.isComplete then l.flush else l

/-- Takes a piece of an object, as `Stage.receive` does. -/
def receive (type id : Nat) (fragment : Fragment) (l : Ledger) : Ledger :=
  match fragment with
  | .last content =>
    match l.stage.player.pending.append? type id content with
    | some p => (l.await p).flush
    | none => l.flush.store type id content
  | .part total content =>
    match l.stage.player.pending.append? type id content with
    | some p => (l.await p).settle
    | none => (l.flush.await ⟨type, id, total, content⟩).settle

/-- Does what a command says, as `Stage.perform` does. -/
def perform (scale : Float) (l : Ledger) (c : Command) : Ledger × Option Fault :=
  match c with
  | .object type id fragment => (l.receive type id fragment, none)
  | c => (l.alter fun s => (s.perform scale c).1, (l.stage.perform scale c).2)

/-- Counts a record, and ends the arrival of an object if the record is about something else. -/
def turnTo (kind : Kind) (l : Ledger) : Ledger :=
  let l := l.alter (·.update fun p => { p with records := p.records + 1 })
  if kind ≠ .object && l.stage.player.pending.isSome then
    (l.alter (·.note .debug s!"EMF+ {kind.name} ends a pending object early")).flush
  else l

/-- Says why a part of a record was not done, if there is a reason. -/
def report (kind : Kind) (l : Ledger) : Option Fault → Ledger
  | none => l
  | some f => l.alter (·.note .warn s!"EMF+ record {kind.name} skipped: {f.message}")

/-- Plays a record, as `Stage.playRecord` does. -/
def playRecord (scale : Float) (kind : Kind) (flags : Nat) (payload : Bytes) (l : Ledger) :
    Ledger :=
  match Command.ofRecord kind flags payload with
  | .ok c => ((l.turnTo kind).perform scale c).1.report kind ((l.turnTo kind).perform scale c).2
  | .error f => (l.turnTo kind).report kind (some f)

/-- Plays records, one after the other. -/
def playCues (cues : List Stage.Cue) (l : Ledger) : Ledger :=
  cues.foldl (fun l q => l.playRecord q.scale q.kind q.flags q.payload) l

/-- Ends the playing, as `Stage.finish` does. -/
def finish (l : Ledger) : Ledger :=
  if l.stage.player.pending.isSome then
    (l.alter (·.note .warn "EMF+ object continuation unresolved at end of file")).flush
  else l

/-! ### The stage of a ledger -/

/-- A ledger ends an arrival as its stage does. -/
theorem stage_flush (l : Ledger) : l.flush.stage = l.stage.flush := by
  unfold flush Stage.flush
  cases l.stage.player.pending <;> rfl

/-- A ledger ends a complete arrival as its stage does. -/
theorem stage_settle (l : Ledger) :
    l.settle.stage =
      if l.stage.player.pending.isComplete then l.stage.flush else l.stage := by
  unfold settle
  split
  · exact l.stage_flush
  · rfl

/-- A ledger takes a piece as its stage does. -/
theorem stage_receive (type id : Nat) (fragment : Fragment) (l : Ledger) :
    (l.receive type id fragment).stage = l.stage.receive type id fragment := by
  cases fragment with
  | last content =>
      simp only [receive, Stage.receive]
      cases l.stage.player.pending.append? type id content with
      | some p => exact stage_flush _
      | none =>
          show l.flush.stage.store type id content = _
          rw [stage_flush]
  | part total content =>
      simp only [receive, Stage.receive]
      cases l.stage.player.pending.append? type id content with
      | some p => exact stage_settle _
      | none =>
          rw [stage_settle]
          show (if (l.flush.stage.update _).player.pending.isComplete then _ else _) = _
          rw [await, alter, stage_flush]

/-- A ledger does what a command says as its stage does, and for the same reason not. -/
theorem stage_perform (scale : Float) (l : Ledger) (c : Command) :
    (l.perform scale c).1.stage = (l.stage.perform scale c).1 ∧
      (l.perform scale c).2 = (l.stage.perform scale c).2 := by
  cases c with
  | object type id fragment => exact ⟨stage_receive type id fragment l, rfl⟩
  | _ => exact ⟨rfl, rfl⟩

/-- A ledger turns to the next record as its stage does. -/
theorem stage_turnTo (kind : Kind) (l : Ledger) :
    (l.turnTo kind).stage =
      let s := l.stage.update fun p => { p with records := p.records + 1 }
      if kind ≠ .object && s.player.pending.isSome then
        (s.note .debug s!"EMF+ {kind.name} ends a pending object early").flush
      else s := by
  have hready (l : Ledger) (text : String) :
      (if kind ≠ .object && l.stage.player.pending.isSome then
        (l.alter (·.note .debug text)).flush else l).stage =
      if kind ≠ .object && l.stage.player.pending.isSome then
        (l.stage.note .debug text).flush else l.stage := by
    split
    · exact stage_flush _
    · rfl
  exact hready _ _

/-- A ledger plays a record as its stage does. -/
theorem stage_playRecord (scale : Float) (kind : Kind) (flags : Nat) (payload : Bytes)
    (l : Ledger) :
    (l.playRecord scale kind flags payload).stage =
      l.stage.playRecord scale kind flags payload := by
  have hturned := l.stage_turnTo kind
  dsimp only at hturned
  unfold playRecord Stage.playRecord
  dsimp only
  rw [← hturned]
  cases Command.ofRecord kind flags payload with
  | error cause => rfl
  | ok c =>
      obtain ⟨hstage, hfault⟩ := stage_perform scale (l.turnTo kind) c
      dsimp only
      rw [← hfault, ← hstage]
      cases ((l.turnTo kind).perform scale c).2 <;> rfl

/-- A ledger does what its stage does. -/
theorem stage_playCues (cues : List Stage.Cue) (l : Ledger) :
    (l.playCues cues).stage = l.stage.playCues cues := by
  induction cues generalizing l with
  | nil => rfl
  | cons q rest ih =>
      have hrest := ih (l.playRecord q.scale q.kind q.flags q.payload)
      rwa [stage_playRecord] at hrest

/-- A ledger ends the playing as its stage does. -/
theorem stage_finish (l : Ledger) : l.finish.stage = l.stage.finish := by
  unfold finish Stage.finish
  split
  · exact stage_flush _
  · rfl

end Ledger

/-! ### Records about objects and others -/

/-- Whether a command is about a piece of an object. -/
def Command.isObject : Command → Bool
  | .object .. => true
  | _ => false

/-- Only records of their own kind are about objects. -/
theorem Command.ofRecord_isObject {kind : Kind} {flags : Nat} {payload : Bytes} {c : Command}
    (hkind : kind ≠ .object) (h : ofRecord kind flags payload = .ok c) : c.isObject = false := by
  have hdecode : (decode kind flags payload).Yields fun c => c.isObject = false := by
    cases kind with
    | object => exact absurd rfl hkind
    | _ =>
        -- every other reading ends in a command of its own
        repeat' refine Decode.yields_bind fun _ => ?_
        exact Decode.yields_pure rfl
  exact hdecode.first h

/-! ### The pending object -/

namespace Stage

/-- What is stored is not pending, and what is pending stays so. -/
theorem pending_store (s : Stage) (type id : Nat) (content : Bytes) :
    (s.store type id content).player.pending = s.player.pending := by
  unfold store
  cases Object.ofBytes type content <;> rfl

/-- Nothing is pending when the pending object has been given up. -/
theorem pending_flush (s : Stage) : s.flush.player.pending = none := by
  unfold flush
  cases hpending : s.player.pending with
  | none => exact hpending
  | some p => exact pending_store _ p.type p.id p.content

/-- A pending object has fewer bytes than were announced. -/
def Short (s : Stage) : Prop := ∀ p, s.player.pending = some p → p.content.length < p.total

/-- Where nothing is pending, nothing is too long. -/
theorem Short.of_none {s : Stage} (h : s.player.pending = none) : s.Short := by
  intro p hp
  rw [h] at hp
  cases hp

/-- Whether the pending object is short is seen from the pending object alone. -/
theorem Short.of_same {s t : Stage} (h : s.Short) (hsame : t.player.pending = s.player.pending) :
    t.Short := by
  intro p hp
  exact h p (hsame ▸ hp)

/-- An object with all bytes that were announced is given up, so what is pending is short. -/
theorem settled_short (s : Stage) :
    (if s.player.pending.isComplete then s.flush else s).Short := by
  split
  · exact .of_none s.pending_flush
  · rename_i hincomplete
    intro p hp
    rw [hp] at hincomplete
    have hmissing : ¬p.total ≤ p.content.length := fun hle => hincomplete (decide_eq_true hle)
    exact Nat.lt_of_not_le hmissing

/-- Whatever is announced, an object that is pending after a piece lacks bytes. -/
theorem receive_short (s : Stage) (type id : Nat) (fragment : Fragment) :
    (s.receive type id fragment).Short := by
  cases fragment with
  | last content =>
      simp only [receive]
      cases s.player.pending.append? type id content with
      | some p => exact .of_none (pending_flush _)
      | none => exact .of_none ((pending_store _ type id content).trans (pending_flush s))
  | part total content =>
      simp only [receive]
      cases s.player.pending.append? type id content with
      | some p => exact settled_short _
      | none => exact settled_short _

/-- A command that is not about an object leaves the pending object alone. -/
theorem pending_perform (scale : Float) (s : Stage) {c : Command} (h : c.isObject = false) :
    (s.perform scale c).1.player.pending = s.player.pending := by
  cases c with
  | object type id fragment => cases h
  | header dual resolution => cases resolution <;> rfl
  | restore index =>
      unfold perform
      dsimp only
      split
      · rename_i p hp
        -- a saved state holds no pending object
        unfold Player.restore? at hp
        split at hp
        · cases hp
        · rw [← Option.some.inj hp]
      · rfl
  | _ => rfl

end Stage

namespace Ledger

/-- No object is pending any more once a record is about something else. -/
theorem pending_turnTo (l : Ledger) {kind : Kind} (hkind : kind ≠ .object) :
    (l.turnTo kind).stage.player.pending = none := by
  rw [stage_turnTo]
  dsimp only
  split
  · exact Stage.pending_flush _
  · rename_i hnone
    rwa [decide_eq_true hkind, Bool.true_and, Bool.not_eq_true, Option.isSome_eq_false_iff,
      Option.isNone_iff_eq_none] at hnone

/-- A message says nothing about the pending object. -/
theorem pending_report (l : Ledger) (kind : Kind) (fault : Option Fault) :
    (l.report kind fault).stage.player.pending = l.stage.player.pending := by
  cases fault <;> rfl

/-- After a record that is not about an object nothing is pending. -/
theorem pending_playRecord (l : Ledger) (scale : Float) {kind : Kind} (hkind : kind ≠ .object)
    (flags : Nat) (payload : Bytes) :
    (l.playRecord scale kind flags payload).stage.player.pending = none := by
  unfold playRecord
  split
  · rename_i c hc
    have hother := Command.ofRecord_isObject hkind hc
    rw [pending_report, (stage_perform scale _ c).1, Stage.pending_perform scale _ hother]
    exact l.pending_turnTo hkind
  · rw [pending_report]
    exact l.pending_turnTo hkind

end Ledger

/-- After a record that is not about an object nothing is pending on the stage itself. -/
theorem Stage.pending_playRecord (s : Stage) (scale : Float) {kind : Kind}
    (hkind : kind ≠ .object) (flags : Nat) (payload : Bytes) :
    (s.playRecord scale kind flags payload).player.pending = none := by
  rw [← Ledger.stage_playRecord scale kind flags payload ⟨s, []⟩]
  exact Ledger.pending_playRecord _ scale hkind flags payload

namespace Ledger

/-- Between two records what is pending lacks bytes. -/
theorem playRecord_short {l : Ledger} (h : l.stage.Short) (scale : Float) (kind : Kind)
    (flags : Nat) (payload : Bytes) :
    (l.playRecord scale kind flags payload).stage.Short := by
  by_cases hkind : kind = .object
  · subst hkind
    have hturned : (l.turnTo .object).stage.Short := h.of_same rfl
    unfold playRecord
    split
    · rename_i c hc
      have hpending := pending_report ((l.turnTo .object).perform scale c).1 .object
        ((l.turnTo .object).perform scale c).2
      refine Stage.Short.of_same ?_ hpending
      rw [(stage_perform scale _ c).1]
      by_cases hobject : c.isObject = true
      · cases c with
        | object type id fragment => exact Stage.receive_short _ type id fragment
        | _ => cases hobject
      · exact hturned.of_same (Stage.pending_perform scale _ (Bool.not_eq_true _ ▸ hobject))
    · exact hturned.of_same (pending_report _ _ _)
  · exact .of_none (l.pending_playRecord scale hkind flags payload)

/-- At every place between two records what is pending lacks bytes. -/
theorem playCues_short {l : Ledger} (h : l.stage.Short) (cues : List Stage.Cue) :
    (l.playCues cues).stage.Short := by
  induction cues generalizing l with
  | nil => exact h
  | cons q rest ih => exact ih (playRecord_short h q.scale q.kind q.flags q.payload)

end Ledger

/-! ### What arrives -/

/-- The bytes of a piece, without an announced total. -/
def Fragment.content : Fragment → Bytes
  | .last content => content
  | .part _ content => content

/-- The piece in a record about an object, if it can be read: a piece that is not the last has to
be long enough for the total before it. -/
def piece? (flags : Nat) (payload : Bytes) : Option Delivery :=
  if hasFlag flags 0x8000 then
    if 4 ≤ payload.length then some ⟨flags / 0x100 % 0x80, objectId flags, payload.drop 4⟩
    else none
  else some ⟨flags / 0x100 % 0x80, objectId flags, payload⟩

/-- What a record about an object asks for. -/
theorem Command.ofRecord_object (flags : Nat) (payload : Bytes) :
    ofRecord .object flags payload =
      if hasFlag flags 0x8000 then
        if 4 ≤ payload.length then
          .ok (.object (flags / 0x100 % 0x80) (objectId flags)
            (.part (Bytes.toNat (payload.take 4)) (payload.drop 4)))
        else .error (.outOfBounds .shortRead)
      else .ok (.object (flags / 0x100 % 0x80) (objectId flags) (.last payload)) := by
  show (objectCommand flags payload).first payload = _
  -- the flag says whether the total is in front of the content
  unfold objectCommand
  split
  · show (((Cursor.word 4 (Cursor.start payload)) >>= fun p => pure (_, p.2)) >>=
      fun r => pure r.1) = _
    split
    · rename_i hlength
      rw [Cursor.word_of_fits (c := Cursor.start payload) (by
        show 0 + 4 ≤ payload.length
        omega)]
      rfl
    · rename_i hlength
      have hshort : ((Cursor.start payload).rest.take 4).length ≠ 4 := by
        show (payload.take 4).length ≠ 4
        rw [List.length_take]
        omega
      rw [Cursor.word, dif_neg hshort]
      rfl
  · rfl

/-- A piece that arrives, with the number of records of other kinds before it. -/
structure Arrival where
  epoch : Nat
  piece : Delivery
deriving DecidableEq, Repr

/-- The pieces that arrive with records, after so many records of other kinds. -/
def arrivals (epoch : Nat) : List Stage.Cue → List Arrival
  | [] => []
  | q :: rest =>
    if q.kind = .object then
      ((piece? q.flags q.payload).map (Arrival.mk epoch)).toList ++ arrivals epoch rest
    else arrivals (epoch + 1) rest

/-- A group of pieces makes up a content: all belong to its object, no record of another kind
stands between them, and their contents in order are the content. -/
structure Gathers (group : List Arrival) (d : Delivery) : Prop where
  nonempty : group ≠ []
  together : ∃ epoch, ∀ a ∈ group, a.epoch = epoch
  belongs : ∀ a ∈ group, a.piece.type = d.type ∧ a.piece.id = d.id
  content : d.content = group.flatMap (·.piece.content)

/-! ### What is still arriving -/

/-- A group of pieces is what has arrived of the pending object, with no record of another kind
since its first piece. -/
structure Awaits (epoch : Nat) (group : List Arrival) (p : Pending) : Prop where
  nonempty : group ≠ []
  together : ∀ a ∈ group, a.epoch = epoch
  belongs : ∀ a ∈ group, a.piece.type = p.type ∧ a.piece.id = p.id
  content : p.content = group.flatMap (·.piece.content)

namespace Awaits

variable {epoch : Nat} {group : List Arrival} {p : Pending}

/-- When the pending object is given up, its pieces make up what is stored. -/
theorem gathers (h : Awaits epoch group p) : Gathers group ⟨p.type, p.id, p.content⟩ :=
  ⟨h.nonempty, ⟨epoch, h.together⟩, h.belongs, h.content⟩

/-- The first piece of an object is all that has arrived of it. -/
theorem first (epoch type id total : Nat) (content : Bytes) :
    Awaits epoch [⟨epoch, ⟨type, id, content⟩⟩] ⟨type, id, total, content⟩ where
  nonempty := List.cons_ne_nil _ _
  together a ha := by rw [List.mem_singleton.1 ha]
  belongs a ha := by
    rw [List.mem_singleton.1 ha]
    exact ⟨rfl, rfl⟩
  content := (List.append_nil content).symm

/-- A further piece of the pending object. -/
theorem append {q : Pending} {type id : Nat} {content : Bytes} (h : Awaits epoch group p)
    (happend : p.append? type id content = some q) :
    Awaits epoch (group ++ [⟨epoch, ⟨type, id, content⟩⟩]) q := by
  unfold Pending.append? at happend
  split at happend
  · rename_i hsame
    obtain rfl := Option.some.inj happend
    refine ⟨fun hnil => h.nonempty (List.append_eq_nil_iff.1 hnil).1, ?_, ?_, ?_⟩
    · intro a ha
      rcases List.mem_append.1 ha with ha | ha
      · exact h.together a ha
      · rw [List.mem_singleton.1 ha]
    · intro a ha
      rcases List.mem_append.1 ha with ha | ha
      · exact h.belongs a ha
      · rw [List.mem_singleton.1 ha]
        exact ⟨hsame.1.symm, hsame.2.symm⟩
    · rw [List.flatMap_append, ← h.content]
      show p.content ++ content = p.content ++ (content ++ [])
      rw [List.append_nil]
  · cases happend

end Awaits

/-- A single piece makes up a content of its own. -/
theorem Gathers.single (epoch : Nat) (d : Delivery) : Gathers [⟨epoch, d⟩] d where
  nonempty := List.cons_ne_nil _ _
  together := ⟨epoch, fun a ha => by rw [List.mem_singleton.1 ha]⟩
  belongs a ha := by
    rw [List.mem_singleton.1 ha]
    exact ⟨rfl, rfl⟩
  content := (List.append_nil d.content).symm

namespace Ledger

/-- The contents that were stored are made up of consecutive groups of the arrivals, and the
arrivals after them are those of the pending object. -/
def Accounts (epoch : Nat) (arrived : List Arrival) (l : Ledger) : Prop :=
  ∃ groups rest, groups.flatten ++ rest = arrived ∧ List.Forall₂ Gathers groups l.stored ∧
    match l.stage.player.pending with
    | none => rest = []
    | some p => Awaits epoch rest p

namespace Accounts

variable {epoch : Nat} {arrived : List Arrival} {l m : Ledger}

/-- What changes nothing of the pending object and of the list. -/
theorem of_same (h : Accounts epoch arrived l)
    (hpending : m.stage.player.pending = l.stage.player.pending) (hstored : m.stored = l.stored) :
    Accounts epoch arrived m := by
  obtain ⟨groups, rest, hsplit, hgroups, hrest⟩ := h
  exact ⟨groups, rest, hsplit, hstored ▸ hgroups, hpending ▸ hrest⟩

/-- A message changes nothing. -/
theorem note (h : Accounts epoch arrived l) (level : Level) (text : String) :
    Accounts epoch arrived (l.alter (·.note level text)) :=
  h.of_same rfl rfl

/-- Where nothing is pending, every arrival is part of a stored content. -/
theorem groups (h : Accounts epoch arrived l) (hnone : l.stage.player.pending = none) :
    ∃ groups, groups.flatten = arrived ∧ List.Forall₂ Gathers groups l.stored := by
  obtain ⟨groups, rest, hsplit, hgroups, hrest⟩ := h
  rw [hnone] at hrest
  rw [hrest, List.append_nil] at hsplit
  exact ⟨groups, hsplit, hgroups⟩

/-- Where every arrival is part of a stored content, a record of another kind may follow. -/
theorem of_groups {groups : List (List Arrival)} (epoch : Nat)
    (hgroups : List.Forall₂ Gathers groups l.stored) (hnone : l.stage.player.pending = none) :
    Accounts epoch groups.flatten l :=
  ⟨groups, [], List.append_nil _, hgroups, by rw [hnone]⟩

/-- Where nothing is pending, a record of another kind makes no difference. -/
theorem after (h : Accounts epoch arrived l) (hnone : l.stage.player.pending = none)
    (later : Nat) : Accounts later arrived l := by
  obtain ⟨groups, rfl, hgroups⟩ := h.groups hnone
  exact of_groups later hgroups hnone

/-- A content that arrives at once is a group of its own. -/
theorem store (h : Accounts epoch arrived l) (hnone : l.stage.player.pending = none)
    (type id : Nat) (content : Bytes) :
    Accounts epoch (arrived ++ [⟨epoch, ⟨type, id, content⟩⟩]) (l.store type id content) := by
  obtain ⟨groups, rfl, hgroups⟩ := h.groups hnone
  have hmore : groups.flatten ++ [⟨epoch, ⟨type, id, content⟩⟩] =
      (groups ++ [[Arrival.mk epoch ⟨type, id, content⟩]]).flatten := by
    rw [List.flatten_append, List.flatten_singleton]
  rw [hmore]
  exact of_groups epoch (List.rel_append hgroups (.cons (.single epoch _) .nil))
    ((l.stage.pending_store type id content).trans hnone)

/-- Giving the pending object up stores all pieces of it that arrived. -/
theorem flush (h : Accounts epoch arrived l) : Accounts epoch arrived l.flush := by
  obtain ⟨groups, rest, hsplit, hgroups, hrest⟩ := h
  have hnone : l.flush.stage.player.pending = none := by rw [stage_flush, Stage.pending_flush]
  cases hpending : l.stage.player.pending with
  | none =>
      rw [hpending] at hrest
      rw [hrest, List.append_nil] at hsplit
      have hsame : l.flush = l := by rw [Ledger.flush, hpending]
      rw [hsame, ← hsplit]
      exact of_groups epoch hgroups hpending
  | some p =>
      rw [hpending] at hrest
      have hmore : (groups ++ [rest]).flatten = arrived := by
        rw [List.flatten_append, List.flatten_singleton, hsplit]
      rw [← hmore]
      refine of_groups epoch ?_ hnone
      have hstored : l.flush.stored = l.stored ++ [⟨p.type, p.id, p.content⟩] := by
        rw [Ledger.flush, hpending]
        rfl
      rw [hstored]
      exact List.rel_append hgroups (.cons hrest.gathers .nil)

/-- Whether the pending object is complete or not, everything that arrived stays accounted for. -/
theorem settle (h : Accounts epoch arrived l) : Accounts epoch arrived l.settle := by
  unfold Ledger.settle
  split
  · exact h.flush
  · exact h

/-- A piece of the pending object. -/
theorem append (h : Accounts epoch arrived l) {type id : Nat} {content : Bytes} {p : Pending}
    (happend : l.stage.player.pending.append? type id content = some p) :
    Accounts epoch (arrived ++ [⟨epoch, ⟨type, id, content⟩⟩]) (l.await p) := by
  obtain ⟨groups, rest, hsplit, hgroups, hrest⟩ := h
  obtain ⟨q, hpending, happend⟩ := Option.bind_eq_some_iff.1 happend
  rw [hpending] at hrest
  have hmore := hrest.append happend
  exact ⟨groups, _, by rw [← List.append_assoc, hsplit], hgroups, hmore⟩

/-- The first piece of an object. -/
theorem await (h : Accounts epoch arrived l) (hnone : l.stage.player.pending = none)
    (type id total : Nat) (content : Bytes) :
    Accounts epoch (arrived ++ [⟨epoch, ⟨type, id, content⟩⟩])
      (l.await ⟨type, id, total, content⟩) := by
  obtain ⟨groups, rfl, hgroups⟩ := h.groups hnone
  exact ⟨groups, _, rfl, hgroups, .first epoch type id total content⟩

/-- A piece that is taken has arrived. -/
theorem receive (h : Accounts epoch arrived l) (type id : Nat) (fragment : Fragment) :
    Accounts epoch (arrived ++ [⟨epoch, ⟨type, id, fragment.content⟩⟩])
      (l.receive type id fragment) := by
  have hnone : l.flush.stage.player.pending = none := by rw [stage_flush, Stage.pending_flush]
  cases fragment with
  | last content =>
      simp only [Ledger.receive]
      cases happend : l.stage.player.pending.append? type id content with
      | some p => exact (h.append happend).flush
      | none => exact h.flush.store hnone type id content
  | part total content =>
      simp only [Ledger.receive]
      cases happend : l.stage.player.pending.append? type id content with
      | some p => exact (h.append happend).settle
      | none => exact (h.flush.await hnone type id total content).settle

/-- A record is counted, and the pending object may be given up. -/
theorem turnTo (h : Accounts epoch arrived l) (kind : Kind) :
    Accounts epoch arrived (l.turnTo kind) := by
  have hcounted : Accounts epoch arrived
      (l.alter (·.update fun p => { p with records := p.records + 1 })) := h.of_same rfl rfl
  unfold Ledger.turnTo
  dsimp only
  split
  · exact (hcounted.note ..).flush
  · exact hcounted

/-- What is not about an object stores nothing. -/
theorem perform (h : Accounts epoch arrived l) (scale : Float) {c : Command}
    (hother : c.isObject = false) : Accounts epoch arrived (l.perform scale c).1 := by
  have hpending := Stage.pending_perform scale l.stage hother
  cases c with
  | object type id fragment => cases hother
  | _ => exact h.of_same hpending rfl

/-- A message changes nothing that is accounted for. -/
theorem report (h : Accounts epoch arrived l) (kind : Kind) (fault : Option Fault) :
    Accounts epoch arrived (l.report kind fault) := by
  cases fault with
  | none => exact h
  | some f => exact h.note ..

/-- After a record about an object its piece has arrived, if it could be read. -/
theorem playRecord_object (h : Accounts epoch arrived l) (scale : Float) (flags : Nat)
    (payload : Bytes) :
    Accounts epoch (arrived ++ ((piece? flags payload).map (Arrival.mk epoch)).toList)
      (l.playRecord scale .object flags payload) := by
  unfold Ledger.playRecord piece?
  rw [Command.ofRecord_object]
  split
  · split
    · exact (h.turnTo .object).receive _ _
        (.part (Bytes.toNat (payload.take 4)) (payload.drop 4))
    · rw [Option.map_none, Option.toList_none, List.append_nil]
      exact (h.turnTo .object).report ..
  · exact (h.turnTo .object).receive _ _ (.last payload)

/-- A record of another kind gives the pending object up. -/
theorem playRecord_other (h : Accounts epoch arrived l) (scale : Float) {kind : Kind}
    (hkind : kind ≠ .object) (flags : Nat) (payload : Bytes) (later : Nat) :
    Accounts later arrived (l.playRecord scale kind flags payload) := by
  have hplayed : Accounts epoch arrived (l.playRecord scale kind flags payload) := by
    unfold Ledger.playRecord
    split
    · rename_i c hc
      exact ((h.turnTo kind).perform scale (Command.ofRecord_isObject hkind hc)).report ..
    · exact (h.turnTo kind).report ..
  exact hplayed.after (l.pending_playRecord scale hkind flags payload) later

/-- After any records everything that arrived is accounted for. -/
theorem playCues (h : Accounts epoch arrived l) (cues : List Stage.Cue) :
    ∃ later, Accounts later (arrived ++ arrivals epoch cues) (l.playCues cues) := by
  induction cues generalizing epoch arrived l with
  | nil => exact ⟨epoch, by rwa [arrivals, List.append_nil]⟩
  | cons q rest ih =>
      rw [arrivals]
      split
      · rename_i hkind
        rw [← List.append_assoc]
        obtain ⟨scale, kind, flags, payload⟩ := q
        obtain rfl : kind = .object := hkind
        exact ih (h.playRecord_object scale flags payload)
      · rename_i hkind
        exact ih (h.playRecord_other q.scale hkind q.flags q.payload (epoch + 1))

/-- After the end nothing is pending, so everything that arrived was stored. -/
theorem finish (h : Accounts epoch arrived l) : Accounts epoch arrived l.finish := by
  unfold Ledger.finish
  split
  · exact (h.note ..).flush
  · exact h

end Accounts

/-- Before the first record nothing has arrived and nothing is stored. -/
theorem accounts_initial {s : Stage} (h : s.player.pending = none) : Accounts 0 [] ⟨s, []⟩ :=
  ⟨[], [], rfl, .nil, by rw [h]⟩

end Ledger

/-! ### The whole run -/

/-- The end of the playing leaves nothing pending. -/
theorem Stage.pending_finish (s : Stage) : s.finish.player.pending = none := by
  unfold finish
  split
  · exact pending_flush _
  · rename_i hnone
    rwa [Bool.not_eq_true, Option.isSome_eq_false_iff, Option.isNone_iff_eq_none] at hnone

/-- The playing of stages that are alike ends alike. -/
theorem Stage.Alike.finish {s t : Stage} (h : Alike s t) : Alike s.finish t.finish := by
  unfold Stage.finish
  rw [h.player]
  split
  · exact (h.notes ..).flush
  · exact h

/-- The contents of groups are the contents of their pieces. -/
theorem flatMap_content {groups : List (List Arrival)} {stored : List Delivery}
    (h : List.Forall₂ Gathers groups stored) :
    stored.flatMap (·.content) = groups.flatten.flatMap (·.piece.content) := by
  induction h with
  | nil => rfl
  | cons hgroup _ ih =>
      rw [List.flatMap_cons, hgroup.content, ih, List.flatten_cons, List.flatMap_append]

/-- Nothing is lost and nothing is stored twice. Whatever comments are played from the first on,
and then the playing is ended: the contents that were handed to `Stage.store` are the pieces that
arrived, cut into consecutive groups. Between two records the pending object has fewer bytes than
were announced, and nothing is pending after a record that is not about an object, nor at the end.
-/
theorem stored_arrivals (verbose : Bool) (comments : List Stage.Comment)
    (drawn : Array Markup.Piece) (log : Log) :
    let start : Stage := ⟨.initial, drawn, log⟩
    let cues := comments.flatMap Stage.Comment.cues
    let ledger := (Ledger.playCues cues ⟨start, []⟩).finish
    Stage.Alike (start.playAll verbose comments).finish ledger.stage ∧
      (∃ groups, groups.flatten = arrivals 0 cues ∧
        List.Forall₂ Gathers groups ledger.stored) ∧
      ledger.stored.flatMap (·.content) = (arrivals 0 cues).flatMap (·.piece.content) ∧
      (∀ n, (start.playCues (cues.take n)).Short) ∧
      (∀ n q, cues[n]? = some q → q.kind ≠ .object →
        (start.playCues (cues.take (n + 1))).player.pending = none) ∧
      (start.playAll verbose comments).finish.player.pending = none := by
  intro start cues ledger
  have hnone : start.player.pending = none := rfl
  -- the ledger accounts for the arrivals, and nothing is pending once it is finished
  obtain ⟨later, haccounts⟩ := (Ledger.accounts_initial hnone).playCues cues
  have hpending : ledger.stage.player.pending = none := by
    rw [Ledger.stage_finish, Stage.pending_finish]
  obtain ⟨groups, hgroups, hstored⟩ := haccounts.finish.groups hpending
  have hstage : ledger.stage = (start.playCues cues).finish := by
    rw [Ledger.stage_finish, Ledger.stage_playCues]
  refine ⟨?_, ⟨groups, hgroups, hstored⟩, ?_, ?_, ?_, Stage.pending_finish _⟩
  · rw [hstage]
    exact (Stage.playAll_alike verbose comments start).finish
  · rw [flatMap_content hstored, hgroups]
    rfl
  · intro n
    rw [← Ledger.stage_playCues _ ⟨start, []⟩]
    exact Ledger.playCues_short (.of_none hnone) _
  · intro n q hq hkind
    rw [List.take_add_one, hq, Option.toList_some, Stage.playCues_append]
    exact Stage.pending_playRecord _ q.scale hkind q.flags q.payload

end Metafile.Plus
