import Metafile.Record.Command

/-!
# `Metafile.Proofs.Record.Reading`: which records ask for what

`Command.ofRecord` turns the bytes of a record into a command. Most of what is said about a run
depends on the kinds of its records and not on their bytes, so this module goes from one to the
other. A record that begins a path asks for nothing but `Command.beginPath`, and no other record
asks for it. `Command.ofRecord_soleKind?` says so for all kinds that have a command of their own.

A change of the world transform is read in two places: by the walk over the stream, and again when
the record is played. `Command.ofRecord_transform` states that both read the same change.

`Decode.Yields` is the tool: a property of every value that a reading procedure may give.
-/

set_option autoImplicit false

namespace Metafile

/-! ### Every value that a reading gives -/

/-- An answer that is there when the reasons for others are forgotten was there before. -/
theorem eq_ok_of_toOption {ε α : Type} {r : Except ε α} {v : α} (h : r.toOption = some v) :
    r = .ok v := by
  cases r with
  | ok w => exact congrArg _ (Option.some.inj h)
  | error cause => cases h

namespace Decode

variable {α β : Type}

/-- Every value that a reading procedure gives has a property, whatever the bytes are. -/
def Yields (d : Decode α) (P : α → Prop) : Prop :=
  ∀ (c : Cursor) (v : α) (c' : Cursor), d c = .ok (v, c') → P v

/-- A chain of readings gives something where both of them do. -/
theorem bind_eq_ok {d : Decode α} {f : α → Decode β} {c c' : Cursor} {w : β}
    (h : (d >>= f) c = .ok (w, c')) : ∃ v m, d c = .ok (v, m) ∧ f v m = .ok (w, c') := by
  change (d c >>= fun p => f p.1 p.2) = .ok (w, c') at h
  obtain ⟨p, hd, hf⟩ := of_bind_eq_ok h
  exact ⟨p.1, p.2, hd, hf⟩

/-- What is read from the first byte on is read at the beginning. -/
theorem first_eq_ok {d : Decode α} {data : Bytes} {v : α} (h : d.first data = .ok v) :
    ∃ c, d (Cursor.start data) = .ok (v, c) := by
  obtain ⟨p, hd, hvalue⟩ := of_bind_eq_ok h
  obtain rfl : p.1 = v := Except.ok.inj hvalue
  exact ⟨p.2, hd⟩

/-- A value that is given at once has the properties that it has. -/
theorem yields_pure {P : α → Prop} {v : α} (h : P v) : Yields (pure v) P := by
  intro c w c' hw
  obtain ⟨rfl, _⟩ := Prod.mk.inj (Except.ok.inj hw)
  exact h

/-- A reading that always fails gives no value that could lack a property. -/
theorem yields_throw {P : α → Prop} (fault : Fault) : Yields (throw fault : Decode α) P :=
  fun _ _ _ h => nomatch h

/-- What a chain of readings gives is what the last of them gives. -/
theorem yields_bind {P : β → Prop} {d : Decode α} {f : α → Decode β}
    (h : ∀ v, Yields (f v) P) : Yields (d >>= f) P := by
  intro c w c' hw
  obtain ⟨v, m, _, hlast⟩ := bind_eq_ok hw
  exact h v m w c' hlast

/-- A function of what is read gives its values there. -/
theorem Yields.map {P : α → Prop} {Q : β → Prop} {d : Decode α} {f : α → β} (h : Yields d P)
    (hf : ∀ v, P v → Q (f v)) : Yields (do return f (← d)) Q := by
  intro c w c' hw
  obtain ⟨v, m, hd, hlast⟩ := bind_eq_ok hw
  obtain ⟨rfl, _⟩ := Prod.mk.inj (Except.ok.inj hlast)
  exact hf v (h c v m hd)

/-- The value read from the first byte on. -/
theorem Yields.first {P : α → Prop} {d : Decode α} (h : Yields d P) {data : Bytes} {v : α}
    (hv : d.first data = .ok v) : P v := by
  obtain ⟨c, hd⟩ := first_eq_ok hv
  exact h _ v c hd

/-- Going to an offset first is reading from that offset on. -/
theorem first_seek_bind (d : Decode α) (data : Bytes) (offset : Nat) :
    (do Cursor.seek offset; d : Decode α).first data = d.from data offset := by
  unfold Decode.first Decode.from
  -- the two chains of readings differ in their brackets only
  change ((Cursor.seek offset (Cursor.start data) >>= fun p => d p.2) >>= _) = _
  cases Cursor.seek offset (Cursor.start data) <;> rfl

/-- A function of what is read is applied after the reading. -/
theorem first_map (d : Decode α) (f : α → β) (data : Bytes) :
    (do return f (← d) : Decode β).first data = (d.first data).map f := by
  unfold Decode.first
  change ((d (Cursor.start data) >>= fun q => (pure (f q.1) : Decode β) q.2) >>= fun q =>
    pure q.1) = ((d (Cursor.start data) >>= fun q => pure q.1) : Except Fault α).map f
  cases d (Cursor.start data) <;> rfl

/-- A function of what is read from an offset on is applied after the reading. -/
theorem from_map (d : Decode α) (f : α → β) (data : Bytes) (offset : Nat) :
    (do return f (← d) : Decode β).from data offset = (d.from data offset).map f := by
  unfold Decode.from
  cases Cursor.seek offset (Cursor.start data) with
  | error cause => rfl
  | ok p =>
      change ((d p.2 >>= fun q => (pure (f q.1) : Decode β) q.2) >>= fun q => pure q.1) =
        ((d p.2 >>= fun q => pure q.1) : Except Fault α).map f
      cases d p.2 <;> rfl

end Decode

namespace Cursor

/-- Reading so many values gives so many. -/
theorem yields_many {α : Type} (one : Decode α) (count : Nat) :
    (many count one).Yields fun vs => vs.length = count := by
  induction count with
  | zero => exact Decode.yields_pure rfl
  | succ n ih =>
      exact Decode.yields_bind fun first =>
        ih.map (f := (first :: ·)) fun _ h => congrArg (· + 1) h

/-- Reading so many bytes gives so many. -/
theorem yields_bytes (count : Nat) : (bytes count).Yields fun bs => bs.length = count := by
  intro c bs c' h
  unfold bytes at h
  split at h
  · rename_i hroom
    rw [← (Prod.mk.inj (Except.ok.inj h)).1, c.rest_eq, List.length_take, List.length_drop]
    omega
  · cases h

end Cursor

namespace Record

/-- A shape that is read is drawn. -/
theorem first_draw {α : Type} (d : Decode α) (shape : α → Shape) (body : Bytes) :
    (do let s ← (do return shape (← d) : Decode Shape); return .draw s : Decode Command).first
      body = (d.first body).map fun v => .draw (shape v) := by
  rw [Decode.first_map, Decode.first_map]
  cases d.first body <;> rfl

/-! ### Kinds with a command of their own -/

/-- Whether the records of a kind ask for a command that no other record asks for. -/
def Kind.isSole : Kind → Bool
  | .header | .endOfFile | .beginPath | .endPath | .closeFigure | .abortPath | .flattenPath
  | .saveContext | .restoreContext => true
  | _ => false

namespace Command

/-- The kind of the records that alone ask for a command, if there is one. -/
def soleKind? : Command → Option Kind
  | .header _ => some .header
  | .endOfFile => some .endOfFile
  | .beginPath => some .beginPath
  | .endPath => some .endPath
  | .closeFigure => some .closeFigure
  | .abortPath => some .abortPath
  | .flattenPath => some .flattenPath
  | .save => some .saveContext
  | .restore _ => some .restoreContext
  | _ => none

/-- The change of the world transform that a command asks for. -/
def change? : Command → Option TransformChange
  | .transform t => some t
  | _ => none

end Command

/-- Whether the records of a kind change the world transform. -/
def Kind.isTransform : Kind → Bool
  | .setWorldTransform | .modifyWorldTransform => true
  | _ => false

namespace Command

/-- A command has the sort of a kind: it is the command of that kind if the kind has one of its
own, and it changes the world transform if the records of the kind do. -/
def Fits (kind : Kind) (c : Command) : Prop :=
  c.soleKind? = (if kind.isSole then some kind else none) ∧ c.change?.isSome = kind.isTransform

/-- A record that draws a shape has no command of its own and changes no world transform. -/
private theorem plain_of_shape {kind : Kind} {d : Decode Shape}
    (h : Shape.decode? kind = some d) : kind.isSole = false ∧ kind.isTransform = false := by
  cases kind <;> first | exact ⟨rfl, rfl⟩ | cases h

/-- So has a record that makes a setting. -/
private theorem plain_of_setting {kind : Kind} {d : Decode Setting}
    (h : Setting.decode? kind = some d) : kind.isSole = false ∧ kind.isTransform = false := by
  cases kind <;> first | exact ⟨rfl, rfl⟩ | cases h

/-- Reading a command that needs no further look at its value. -/
private theorem fits_bind {α : Type} {kind : Kind} {d : Decode α} {f : α → Command}
    (h : ∀ v, Fits kind (f v)) : (do return f (← d) : Decode Command).Yields (Fits kind) :=
  Decode.yields_bind fun v => Decode.yields_pure (h v)

/-- The fields of a record whose command is not known from its kind give a command of its sort. -/
private theorem decodeFields_fits {kind : Kind} (size : Nat)
    (h : kind.isSole = true → kind = .restoreContext) :
    (decodeFields kind size).Yields (Fits kind) := by
  unfold decodeFields
  split
  -- whatever fields are read before it, the command comes last
  all_goals
    try simp only [penCommand, extendedPenCommand, brushCommand, patternCommand, fontCommand,
      regionCommand, labelCommand, smallLabelCommand]
  all_goals
    repeat first
      | exact Decode.yields_pure ⟨rfl, rfl⟩
      | refine Decode.yields_bind fun _ => ?_
      | split
  case h_28 =>
    -- what is left has neither a command of its own nor a change of the world transform
    refine Decode.yields_pure ?_
    cases kind <;> first | exact ⟨rfl, rfl⟩ | contradiction

/-- The fields of a record of any kind give a command of its sort. -/
theorem decode_fits (kind : Kind) (size : Nat) : (decode kind size).Yields (Fits kind) := by
  unfold decode
  split
  · exact fits_bind fun _ => ⟨rfl, rfl⟩
  · exact Decode.yields_pure ⟨rfl, rfl⟩
  · exact Decode.yields_pure ⟨rfl, rfl⟩
  · exact Decode.yields_pure ⟨rfl, rfl⟩
  · exact Decode.yields_pure ⟨rfl, rfl⟩
  · exact Decode.yields_pure ⟨rfl, rfl⟩
  · exact Decode.yields_pure ⟨rfl, rfl⟩
  · exact Decode.yields_pure ⟨rfl, rfl⟩
  · split
    · rename_i hshape
      obtain ⟨hsole, htransform⟩ := plain_of_shape hshape
      exact fits_bind fun _ => ⟨by rw [hsole]; rfl, htransform.symm⟩
    · rename_i hsetting
      obtain ⟨hsole, htransform⟩ := plain_of_setting hsetting
      exact Decode.yields_bind fun _ => fits_bind fun _ => ⟨by rw [hsole]; rfl, htransform.symm⟩
    · refine Decode.yields_bind fun _ => decodeFields_fits size fun hsole => ?_
      cases kind <;> first | rfl | contradiction

/-- A record gives a command of the sort of its kind. -/
theorem ofRecord_fits {plus : Bool} {kind : Kind} {body : Bytes} {c : Command}
    (h : ofRecord plus kind body = .ok c) : Fits kind c := by
  unfold ofRecord at h
  split at h
  · -- a comment that is passed over asks for nothing
    rename_i hskipped
    obtain rfl : Command.nothing = c := Except.ok.inj h
    obtain rfl : kind = .comment := by
      unfold isSkipped at hskipped
      rw [Bool.and_eq_true, beq_iff_eq] at hskipped
      exact hskipped.1
    exact ⟨rfl, rfl⟩
  · exact (decode_fits kind body.length).first h

/-- A record whose kind has a command of its own gives that command, and no other record does. -/
theorem ofRecord_soleKind? {plus : Bool} {kind : Kind} {body : Bytes} {c : Command}
    (h : ofRecord plus kind body = .ok c) :
    c.soleKind? = if kind.isSole then some kind else none :=
  (ofRecord_fits h).1

/-- A record asks for a change of the world transform if and only if it is of one of two kinds. -/
theorem ofRecord_isTransform {plus : Bool} {kind : Kind} {body : Bytes} {c : Command}
    (h : ofRecord plus kind body = .ok c) : c.change?.isSome = kind.isTransform :=
  (ofRecord_fits h).2

/-- A record that changes the world transform is read in the same way by the walk over the stream
and when it is played. -/
theorem ofRecord_transform (plus : Bool) {kind : Kind} (body : Bytes)
    (h : kind.isTransform = true) :
    ofRecord plus kind body =
      ((transformChange kind).from body headerBytes).map Command.transform := by
  have hkind : kind = .setWorldTransform ∨ kind = .modifyWorldTransform := by
    cases kind <;> first | exact Or.inl rfl | exact Or.inr rfl | cases h
  rw [← Decode.from_map, ← Decode.first_seek_bind]
  rcases hkind with rfl | rfl <;> rfl

/-- A brush that a record stores repeats no picture: the brushes that do have a command of their
own. -/
theorem ofRecord_brush {plus : Bool} {kind : Kind} {body : Bytes} {index : Nat} {b : Device.Brush}
    (h : ofRecord plus kind body = .ok (.create index (.brush b))) : b.pattern = 0 := by
  have hread : (decode kind body.length).Yields
      fun c => ∀ index b, c = .create index (.brush b) → b.pattern = 0 := by
    unfold decode decodeFields
    -- whatever is read before it, the command comes last
    simp only [penCommand, extendedPenCommand, brushCommand, patternCommand, fontCommand,
      regionCommand, labelCommand, smallLabelCommand]
    repeat first
      | exact Decode.yields_pure fun _ _ hc => by cases hc <;> rfl
      | refine Decode.yields_bind fun _ => ?_
      | split
  unfold ofRecord at h
  split at h
  · cases h
  · exact hread.first h index b rfl

end Command

/-! ### Records in their place -/

namespace Entry

/-- What a record asks for, where EMF+ records are drawn or not. A kind that the format does not
define asks for nothing. -/
def command (plus : Bool) (e : Entry) : Except Fault Command :=
  match e.kind? with
  | none => .ok .nothing
  | some kind => Command.ofRecord plus kind e.body

/-- The change of the world transform that a record brings, if it brings one and is not cut
short. -/
def change? (e : Entry) : Option TransformChange :=
  match e.kind? with
  | none => none
  | some kind =>
    if kind.isTransform then ((transformChange kind).from e.body headerBytes).toOption else none

/-- A record asks for the command of a kind with a command of its own exactly if it is of that
kind. -/
theorem command_soleKind? {plus : Bool} {e : Entry} {c : Command} (h : e.command plus = .ok c)
    {kind : Kind} (hsole : kind.isSole = true) :
    c.soleKind? = some kind ↔ e.kind? = some kind := by
  unfold command at h
  cases hkind : e.kind? with
  | none =>
      rw [hkind] at h
      obtain rfl : Command.nothing = c := Except.ok.inj h
      exact iff_of_false (by simp [Command.soleKind?]) (by simp)
  | some actual =>
      rw [hkind] at h
      rw [Command.ofRecord_soleKind? h]
      constructor
      · intro heq
        split at heq
        · exact heq
        · cases heq
      · intro heq
        obtain rfl : actual = kind := Option.some.inj heq
        rw [if_pos hsole]

/-- The records that begin, end and abort brackets and the end record have no fields, so they can
always be read. -/
theorem command_of_kind (plus : Bool) {e : Entry} :
    (e.kind? = some .beginPath → e.command plus = .ok .beginPath) ∧
      (e.kind? = some .endPath → e.command plus = .ok .endPath) ∧
      (e.kind? = some .abortPath → e.command plus = .ok .abortPath) ∧
      (e.kind? = some .endOfFile → e.command plus = .ok .endOfFile) := by
  -- reading no fields computes, whatever the bytes are
  refine ⟨?_, ?_, ?_, ?_⟩ <;> intro hkind <;> unfold command <;> rw [hkind] <;> rfl

/-- A record that selects the path as clip region asks for nothing else. -/
theorem command_of_selectClipPath {plus : Bool} {e : Entry} {c : Command}
    (hkind : e.kind? = some .selectClipPath) (h : e.command plus = .ok c) :
    ∃ op, c = .clip (.path op) := by
  unfold command at h
  rw [hkind] at h
  have hyields : (Command.decode .selectClipPath e.body.length).Yields
      fun c => ∃ op, c = .clip (.path op) :=
    Decode.yields_bind fun _ => Decode.yields_bind fun code =>
      Decode.yields_pure ⟨.ofCode code, rfl⟩
  exact hyields.first h

/-- A record that makes a brush of a picture asks for nothing else. Its kind says whether the
colours are those of the context. -/
theorem command_of_pattern {plus : Bool} {e : Entry} {c : Command} {fromContext : Bool}
    (hkind : e.kind? = some (if fromContext then .createMonoBrush else .createPatternBrush))
    (h : e.command plus = .ok c) :
    ∃ index picture, c = .createPattern index picture fromContext := by
  unfold command at h
  rw [hkind] at h
  -- whatever the reads in between give, the last step makes a pattern
  have hread : (patternCommand fromContext).Yields
      fun c => ∃ index picture, c = .createPattern index picture fromContext :=
    Decode.yields_bind fun index => Decode.yields_bind fun _ => Decode.yields_bind fun _ =>
      Decode.yields_bind fun picture => Decode.yields_pure ⟨index, picture, rfl⟩
  have hyields {kind : Record.Kind} (hdecode : Command.decode kind e.body.length =
      Cursor.seek headerBytes >>= fun _ => patternCommand fromContext) :
      (Command.decode kind e.body.length).Yields
        fun c => ∃ index picture, c = .createPattern index picture fromContext :=
    hdecode ▸ Decode.yields_bind fun _ => hread
  cases fromContext with
  | true => exact (hyields rfl).first h
  | false => exact (hyields rfl).first h

/-- The command of a record asks for the change of the world transform that the record brings. -/
theorem change?_eq {plus : Bool} {e : Entry} {c : Command} (h : e.command plus = .ok c) :
    e.change? = c.change? := by
  unfold command at h
  unfold change?
  split at h
  · obtain rfl : Command.nothing = c := Except.ok.inj h
    rfl
  · rename_i kind hkind
    -- a kind that changes no transform has a command that changes none
    have hfits := Command.ofRecord_isTransform h
    by_cases ht : kind.isTransform = true
    · rw [if_pos ht]
      rw [Command.ofRecord_transform plus e.body ht] at h
      cases hread : (transformChange kind).from e.body headerBytes with
      | error cause =>
          rw [hread] at h
          cases h
      | ok t =>
          rw [hread] at h
          obtain rfl : Command.transform t = c := Except.ok.inj h
          rfl
    · rw [if_neg ht]
      rw [Bool.not_eq_true] at ht
      rw [ht, Option.isSome_eq_false_iff, Option.isNone_iff_eq_none] at hfits
      exact hfits.symm

end Entry

end Record

end Metafile
