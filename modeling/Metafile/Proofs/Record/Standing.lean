import Metafile.Proofs.Record.Reading

/-!
# `Metafile.Proofs.Record.Standing`: how records stand to the current position

Some records set the current position, some draw on from it, and some draw a shape that begins at
a point of its own. All others have nothing to do with it. Which of these a record does is known
from its kind, and `Entry.command_standing` says that the command of a record does the same.
-/

set_option autoImplicit false

namespace Metafile.Record

/-- How a record stands to the current position. -/
inductive Standing
  /-- It sets the position. -/
  | sets
  /-- It draws on from the position. -/
  | goesOn
  /-- It draws a shape that begins at a point of its own. -/
  | apart
  /-- It draws no shape. -/
  | aside
deriving DecidableEq, Repr

/-- How the records of a kind stand to the current position. -/
def Kind.standing : Kind → Standing
  | .moveTo => .sets
  | .lineTo | .polylineTo | .polylineTo16 | .polyBezierTo | .polyBezierTo16 | .arcTo | .angleArc
  | .polyDraw | .polyDraw16 => .goesOn
  | .polyline | .polyline16 | .polygon | .polygon16 | .polyPolyline | .polyPolyline16
  | .polyPolygon | .polyPolygon16 | .polyBezier | .polyBezier16 | .rectangle | .roundRect
  | .ellipse | .arc | .chord | .pie => .apart
  | _ => .aside

namespace Shape

/-- How the drawing of a shape stands to the current position. -/
def standing : Shape → Standing
  | .polyline .. | .polylines .. | .curves _ | .rectangle _ | .roundRect .. | .ellipse _ => .apart
  | .arc form .. => if form = .joined then .goesOn else .apart
  | .polylineTo _ | .curvesTo _ | .steps _ | .angleArc .. => .goesOn

/-- A shape goes on from the position or stands apart. -/
theorem standing_cases (shape : Shape) : shape.standing = .goesOn ∨ shape.standing = .apart := by
  cases shape with
  | arc form b start stop => cases form <;> first | exact .inl rfl | exact .inr rfl
  | _ => first | exact .inl rfl | exact .inr rfl

end Shape

namespace Command

/-- How a command stands to the current position. -/
def standing : Command → Standing
  | .moveTo _ => .sets
  | .draw shape => shape.standing
  | _ => .aside

/-- A command that sets the position is a move. -/
theorem moveTo_of_standing {c : Command} (h : c.standing = .sets) : ∃ p, c = .moveTo p := by
  cases c with
  | moveTo p => exact ⟨p, rfl⟩
  | draw shape =>
      rcases shape.standing_cases with hshape | hshape <;> exact nomatch hshape.symm.trans h
  | _ => cases h

/-- A command that goes on from the position or stands apart draws a shape. -/
theorem draw_of_standing {c : Command} (h : c.standing = .apart ∨ c.standing = .goesOn) :
    ∃ shape, c = .draw shape := by
  cases c with
  | draw shape => exact ⟨shape, rfl⟩
  | _ => rcases h with h | h <;> cases h

end Command

/-- How a record stands to the current position. -/
def Entry.standing (e : Entry) : Standing := e.kind?.elim .aside Kind.standing

/-- The shape of a drawing record stands to the position as its kind does. -/
theorem Shape.decode?_standing {kind : Kind} {d : Decode Shape}
    (h : Shape.decode? kind = some d) :
    d.Yields fun shape => shape.standing = kind.standing := by
  have hreturned {α : Type} {r : Decode α} {f : α → Shape} {standing : Standing}
      (hf : ∀ v, (f v).standing = standing) :
      (do return f (← r) : Decode Shape).Yields fun shape => shape.standing = standing :=
    Decode.yields_bind fun v => Decode.yields_pure (hf v)
  cases kind
  case polyline | polyline16 | polygon | polygon16 | polyPolyline | polyPolyline16 |
    polyPolygon | polyPolygon16 | polylineTo | polylineTo16 | lineTo | polyBezier |
    polyBezier16 | polyBezierTo | polyBezierTo16 | polyDraw | polyDraw16 | rectangle |
    ellipse =>
    exact Option.some.inj h ▸ hreturned fun _ => rfl
  case roundRect =>
    exact Option.some.inj h ▸ Decode.yields_bind fun _ => hreturned fun _ => rfl
  case arc | arcTo | chord | pie =>
    exact Option.some.inj h ▸ Decode.yields_bind fun _ => Decode.yields_bind fun _ =>
      hreturned fun _ => rfl
  case angleArc =>
    exact Option.some.inj h ▸ Decode.yields_bind fun _ => Decode.yields_bind fun _ =>
      Decode.yields_bind fun _ => hreturned fun _ => rfl
  all_goals cases h

namespace Command

/-- A record that draws no shape stands to the position as its kind does. -/
private theorem decodeFields_standing {kind : Kind} (size : Nat) (h : Shape.decode? kind = none) :
    (decodeFields kind size).Yields fun c => c.standing = kind.standing := by
  unfold decodeFields
  split
  -- whatever fields are read before it, the command comes last
  all_goals
    try simp only [penCommand, extendedPenCommand, brushCommand, patternCommand, fontCommand,
      regionCommand, labelCommand, smallLabelCommand]
  all_goals
    repeat first
      | exact Decode.yields_pure rfl
      | refine Decode.yields_bind fun _ => ?_
      | split
  case h_28 =>
    refine Decode.yields_pure ?_
    cases kind <;> first | rfl | contradiction

/-- A record gives a command that stands to the position as its kind does. -/
theorem ofRecord_standing {plus : Bool} {kind : Kind} {body : Bytes} {c : Command}
    (h : ofRecord plus kind body = .ok c) : c.standing = kind.standing := by
  have hdecode (size : Nat) : (decode kind size).Yields fun c => c.standing = kind.standing := by
    unfold decode
    split
    case h_1 => exact Decode.yields_bind fun _ => Decode.yields_pure rfl
    case h_9 =>
      split
      · rename_i hshape
        exact (Shape.decode?_standing hshape).map fun _ hstanding => hstanding
      · rename_i hsetting
        refine Decode.yields_bind fun _ => Decode.yields_bind fun _ => Decode.yields_pure ?_
        cases kind <;> first | rfl | cases hsetting
      · rename_i hshape _
        exact Decode.yields_bind fun _ => decodeFields_standing size hshape
    all_goals exact Decode.yields_pure rfl
  unfold ofRecord at h
  split at h
  · rename_i hskipped
    obtain rfl : Command.nothing = c := Except.ok.inj h
    unfold isSkipped at hskipped
    rw [Bool.and_eq_true, beq_iff_eq] at hskipped
    rw [hskipped.1]
    rfl
  · exact (hdecode body.length).first h

end Command

/-- A record stands to the position as the command that it gives. -/
theorem Entry.command_standing {plus : Bool} {e : Entry} {c : Command}
    (h : e.command plus = .ok c) :
    c.standing = e.standing := by
  unfold Entry.command at h
  unfold Entry.standing
  cases hkind : e.kind? with
  | none =>
      rw [hkind] at h
      obtain rfl : Command.nothing = c := Except.ok.inj h
      rfl
  | some kind =>
      rw [hkind] at h
      exact Command.ofRecord_standing h

end Metafile.Record
