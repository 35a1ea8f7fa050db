import Metafile.Geometry.Outline

/-!
# `Metafile.Proofs.Geometry.Endings`: where outlines end

`Outline.stop?` is where the pen stands after the last segment that places it. For outlines that
are made of a list of points, this is the last point that is drawn to. Curves take their points in
groups of three, and points that fill no group are not drawn to.
-/

set_option autoImplicit false

namespace Metafile

namespace Outline

variable {α : Type}

/-- Two outlines end as the second of them, unless it goes nowhere. -/
theorem stop?_append (a b : Outline α) : stop? (a ++ b) = (stop? b).or (stop? a) := by
  rw [stop?, List.reverse_append, List.findSome?_append]
  rfl

/-- A segment in front matters only where those behind it go nowhere. -/
theorem stop?_cons (s : Segment α) (rest : Outline α) :
    stop? (s :: rest) = (stop? rest).or s.stop? := by
  have hsingle : stop? [s] = s.stop? := by
    cases s <;> rfl
  rw [← List.singleton_append, stop?_append, hsingle]

/-- What is drawn before the last point does not matter. -/
theorem stop?_cons_of_some {o : Outline α} {p : Point α} (s : Segment α) (h : o.stop? = some p) :
    stop? (s :: o) = some p := by
  rw [stop?_cons, h]
  rfl

/-- A segment that begins at a point and goes nowhere else leaves the pen there. -/
theorem stop?_move_getD (o : Outline α) (p : Point α) :
    (stop? (.move p :: o)).getD p = o.stop?.getD p := by
  rw [stop?_cons]
  cases o.stop? <;> rfl

/-- The last point of a list, or the one before them. -/
theorem getLast?_or (p : Point α) (rest : List (Point α)) :
    rest.getLast?.or (some p) = (p :: rest).getLast? := by
  rw [List.getLast?_cons]
  cases rest.getLast? <;> rfl

/-- Lines end at the last of their points. -/
theorem stop?_lines (ps : List (Point α)) : stop? (ps.map .line) = ps.getLast? := by
  induction ps with
  | nil => rfl
  | cons p rest ih =>
      rw [List.map_cons, stop?_cons, ih]
      exact getLast?_or p rest

/-- A move to a point and lines to others end at the last of all points. -/
theorem stop?_polyline (ps : List (Point α)) : stop? (polyline ps) = ps.getLast? := by
  cases ps with
  | nil => rfl
  | cons p rest =>
      rw [polyline, stop?_cons, stop?_lines]
      exact getLast?_or p rest

/-- Closing a figure does not say where the pen stands. -/
theorem stop?_polygon (ps : List (Point α)) : stop? (polygon ps) = ps.getLast? := by
  cases ps with
  | nil => rfl
  | cons p rest =>
      rw [polygon, stop?_append, stop?_polyline]
      · rfl
      · nofun

/-- Curves end at the last point that fills a group of three. -/
theorem stop?_curves (ps : List (Point α)) :
    stop? (curves ps) = (ps.take (ps.length / 3 * 3)).getLast? := by
  fun_induction curves ps with
  | case1 c₁ c₂ stop rest ih =>
      have hlength : (c₁ :: c₂ :: stop :: rest).length / 3 * 3 = rest.length / 3 * 3 + 3 := by
        simp only [List.length_cons]
        omega
      rw [stop?_cons, ih, hlength, List.take_succ_cons, List.take_succ_cons, List.take_succ_cons,
        List.getLast?_cons_cons, List.getLast?_cons_cons]
      exact getLast?_or stop _
  | case2 ps hfew =>
      have hlength : ps.length < 3 := by
        match ps, hfew with
        | [], _ | [_], _ | [_, _], _ => simp
        | _ :: _ :: _ :: _, hfew => exact absurd rfl (hfew _ _ _ _)
      rw [Nat.div_eq_of_lt hlength]
      rfl

end Outline

end Metafile
