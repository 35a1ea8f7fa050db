import Mathlib.Logic.Function.Iterate
import Metafile.Proofs.Geometry.Flatten

/-!
# `Metafile.Proofs.Geometry.Subdivision`: the list of work stands for a recursion

`Cubic.flatten` keeps the halves that are still to do on a list. `Cubic.leaves` is the recursion
for which the list stands: a curve that counts as a line, or that came out of as many halvings as
there may be, is one line, and every other curve is its left half and then its right half. The
lines of a list of work are the leaves of the curves on it, one curve after the other
(`drain_eq_leaves`).

`Cubic.turn` is one turn of the loop over the list. The ends that are found and the ends that the
list still stands for are the same in sum after every turn (`turn_ends`), and the weight of the
list goes down (`weight_turn`), so the loop comes to its end (`iterate_turn`).
-/

set_option autoImplicit false

namespace Metafile.Cubic

/-! ### The recursion -/

/-- The ends of the lines for a curve that came out of `depth` halvings, from the left to the
right. -/
def leaves (depth : Nat) (c : Cubic) : List (Point Float) :=
  if maxDepth ≤ depth ∨ c.isFlat then [c.stop]
  else leaves (depth + 1) c.halves.1 ++ leaves (depth + 1) c.halves.2
termination_by maxDepth - depth

/-- A curve that is flat, or deep enough, is not halved. -/
theorem leaves_of_flat {depth : Nat} {c : Cubic} (h : maxDepth ≤ depth ∨ c.isFlat) :
    leaves depth c = [c.stop] := by
  rw [leaves, if_pos h]

/-- A curve that is not flat is halved, and the leaves of its first half come first. -/
theorem leaves_of_curved {depth : Nat} {c : Cubic} (hdepth : depth < maxDepth) (h : ¬c.isFlat) :
    leaves depth c = leaves (depth + 1) c.halves.1 ++ leaves (depth + 1) c.halves.2 := by
  rw [leaves, if_neg (not_or.2 ⟨Nat.not_le.2 hdepth, h⟩)]

/-- Each curve has at least one leaf. -/
theorem leaves_ne_nil (depth : Nat) (c : Cubic) : leaves depth c ≠ [] := by
  fun_induction leaves depth c with
  | case1 => exact List.cons_ne_nil _ _
  | case2 depth c _ ihleft _ => exact List.append_ne_nil_of_left_ne_nil ihleft _

/-- Every halving doubles the number of leaves at most. -/
theorem length_leaves_le (depth : Nat) (c : Cubic) :
    (leaves depth c).length ≤ Nat.pow 2 (maxDepth - depth) := by
  fun_induction leaves depth c with
  | case1 depth c _ => exact Nat.two_pow_pos _
  | case2 depth c hcurved ihleft ihright =>
      have hdepth : maxDepth - depth = maxDepth - (depth + 1) + 1 := by omega
      rw [List.length_append, hdepth]
      show _ ≤ Nat.pow 2 (maxDepth - (depth + 1)) * 2
      omega

/-- The lines of a list of work are the leaves of the curves on it. What is kept with a curve is
how often it may still be halved, so the halvings that it came out of are the others. -/
theorem drain_eq_leaves {work : Work} (h : ∀ w ∈ work, w.2 ≤ maxDepth) :
    drain work = work.flatMap fun w => leaves (maxDepth - w.2) w.1 := by
  induction work using drain.induct with
  | case1 => rw [drain, List.flatMap_nil]
  | case2 c rest ih =>
      rw [drain, ih (List.forall_mem_cons.1 h).2, List.flatMap_cons]
      show _ = leaves maxDepth c ++ _
      rw [leaves_of_flat (.inl (Nat.le_refl _)), List.singleton_append]
  | case3 c depth rest hflat ih =>
      rw [drain, if_pos hflat, ih (List.forall_mem_cons.1 h).2, List.flatMap_cons]
      show _ = leaves (maxDepth - (depth + 1)) c ++ _
      rw [leaves_of_flat (.inr hflat), List.singleton_append]
  | case4 c depth rest hflat ih =>
      -- a curve that is cut has its halves on the work list, both one step deeper
      obtain ⟨hdepth, hrest⟩ := List.forall_mem_cons.1 h
      change depth + 1 ≤ maxDepth at hdepth
      have hhalves : depth ≤ maxDepth := Nat.le_of_succ_le hdepth
      have hnext : maxDepth - (depth + 1) + 1 = maxDepth - depth := by omega
      rw [drain, if_neg hflat, ih (by simpa [hhalves] using hrest)]
      simp only [List.flatMap_cons]
      rw [leaves_of_curved (Nat.sub_lt (by decide) (Nat.succ_pos depth)) hflat, hnext,
        List.append_assoc]

/-! ### The loop -/

/-- One turn of the loop: the first curve on the list becomes a line, or its halves take its
place. The ends of the lines are gathered. -/
def turn : Work × List (Point Float) → Work × List (Point Float)
  | ([], ends) => ([], ends)
  | ((c, 0) :: rest, ends) => (rest, ends ++ [c.stop])
  | ((c, depth + 1) :: rest, ends) =>
    if c.isFlat then (rest, ends ++ [c.stop])
    else ((c.halves.1, depth) :: (c.halves.2, depth) :: rest, ends)

/-- A turn changes nothing in the ends that are gathered and those to come. -/
theorem turn_ends (pending : Work × List (Point Float)) :
    (turn pending).2 ++ drain (turn pending).1 = pending.2 ++ drain pending.1 := by
  fun_cases turn pending with
  | case1 => rfl
  | case2 c rest ends => rw [drain, List.append_assoc, List.singleton_append]
  | case3 c depth rest ends hflat =>
      rw [drain, if_pos hflat, List.append_assoc, List.singleton_append]
  | case4 c depth rest ends hflat =>
      show ends ++ drain _ = ends ++ drain _
      rw [drain.eq_def ((c, depth + 1) :: rest)]
      exact congrArg (ends ++ ·) (if_neg hflat).symm

/-- A curve weighs as many turns as its halvings can take. -/
theorem weight_cons (c : Cubic) (depth : Nat) (rest : Work) :
    weight ((c, depth) :: rest) = Nat.pow 2 depth * 2 - 1 + weight rest := rfl

/-- A turn takes something of the weight of the list, until nothing is on it. -/
theorem weight_turn (pending : Work × List (Point Float)) :
    weight (turn pending).1 ≤ weight pending.1 - 1 := by
  fun_cases turn pending with
  | case1 => exact Nat.zero_le _
  | case2 c rest ends =>
      have hweight := weight_cons c 0 rest
      have hone : Nat.pow 2 0 = 1 := rfl
      show weight rest ≤ weight ((c, 0) :: rest) - 1
      omega
  | case3 c depth rest ends hflat =>
      have hweight := weight_cons c (depth + 1) rest
      have hpos : 0 < Nat.pow 2 (depth + 1) := Nat.two_pow_pos (depth + 1)
      show weight rest ≤ weight ((c, depth + 1) :: rest) - 1
      omega
  | case4 c depth rest ends hflat =>
      have hweight := weight_cons c (depth + 1) rest
      have hright := weight_cons c.halves.2 depth rest
      have hleft := weight_cons c.halves.1 depth ((c.halves.2, depth) :: rest)
      have hpos : 0 < Nat.pow 2 depth := Nat.two_pow_pos depth
      -- two halves weigh as much as the curve without the turn that cuts it
      have hdouble : Nat.pow 2 (depth + 1) = Nat.pow 2 depth * 2 := rfl
      show weight ((c.halves.1, depth) :: (c.halves.2, depth) :: rest) ≤
        weight ((c, depth + 1) :: rest) - 1
      omega

/-- A list without weight has nothing on it. -/
theorem eq_nil_of_weight {work : Work} (h : weight work = 0) : work = [] := by
  cases work with
  | nil => rfl
  | cons w rest =>
      have hpos : 0 < Nat.pow 2 w.2 := Nat.two_pow_pos w.2
      have hweight := weight_cons w.1 w.2 rest
      change weight ((w.1, w.2) :: rest) = 0 at h
      omega

/-- After as many turns as the list weighs, nothing is on it, and the ends of all lines are
gathered. -/
theorem iterate_turn {turns : Nat} {pending : Work × List (Point Float)}
    (h : weight pending.1 ≤ turns) :
    turn^[turns] pending = ([], pending.2 ++ drain pending.1) := by
  induction turns generalizing pending with
  | zero =>
      have hnil := eq_nil_of_weight (Nat.le_zero.1 h)
      rw [Function.iterate_zero, id, hnil, drain, List.append_nil, ← hnil]
  | succ turns ih =>
      have hless := weight_turn pending
      rw [Function.iterate_succ_apply, ih (by omega), turn_ends]

/-- The list of work and the recursion give the same lines, whatever the points of the curve are.
The loop ends after 2047 turns or fewer, there are from one to 1024 lines, and the last of them
ends exactly where the curve does. -/
theorem flatten_eq_leaves (c : Cubic) :
    c.flatten = leaves 0 c ∧
    turn^[2047] ([(c, maxDepth)], []) = ([], c.flatten) ∧
    1 ≤ c.flatten.length ∧ c.flatten.length ≤ Nat.pow 2 10 ∧
    c.flatten.getLast? = some c.stop := by
  have hleaves : c.flatten = leaves 0 c := by
    have hwork : drain [(c, maxDepth)] = _ :=
      drain_eq_leaves (List.forall_mem_singleton.2 (Nat.le_refl _))
    rwa [List.flatMap_singleton, Nat.sub_self] at hwork
  refine ⟨hleaves, ?_, ?_, ?_, getLast?_flatten c⟩
  · have hrun : turn^[2047] ([(c, maxDepth)], []) = _ := iterate_turn (Nat.le_refl _)
    rwa [List.nil_append] at hrun
  · rw [hleaves]
    exact List.length_pos_iff.2 (leaves_ne_nil 0 c)
  · rw [hleaves]
    exact length_leaves_le 0 c

end Metafile.Cubic
