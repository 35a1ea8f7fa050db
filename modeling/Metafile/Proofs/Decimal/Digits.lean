import Mathlib
import Metafile.Proofs.Markup.PathData

/-!
# `Metafile.Proofs.Decimal.Digits`: digits and the numbers they stand for

Digits stand for a natural number, and the number gives them back. If there is no zero in front,
they are the digits that the number is written with (`Digits.toDigits_ofDigitChars`). If their
count is known, they are those too (`Fixed.padded_ofDigitChars`). And zeros that are taken away at
the end come back when the count is filled up (`Fixed.trimZeros_append_replicate`,
`Fixed.padded_shifted`).

A digit is added and taken off at the end, as `padded` and `trimZeros` do, so the inductions here
go from the end of the list.
-/

set_option autoImplicit false

namespace Metafile.Decimal

/-- Characters that are digits. -/
def Digits (cs : List Char) : Prop := ∀ c ∈ cs, c.isDigit = true

/-- Whether characters are digits is found by looking at each. -/
instance (cs : List Char) : Decidable (Digits cs) :=
  decidable_of_iff (cs.all Char.isDigit = true) List.all_eq_true

variable {cs : List Char} {c : Char}

/-! ### Digits and their number -/

/-- A digit is written for a number below ten. -/
theorem exists_digitChar (h : c.isDigit = true) : ∃ d < 10, c = Nat.digitChar d := by
  obtain ⟨hlow, hhigh⟩ := Char.isDigit_iff_toNat.1 h
  have hzero : '0'.toNat = 48 := rfl
  have hnine : '9'.toNat = 57 := rfl
  refine ⟨c.toNat - 48, by omega, Char.toNat_inj.1 ?_⟩
  rw [Nat.toNat_digitChar_of_lt_ten (by omega)]
  omega

/-- A digit at the end counts once, and the digits before it ten times. -/
theorem ofDigitChars_concat (cs : List Char) {d : Nat} (hd : d < 10) :
    Nat.ofDigitChars 10 (cs ++ [Nat.digitChar d]) 0 = 10 * Nat.ofDigitChars 10 cs 0 + d := by
  rw [Nat.ofDigitChars_append, Nat.ofDigitChars_cons_digitChar_of_lt_ten hd, Nat.ofDigitChars_nil]

namespace Digits

/-- What holds of no digits, and is kept by one more digit at the end, holds of all digits. -/
theorem concat_induction {motive : ∀ cs, Digits cs → Prop} (nil : ∀ h, motive [] h)
    (concat : ∀ cs d (h : Digits cs) (hd : Digits (cs ++ [Nat.digitChar d])), d < 10 →
      motive cs h → motive (cs ++ [Nat.digitChar d]) hd)
    (cs : List Char) (h : Digits cs) : motive cs h := by
  induction cs using List.reverseRecOn with
  | nil => exact nil h
  | append_singleton cs c ih =>
      have hcs : Digits cs := fun d hd => h d (List.mem_append_left _ hd)
      obtain ⟨d, hd, rfl⟩ := exists_digitChar (h c (List.mem_append_right _ List.mem_cons_self))
      exact concat cs d hcs h hd (ih hcs)

/-- So many digits stand for a number with no more places. -/
theorem ofDigitChars_lt (h : Digits cs) : Nat.ofDigitChars 10 cs 0 < 10 ^ cs.length := by
  induction cs, h using concat_induction with
  | nil => exact Nat.one_pos
  | concat cs d _ _ hd ih =>
      rw [ofDigitChars_concat cs hd, List.length_append, List.length_singleton, pow_succ]
      omega

/-- Only zeros stand for zero. -/
theorem eq_replicate_of_zero (h : Digits cs) (hzero : Nat.ofDigitChars 10 cs 0 = 0) :
    cs = List.replicate cs.length '0' := by
  induction cs, h using concat_induction with
  | nil => rfl
  | concat cs d _ _ hd ih =>
      rw [ofDigitChars_concat cs hd] at hzero
      obtain rfl : d = 0 := by omega
      rw [List.length_append, List.length_singleton, List.replicate_succ']
      exact congrArg (· ++ ['0']) (ih (by omega))

/-- Digits without a zero in front are the digits of their number. -/
theorem toDigits_ofDigitChars (h : Digits cs) (hne : cs ≠ [])
    (hleading : cs.head? = some '0' → cs = ['0']) :
    Nat.toDigits 10 (Nat.ofDigitChars 10 cs 0) = cs := by
  induction cs, h using concat_induction with
  | nil => exact absurd rfl hne
  | concat cs d hcs _ hd ih =>
      rw [ofDigitChars_concat cs hd]
      rcases eq_or_ne cs [] with rfl | hcons
      · rw [Nat.ofDigitChars_nil, Nat.mul_zero, Nat.zero_add, Nat.toDigits_of_lt_base hd,
          List.nil_append]
      · have hlength := List.length_pos_iff.2 hcons
        -- more than one digit cannot begin with a zero
        have hnot : cs.head? ≠ some '0' := by
          intro hhead
          have hone := congrArg List.length
            (hleading (by rw [List.head?_append_of_ne_nil _ hcons, hhead]))
          rw [List.length_append, List.length_singleton, List.length_singleton] at hone
          omega
        have hpos : 0 < Nat.ofDigitChars 10 cs 0 := by
          refine Nat.pos_of_ne_zero fun hzero => hnot ?_
          rw [hcs.eq_replicate_of_zero hzero, List.head?_replicate, if_neg hlength.ne']
        rw [← Nat.toDigits_append_toDigits (by decide) hpos hd, Nat.toDigits_of_lt_base hd,
          ih hcons fun hhead => absurd hhead hnot]

end Digits

/-- There is no zero in front of the digits of a number, unless they are all. -/
theorem eq_zero_of_head?_toDigits {n : Nat} (h : (Nat.toDigits 10 n).head? = some '0') :
    n = 0 := by
  induction n using Nat.strongRecOn with
  | ind n ih =>
      rw [Nat.toDigits_eq_if (by decide)] at h
      split_ifs at h with hless
      · exact Nat.digitChar_eq_zero.1 (Option.some.inj h)
      · rw [List.head?_append_of_ne_nil _ Nat.toDigits_ne_nil] at h
        have hzero := ih (n / 10) (by omega) h
        omega

/-! ### A fixed number of digits -/

namespace Fixed

/-- A number is padded to as many digits as are asked for. -/
theorem length_padded (width n : Nat) : (padded width n).length = width := by
  induction width generalizing n with
  | zero => rfl
  | succ width ih => rw [padded, List.length_append, ih, List.length_singleton]

/-- What a number is padded with are digits. -/
theorem digits_padded (width n : Nat) : Digits (padded width n) := padded_isDigit width n

/-- The digits stand for the number, as far as there is room for them. -/
theorem ofDigitChars_padded (width n : Nat) :
    Nat.ofDigitChars 10 (padded width n) 0 = n % 10 ^ width := by
  induction width generalizing n with
  | zero => rw [padded, Nat.ofDigitChars_nil, pow_zero, Nat.mod_one]
  | succ width ih =>
      rw [padded, ofDigitChars_concat _ (Nat.mod_lt n (by decide)), ih, pow_succ', Nat.mod_mul,
        Nat.add_comm]

/-- There are no other digits for a number, if there are as many. -/
theorem padded_ofDigitChars {cs : List Char} (h : Digits cs) :
    padded cs.length (Nat.ofDigitChars 10 cs 0) = cs := by
  induction cs, h using Digits.concat_induction with
  | nil => rfl
  | concat cs d _ _ hd ih =>
      rw [ofDigitChars_concat cs hd, List.length_append, List.length_singleton, padded,
        Nat.mul_add_div (by decide), Nat.div_eq_of_lt hd, Nat.add_zero, ih, Nat.mul_add_mod,
        Nat.mod_eq_of_lt hd]

/-- Where there is room for more digits, zeros behind the digits make the number larger. -/
theorem padded_shifted {cs : List Char} (h : Digits cs) {width : Nat}
    (hroom : cs.length ≤ width) :
    padded width (Nat.ofDigitChars 10 cs 0 * 10 ^ (width - cs.length)) =
      cs ++ List.replicate (width - cs.length) '0' := by
  have hdigits : Digits (cs ++ List.replicate (width - cs.length) '0') := by
    intro c hc
    rcases List.mem_append.1 hc with hc | hc
    · exact h c hc
    · rw [List.eq_of_mem_replicate hc]
      rfl
  have hwidth : (cs ++ List.replicate (width - cs.length) '0').length = width := by
    rw [List.length_append, List.length_replicate]
    omega
  have hwritten := padded_ofDigitChars hdigits
  rwa [hwidth, Nat.ofDigitChars_append, Nat.ofDigitChars_replicate_zero, Nat.mul_comm] at hwritten

/-! ### Zeros at the end -/

/-- The zeros are dropped from the end, so the lemmas about dropping from the end apply. -/
theorem trimZeros_eq_rdropWhile (cs : List Char) : trimZeros cs = cs.rdropWhile (· == '0') := rfl

/-- The last character decides: a zero is taken away, and before anything else nothing is. -/
theorem trimZeros_concat (cs : List Char) (c : Char) :
    trimZeros (cs ++ [c]) = if c = '0' then trimZeros cs else cs ++ [c] := by
  simp only [trimZeros_eq_rdropWhile, List.rdropWhile_concat, beq_iff_eq]

/-- What is taken away are zeros. -/
theorem exists_trimZeros_append (cs : List Char) :
    ∃ count, trimZeros cs ++ List.replicate count '0' = cs := by
  refine ⟨(cs.rtakeWhile (· == '0')).length, ?_⟩
  have hzeros : ∀ c ∈ cs.rtakeWhile (· == '0'), c = '0' := by
    intro c hc
    simpa using List.mem_rtakeWhile_imp hc
  rw [← List.eq_replicate_iff.2 ⟨rfl, hzeros⟩]
  exact List.rdropWhile_append_rtakeWhile

/-- No digit is added when zeros are taken away. -/
theorem length_trimZeros_le (cs : List Char) : (trimZeros cs).length ≤ cs.length :=
  (List.rdropWhile_prefix _ cs).length_le

/-- The zeros that are taken away make the number as much smaller as there are places less. -/
theorem ofDigitChars_trimZeros (cs : List Char) :
    Nat.ofDigitChars 10 (trimZeros cs) 0 * 10 ^ (cs.length - (trimZeros cs).length) =
      Nat.ofDigitChars 10 cs 0 := by
  obtain ⟨count, hcs⟩ := exists_trimZeros_append cs
  have hcount : cs.length - (trimZeros cs).length = count := by
    have hlength := congrArg List.length hcs
    rw [List.length_append, List.length_replicate] at hlength
    omega
  rw [hcount, Nat.mul_comm, ← Nat.ofDigitChars_replicate_zero, ← Nat.ofDigitChars_append, hcs]

/-- What is left does not end in a zero. -/
theorem getLast?_trimZeros (cs : List Char) : (trimZeros cs).getLast? ≠ some '0' := by
  rcases eq_or_ne (trimZeros cs) [] with hnil | hne
  · rw [hnil]
    exact nofun
  · rw [List.getLast?_eq_some_getLast hne]
    intro hlast
    exact List.rdropWhile_last_not _ cs hne (beq_iff_eq.2 (Option.some.inj hlast))

/-- Without a zero at the end nothing is taken away. -/
theorem trimZeros_eq_self {cs : List Char} (h : cs.getLast? ≠ some '0') : trimZeros cs = cs := by
  rw [trimZeros_eq_rdropWhile, List.rdropWhile_eq_self_iff]
  intro hne hzero
  rw [List.getLast?_eq_some_getLast hne] at h
  exact h (congrArg some (beq_iff_eq.1 hzero))

/-- Zeros behind digits that do not end in a zero are taken away again. -/
theorem trimZeros_append_replicate {cs : List Char} (h : cs.getLast? ≠ some '0') (count : Nat) :
    trimZeros (cs ++ List.replicate count '0') = cs := by
  induction count with
  | zero => rw [List.replicate_zero, List.append_nil, trimZeros_eq_self h]
  | succ count ih =>
      rw [List.replicate_succ', ← List.append_assoc, trimZeros_concat, if_pos rfl, ih]

/-- No zero is taken away in front of another character. -/
theorem trimZeros_append_cons {c : Char} (hc : c ≠ '0') (before after : List Char) :
    trimZeros (before ++ c :: after) = before ++ c :: trimZeros after := by
  induction after using List.reverseRecOn with
  | nil => rw [trimZeros_concat, if_neg hc]; rfl
  | append_singleton after d ih =>
      rw [← List.cons_append, ← List.append_assoc, trimZeros_concat, trimZeros_concat, ih]
      split_ifs
      · rfl
      · rw [List.append_assoc, List.cons_append]

end Fixed

end Metafile.Decimal
