import Metafile.Geometry.Outline

/-!
# `Metafile.Proofs.Markup.PathData`: the characters of path data

Path data is the one value that is written over many records, so it must never hold a character
that ends it. Its characters are the letters of the five commands, the characters of plain
decimals, and the comma and the blank between them. `Outline.chars_isPathChar` states so.
-/

set_option autoImplicit false

namespace Metafile

namespace Decimal.Fixed

/-- The characters of a plain decimal: digits, the minus sign and the point. -/
def isDecimalChar (c : Char) : Bool := c.isDigit || c == '-' || c == '.'

/-- The digits of a natural number below a power of ten are digits. -/
theorem padded_isDigit (width n : Nat) : ∀ c ∈ padded width n, c.isDigit = true := by
  -- the recursion takes the last digit off
  induction width generalizing n with
  | zero =>
      intro c hc
      cases hc
  | succ width ih =>
      intro c hc
      rw [padded, List.mem_append, List.mem_singleton] at hc
      rcases hc with hc | rfl
      · exact ih (n / 10) c hc
      · rw [Nat.isDigit_digitChar, decide_eq_true_eq]
        exact Nat.mod_lt n (by decide)

/-- Leaving zeros out keeps the other digits. -/
theorem mem_of_mem_trimZeros {digits : List Char} {c : Char} (h : c ∈ trimZeros digits) :
    c ∈ digits := by
  unfold trimZeros at h
  rw [List.mem_reverse] at h
  exact List.mem_reverse.1 ((List.dropWhile_sublist _).mem h)

/-- The decimals are a point and digits. -/
private theorem decimals_isDecimalChar (fraction : Nat) :
    ∀ c ∈ decimals fraction, isDecimalChar c = true := by
  intro c hc
  unfold decimals at hc
  split at hc
  · cases hc
  · rename_i digits
    rcases List.mem_cons.1 hc with rfl | hc
    · decide
    · have hdigit := padded_isDigit _ _ c (mem_of_mem_trimZeros hc)
      rw [isDecimalChar, hdigit]
      rfl

/-- The magnitude of a number is written with digits and points. -/
private theorem magnitude_isDecimalChar (units : Nat) :
    ∀ c ∈ magnitude units, isDecimalChar c = true := by
  intro c hc
  rcases List.mem_append.1 hc with hc | hc
  · have hdigit : c.isDigit = true := Nat.isDigit_of_mem_toDigits (by decide) (by decide) hc
    rw [isDecimalChar, hdigit]
    rfl
  · exact decimals_isDecimalChar _ c hc

/-- A number is written with digits, points and signs, and what is not a number as a digit. -/
theorem chars_isDecimalChar (v : Float) : ∀ c ∈ chars v, isDecimalChar c = true := by
  intro c hc
  unfold chars at hc
  split at hc
  · split at hc
    · rcases List.mem_cons.1 hc with rfl | hc
      · decide
      · exact magnitude_isDecimalChar _ c hc
    · exact magnitude_isDecimalChar _ c hc
  · obtain rfl := List.mem_singleton.1 hc
    decide

end Decimal.Fixed

/-- The characters of path data. -/
def isPathChar (c : Char) : Bool :=
  Decimal.Fixed.isDecimalChar c || ['M', 'L', 'C', 'A', 'Z', ',', ' '].contains c

/-- The characters of numbers may stand in path data. -/
theorem isPathChar_of_decimal {c : Char} (h : Decimal.Fixed.isDecimalChar c = true) :
    isPathChar c = true := by
  rw [isPathChar, h]
  rfl

/-- A point is written with the characters of path data. -/
theorem Point.chars_isPathChar (p : Point Float) : ∀ c ∈ p.chars, isPathChar c = true := by
  intro c hc
  simp only [Point.chars, List.mem_append, List.mem_cons, List.not_mem_nil, or_false] at hc
  rcases hc with hc | rfl | hc | rfl
  · exact isPathChar_of_decimal (Decimal.Fixed.chars_isDecimalChar p.x c hc)
  · decide
  · exact isPathChar_of_decimal (Decimal.Fixed.chars_isDecimalChar p.y c hc)
  · decide

/-- So is a segment, with its letter. -/
theorem Segment.chars_isPathChar (s : Segment Float) : ∀ c ∈ s.chars, isPathChar c = true := by
  have hflag (b : Bool) : isPathChar (flagChar b) = true := by cases b <;> decide
  intro c hc
  cases s with
  | move p =>
      simp only [Segment.chars, List.mem_cons] at hc
      rcases hc with rfl | rfl | hc
      · decide
      · decide
      · exact p.chars_isPathChar c hc
  | line p =>
      simp only [Segment.chars, List.mem_cons] at hc
      rcases hc with rfl | rfl | hc
      · decide
      · decide
      · exact p.chars_isPathChar c hc
  | arc radii stop large sweep =>
      simp only [Segment.chars, List.mem_cons, List.mem_append] at hc
      -- the letter, the radii, the rotation, the two flags and the end, with blanks between them
      rcases hc with rfl | rfl | hc | rfl | rfl | rfl | rfl | rfl | rfl | hc
      · decide
      · decide
      · exact radii.chars_isPathChar c hc
      · decide
      · decide
      · exact hflag large
      · decide
      · exact hflag sweep
      · decide
      · exact stop.chars_isPathChar c hc
  | curve c₁ c₂ stop =>
      simp only [Segment.chars, List.mem_cons, List.mem_append] at hc
      rcases hc with rfl | rfl | (hc | hc) | hc
      · decide
      · decide
      · exact c₁.chars_isPathChar c hc
      · exact c₂.chars_isPathChar c hc
      · exact stop.chars_isPathChar c hc
  | close =>
      simp only [Segment.chars, List.mem_cons, List.not_mem_nil, or_false] at hc
      rcases hc with rfl | rfl <;> decide

namespace Outline

/-- So is an outline. -/
theorem chars_isPathChar (o : Outline Float) : ∀ c ∈ chars o, isPathChar c = true := by
  intro c hc
  obtain ⟨s, _, hs⟩ := List.mem_flatMap.1 hc
  exact s.chars_isPathChar c hs

/-- Taking blanks away from the end keeps the other characters. -/
theorem mem_of_mem_trimBlanks {cs : List Char} {c : Char} (h : c ∈ trimBlanks cs) : c ∈ cs := by
  unfold trimBlanks at h
  rw [List.mem_reverse] at h
  exact List.mem_reverse.1 ((List.dropWhile_sublist _).mem h)

/-- Taking blanks away from the end stops at a character that is none. -/
theorem trimBlanks_blank {cs : List Char} {c : Char} (h : c ≠ ' ') :
    trimBlanks (cs ++ [c] ++ [' ']) = cs ++ [c] := by
  unfold trimBlanks
  simp [h]

end Outline

end Metafile
