import Metafile.Proofs.Geometry.Beginnings
import Metafile.Proofs.Markup.PathData

/-!
# `Metafile.Proofs.Markup.PathCommands`: path data read back

Path data is a sequence of commands. Each is a letter and the arguments that belong to it: a point
for a move and for a line, three points for a curve, radii, a rotation, two flags and a point for
an arc, and nothing for a closing. `pathCommands?` reads a text so, and gives the letters of its
commands. A text that holds anything else, or a command that lacks an argument, cannot be read.

`Outline.pathCommands?_data` states that the path data of every outline can be read, and that
there is one command for each segment. What it does not say is that the first of them is a move.
Path data can be drawn only if it is (`IsPathData`), and `Outline.isPathData_data_iff` says which
outlines that are.
-/

set_option autoImplicit false

namespace Metafile

/-! ### Numbers -/

namespace Decimal.Fixed

/-- Whether characters are digits, and there are some. -/
def isDigits (cs : List Char) : Bool := !cs.isEmpty && cs.all Char.isDigit

/-- Whether characters are a decimal without a sign: digits, and after a point more of them. -/
def isUnsigned (cs : List Char) : Bool :=
  match cs.splitOn '.' with
  | [whole] => isDigits whole
  | [whole, fraction] => isDigits whole && isDigits fraction
  | _ => false

/-- Whether characters are a decimal. -/
def isNumber : List Char → Bool
  | '-' :: cs => isUnsigned cs
  | cs => isUnsigned cs

/-- There is no point among digits. -/
private theorem point_notMem {cs : List Char} (h : ∀ c ∈ cs, c.isDigit = true) : '.' ∉ cs :=
  fun hc => absurd (h _ hc) (by decide)

/-- Digits are recognised as such, if there are some. -/
private theorem isDigits_of {cs : List Char} (hne : cs ≠ []) (h : ∀ c ∈ cs, c.isDigit = true) :
    isDigits cs = true := by
  rw [isDigits, Bool.and_eq_true, Bool.not_eq_true', List.isEmpty_eq_false_iff, List.all_eq_true]
  exact ⟨hne, h⟩

/-- The decimals are left out, or they are a point and digits. -/
private theorem decimals_eq (fraction : Nat) :
    decimals fraction = [] ∨ ∃ digits, digits ≠ [] ∧ (∀ c ∈ digits, c.isDigit = true) ∧
      decimals fraction = '.' :: digits := by
  unfold decimals
  split
  · exact .inl rfl
  · rename_i digits hne
    exact .inr ⟨_, hne, fun c hc => padded_isDigit _ _ c (mem_of_mem_trimZeros hc), rfl⟩

/-- The magnitude of a number is a decimal: digits, and after a point more of them or no point at
all. -/
private theorem magnitude_isUnsigned (units : Nat) : isUnsigned (magnitude units) = true := by
  have hwhole : ∀ c ∈ Nat.toDigits 10 (units / Nat.pow 10 places), c.isDigit = true :=
    fun c hc => Nat.isDigit_of_mem_toDigits (by decide) (by decide) hc
  have hdigits := isDigits_of Nat.toDigits_ne_nil hwhole
  unfold magnitude isUnsigned
  -- the point is written only before digits
  rcases decimals_eq (units % Nat.pow 10 places) with hnone | ⟨digits, hne, hfraction, heq⟩
  · have htext : Nat.toDigits 10 (units / Nat.pow 10 places) =
        ['.'].intercalate [Nat.toDigits 10 (units / Nat.pow 10 places)] :=
      List.intercalate_singleton.symm
    rw [hnone, List.append_nil, htext, List.splitOn_intercalate]
    · exact hdigits
    · exact List.forall_mem_singleton.2 (point_notMem hwhole)
    · exact List.cons_ne_nil _ _
  · have htext : Nat.toDigits 10 (units / Nat.pow 10 places) ++ '.' :: digits =
        ['.'].intercalate [Nat.toDigits 10 (units / Nat.pow 10 places), digits] := by
      simp [List.intercalate_cons_cons]
    rw [heq, htext, List.splitOn_intercalate]
    · exact Bool.and_eq_true_iff.2 ⟨hdigits, isDigits_of hne hfraction⟩
    · exact List.forall_mem_cons.2 ⟨point_notMem hwhole,
        List.forall_mem_singleton.2 (point_notMem hfraction)⟩
    · exact List.cons_ne_nil _ _

/-- A number is a decimal, with a sign or without. -/
theorem chars_isNumber (v : Float) : isNumber (chars v) = true := by
  have hmagnitude (units : Nat) : isNumber (magnitude units) = true := by
    have hunsigned := magnitude_isUnsigned units
    unfold isNumber
    split
    · -- a magnitude begins with a digit
      rename_i rest heq
      unfold magnitude at heq
      obtain ⟨first, others, hdigits⟩ := List.exists_cons_of_ne_nil
        (Nat.toDigits_ne_nil (b := 10) (n := units / Nat.pow 10 places))
      have hfirst : first.isDigit = true := Nat.isDigit_of_mem_toDigits (b := 10)
        (n := units / Nat.pow 10 places) (by decide) (by decide) (hdigits ▸ List.mem_cons_self)
      rw [hdigits, List.cons_append] at heq
      rw [(List.cons.inj heq).1] at hfirst
      exact absurd hfirst (by decide)
    · exact hunsigned
  unfold chars
  split
  · split
    · exact magnitude_isUnsigned _
    · exact hmagnitude _
  · rfl

end Decimal.Fixed

/-! ### Commands -/

/-- Whether a word is a point: two numbers with a comma between. -/
def isPointWord (word : List Char) : Bool :=
  match word.splitOn ',' with
  | [x, y] => Decimal.Fixed.isNumber x && Decimal.Fixed.isNumber y
  | _ => false

/-- Whether a word is a flag. -/
def isFlagWord (word : List Char) : Bool := word = ['0'] || word = ['1']

/-- Reads words as commands, and gives their letters. -/
def readCommands : List (List Char) → Option (List Char)
  | [] => some []
  | ['M'] :: p :: rest => if isPointWord p then (readCommands rest).map ('M' :: ·) else none
  | ['L'] :: p :: rest => if isPointWord p then (readCommands rest).map ('L' :: ·) else none
  | ['C'] :: p :: q :: r :: rest =>
    if isPointWord p && isPointWord q && isPointWord r then (readCommands rest).map ('C' :: ·)
    else none
  | ['A'] :: radii :: rotation :: large :: sweep :: p :: rest =>
    if isPointWord radii && Decimal.Fixed.isNumber rotation && isFlagWord large &&
        isFlagWord sweep && isPointWord p then
      (readCommands rest).map ('A' :: ·)
    else none
  | ['Z'] :: rest => (readCommands rest).map ('Z' :: ·)
  | _ => none

/-- The letters of the commands of a text, if it holds complete commands and nothing else. -/
def pathCommands? (text : String) : Option (List Char) :=
  if text = "" then some [] else readCommands (text.toList.splitOn ' ')

/-- Path data that can be drawn: none at all, or complete commands of which the first is a move.
-/
def IsPathData (text : String) : Prop :=
  text = "" ∨ ∃ rest, pathCommands? text = some ('M' :: rest)

example : pathCommands? "M 0,0 L 1.5,-2 A 1,1 0 0 1 2,2 Z" = some ['M', 'L', 'A', 'Z'] := by
  decide +kernel

/-! ### Words of an outline -/

/-- A point as a word. -/
def Point.word (p : Point Float) : List Char :=
  Decimal.Fixed.chars p.x ++ ',' :: Decimal.Fixed.chars p.y

namespace Segment

/-- The letter of the command of a segment. -/
def letter : Segment Float → Char
  | .move _ => 'M'
  | .line _ => 'L'
  | .arc .. => 'A'
  | .curve .. => 'C'
  | .close => 'Z'

/-- The command of a segment, word by word. -/
def words : Segment Float → List (List Char)
  | .move p => [['M'], p.word]
  | .line p => [['L'], p.word]
  | .arc radii stop large sweep =>
    [['A'], radii.word, ['0'], [flagChar large], [flagChar sweep], stop.word]
  | .curve c₁ c₂ stop => [['C'], c₁.word, c₂.word, stop.word]
  | .close => [['Z']]

end Segment

/-- A point is written as a word with a blank behind it. -/
theorem Point.chars_eq (p : Point Float) : p.chars = p.word ++ [' '] := by
  simp [Point.chars, Point.word]

/-- The word of a point is two numbers, for there is one comma in it. -/
theorem Point.word_isPointWord (p : Point Float) : isPointWord p.word = true := by
  have hcomma (v : Float) : ',' ∉ Decimal.Fixed.chars v :=
    fun hc => absurd (Decimal.Fixed.chars_isDecimalChar v _ hc) (by decide)
  have htext : p.word =
      [','].intercalate [Decimal.Fixed.chars p.x, Decimal.Fixed.chars p.y] := by
    simp [Point.word, List.intercalate_cons_cons]
  unfold isPointWord
  rw [htext, List.splitOn_intercalate]
  · exact Bool.and_eq_true_iff.2
      ⟨Decimal.Fixed.chars_isNumber p.x, Decimal.Fixed.chars_isNumber p.y⟩
  · exact List.forall_mem_cons.2 ⟨hcomma _, List.forall_mem_singleton.2 (hcomma _)⟩
  · exact List.cons_ne_nil _ _

/-- A word of a point is not empty and has no blank in it. -/
private theorem Point.word_solid (p : Point Float) : p.word ≠ [] ∧ ' ' ∉ p.word := by
  refine ⟨by simp [Point.word], fun hblank => ?_⟩
  have hnumber (v : Float) (h : ' ' ∈ Decimal.Fixed.chars v) : False :=
    absurd (Decimal.Fixed.chars_isDecimalChar v _ h) (by decide)
  rcases List.mem_append.1 hblank with h | h
  · exact hnumber p.x h
  · rcases List.mem_cons.1 h with h | h
    · exact absurd h (by decide)
    · exact hnumber p.y h

namespace Segment

/-- The command of a segment is written as words with a blank behind each. -/
theorem chars_eq (s : Segment Float) : s.chars = s.words.flatMap (· ++ [' ']) := by
  cases s <;> simp [Segment.chars, words, Point.chars_eq]

/-- No word of a command is empty or has a blank in it, so the words can be told apart again. -/
private theorem words_solid (s : Segment Float) : ∀ w ∈ s.words, w ≠ [] ∧ ' ' ∉ w := by
  have hflag (b : Bool) : [flagChar b] ≠ [] ∧ ' ' ∉ [flagChar b] := by cases b <;> decide
  cases s with
  | move p => exact List.forall_mem_cons.2 ⟨by decide, List.forall_mem_singleton.2 p.word_solid⟩
  | line p => exact List.forall_mem_cons.2 ⟨by decide, List.forall_mem_singleton.2 p.word_solid⟩
  | arc radii stop large sweep =>
      simp only [words, List.forall_mem_cons]
      exact ⟨by decide, radii.word_solid, by decide, hflag large, hflag sweep, stop.word_solid,
        nofun⟩
  | curve c₁ c₂ stop =>
      simp only [words, List.forall_mem_cons]
      exact ⟨by decide, c₁.word_solid, c₂.word_solid, stop.word_solid, nofun⟩
  | close => exact List.forall_mem_singleton.2 (by decide)

/-- The command of a segment is read, and then what follows it. -/
theorem readCommands_words (s : Segment Float) (rest : List (List Char)) :
    readCommands (s.words ++ rest) = (readCommands rest).map (s.letter :: ·) := by
  have hflag (b : Bool) : isFlagWord [flagChar b] = true := by cases b <;> rfl
  have hzero : Decimal.Fixed.isNumber ['0'] = true := by decide
  cases s <;>
    simp [words, letter, readCommands, Point.word_isPointWord, hflag, hzero]

end Segment

namespace Outline

/-- The path data of an outline, word by word. -/
def words (o : Outline Float) : List (List Char) := o.flatMap Segment.words

/-- The letters of the commands of an outline. -/
def letters (o : Outline Float) : List Char := List.map Segment.letter o

/-- The same of all words of an outline. -/
private theorem words_solid (o : Outline Float) : ∀ w ∈ o.words, w ≠ [] ∧ ' ' ∉ w := by
  intro w hw
  obtain ⟨s, _, hw⟩ := List.mem_flatMap.1 hw
  exact s.words_solid w hw

/-- The commands of an outline are its words with a blank behind each. -/
theorem chars_eq_words (o : Outline Float) : chars o = o.words.flatMap (· ++ [' ']) := by
  induction o with
  | nil => rfl
  | cons s rest ih =>
      rw [words, List.flatMap_cons, List.flatMap_append, ← s.chars_eq, ← words, ← ih]
      rfl

/-- Words with a blank after each but the last. -/
private theorem intercalate_concat (ws : List (List Char)) (w : List Char) :
    [' '].intercalate (ws ++ [w]) = ws.flatMap (· ++ [' ']) ++ w := by
  induction ws with
  | nil => exact List.intercalate_singleton
  | cons first rest ih =>
      obtain ⟨second, others, heq⟩ := List.exists_cons_of_ne_nil
        (List.append_ne_nil_of_right_ne_nil rest (List.cons_ne_nil w []))
      rw [List.cons_append, heq, List.intercalate_cons_cons, ← heq, ih, List.flatMap_cons,
        List.append_assoc, List.append_assoc, List.append_assoc]

/-- The path data of an outline are its words with a blank between them. -/
theorem toList_data (o : Outline Float) : o.data.toList = [' '].intercalate o.words := by
  rw [data, String.toList_ofList, chars_eq_words]
  have hsolid := o.words_solid
  rcases List.eq_nil_or_concat o.words with hnone | ⟨ws, w, heq⟩
  · rw [hnone]
    rfl
  · rw [heq, List.concat_eq_append] at hsolid ⊢
    -- the last word ends with a character that is no blank
    obtain ⟨hne, hblank⟩ := hsolid w (List.mem_append_right _ (List.mem_singleton_self w))
    obtain ⟨start, c, hw⟩ := (List.eq_nil_or_concat w).resolve_left hne
    rw [List.concat_eq_append] at hw
    have hc : c ≠ ' ' := by
      rintro rfl
      exact hblank (hw ▸ List.mem_append_right _ (List.mem_singleton_self _))
    rw [intercalate_concat, List.flatMap_append, List.flatMap_singleton, hw,
      ← List.append_assoc _ start, ← List.append_assoc, ← List.append_assoc, trimBlanks_blank hc]

/-- The words of an outline are read as one command for each segment. -/
theorem readCommands_words (o : Outline Float) : readCommands o.words = some o.letters := by
  induction o with
  | nil => rfl
  | cons s rest ih =>
      change readCommands (s.words ++ words rest) = _
      rw [s.readCommands_words, ih]
      rfl

/-- The text of an outline can be cut into its words. -/
private theorem splitOn_data {o : Outline Float} (h : o ≠ []) :
    o.data.toList.splitOn ' ' = o.words := by
  have hwords : o.words ≠ [] := by
    obtain ⟨s, rest, rfl⟩ := List.exists_cons_of_ne_nil h
    cases s <;> exact List.cons_ne_nil _ _
  rw [toList_data, List.splitOn_intercalate ' ' (fun w hw => (o.words_solid w hw).2) hwords]

/-- The path data of an outline is empty only if the outline is. -/
theorem data_eq_empty_iff (o : Outline Float) : o.data = "" ↔ o = [] := by
  cases o with
  | nil => exact ⟨fun _ => rfl, fun _ => rfl⟩
  | cons s rest =>
      refine ⟨fun hempty => ?_, nofun⟩
      have hsplit := splitOn_data (List.cons_ne_nil s rest)
      -- an empty text would be one empty word, and no word is empty
      rw [hempty] at hsplit
      exact absurd rfl (words_solid (s :: rest) [] (hsplit ▸ List.mem_singleton_self [])).1

/-- The path data of an outline hold complete commands and nothing else, one command for each
segment. -/
theorem pathCommands?_data (o : Outline Float) : pathCommands? o.data = some o.letters := by
  unfold pathCommands?
  split
  · rename_i hempty
    rw [(data_eq_empty_iff o).1 hempty]
    rfl
  · rename_i hne
    rw [splitOn_data (fun hnone => hne ((data_eq_empty_iff o).2 hnone)), readCommands_words]

/-- So the path data of an outline can be drawn if it is empty or begins with a move. -/
theorem isPathData_data_iff (o : Outline Float) : IsPathData o.data ↔ o.Begun := by
  unfold IsPathData Begun
  rw [pathCommands?_data, data_eq_empty_iff]
  cases o with
  | nil => exact ⟨fun _ => nofun, fun _ => .inl rfl⟩
  | cons s rest => cases s <;> simp [letters, Segment.letter, Segment.isMove]

end Outline

end Metafile
