/-!
# `Metafile.Text.Utf16`: text from UTF-16 code units

Strings in a metafile are sequences of 16-bit code units. A character above U+FFFF takes two of
them, a high surrogate and a low one. A surrogate that stands alone is no character and reads as
U+FFFD, so every sequence of units gives a text.

`decodeChars_encodeChars` states that the units of a text read back as that text.
-/

set_option autoImplicit false

namespace Metafile.Text.Utf16

/-- The character that stands for a unit which is no character by itself. -/
def replacement : Char := '\uFFFD'

/-- Whether a unit is the first half of a pair. -/
def isHigh (unit : Nat) : Bool := 0xD800 ≤ unit && unit < 0xDC00

/-- Whether a unit is the second half of a pair. -/
def isLow (unit : Nat) : Bool := 0xDC00 ≤ unit && unit < 0xE000

/-- The character of a code point, and the replacement for a number that is no code point. -/
def charOf (code : Nat) : Char :=
  if code.isValidChar then Char.ofNat code else replacement

/-- The character of two halves. -/
def pair (high low : Nat) : Char :=
  charOf (0x10000 + (high - 0xD800) * 0x400 + (low - 0xDC00))

/-- The characters that a sequence of units stands for. -/
def decodeChars : List Nat → List Char
  | [] => []
  | [unit] => [charOf unit]
  | unit :: next :: rest =>
    if isHigh unit && isLow next then pair unit next :: decodeChars rest
    else charOf unit :: decodeChars (next :: rest)

/-- The text that a sequence of units stands for. -/
def decode (units : List Nat) : String :=
  String.ofList (decodeChars units)

/-- The units of a character. -/
def encodeChar (c : Char) : List Nat :=
  if c.toNat < 0x10000 then [c.toNat]
  else [0xD800 + (c.toNat - 0x10000) / 0x400, 0xDC00 + (c.toNat - 0x10000) % 0x400]

/-- The units of a sequence of characters. -/
def encodeChars (cs : List Char) : List Nat :=
  cs.flatMap encodeChar

/-- A character reads back from its units, whatever follows them. -/
theorem decodeChars_encodeChar_append (c : Char) (rest : List Nat) :
    decodeChars (encodeChar c ++ rest) = c :: decodeChars rest := by
  have hv : c.toNat.isValidChar := c.valid
  have hchar : charOf c.toNat = c := by
    rw [charOf, if_pos hv, Char.ofNat_toNat]
  unfold Nat.isValidChar at hv
  by_cases h : c.toNat < 0x10000
  · rw [encodeChar, if_pos h]
    have hh : isHigh c.toNat = false := by
      simp only [isHigh, Bool.and_eq_false_iff, decide_eq_false_iff_not]
      omega
    cases rest with
    | nil => simp [decodeChars, hchar]
    | cons r rs => simp [decodeChars, hh, hchar]
  · rw [encodeChar, if_neg h]
    have hh : isHigh (0xD800 + (c.toNat - 0x10000) / 0x400) = true := by
      simp only [isHigh, Bool.and_eq_true, decide_eq_true_eq]
      omega
    have hl : isLow (0xDC00 + (c.toNat - 0x10000) % 0x400) = true := by
      simp only [isLow, Bool.and_eq_true, decide_eq_true_eq]
      omega
    have hp : pair (0xD800 + (c.toNat - 0x10000) / 0x400)
        (0xDC00 + (c.toNat - 0x10000) % 0x400) = c := by
      unfold pair
      rw [show 0x10000 + (0xD800 + (c.toNat - 0x10000) / 0x400 - 0xD800) * 0x400 +
        (0xDC00 + (c.toNat - 0x10000) % 0x400 - 0xDC00) = c.toNat by omega]
      exact hchar
    simp [decodeChars, hh, hl, hp]

/-- A text reads back from its units. -/
theorem decodeChars_encodeChars (cs : List Char) : decodeChars (encodeChars cs) = cs := by
  induction cs with
  | nil => rfl
  | cons c rest ih =>
    rw [encodeChars, List.flatMap_cons, decodeChars_encodeChar_append]
    exact congrArg (c :: ·) ih

end Metafile.Text.Utf16
