/-!
# `Metafile.Color`: colours

Records hold colours in two layouts. A device colour keeps red in its lowest byte, then green and
blue. An EMF+ colour keeps blue lowest, then green, red and an opacity. Both are written as
`#RRGGBB`.
-/

set_option autoImplicit false

namespace Metafile

/-- A colour of three parts. -/
structure Color where
  red : UInt8
  green : UInt8
  blue : UInt8
deriving DecidableEq, Repr, Inhabited

namespace Color

/-- No light at all. -/
def black : Color := ⟨0, 0, 0⟩

/-- All light there is. -/
def white : Color := ⟨255, 255, 255⟩

/-- A colour with three equal parts. -/
def gray (level : UInt8) : Color := ⟨level, level, level⟩

/-- A device colour: red in the lowest byte. The highest byte has no meaning. -/
def ofReference (n : Nat) : Color :=
  ⟨UInt8.ofNat n, UInt8.ofNat (n / 256), UInt8.ofNat (n / 65536)⟩

/-- The colour of an EMF+ colour: blue in the lowest byte. -/
def ofArgb (n : Nat) : Color :=
  ⟨UInt8.ofNat (n / 65536), UInt8.ofNat (n / 256), UInt8.ofNat n⟩

/-- The opacity of an EMF+ colour, from 0 to 1. -/
def opacityOfArgb (n : Nat) : Float :=
  Float.ofNat (n / 16777216 % 256) / 255

/-- The digit for a number below 16, letters in upper case. -/
def hexDigit (n : Nat) : Char :=
  (Nat.digitChar n).toUpper

/-- The two digits of a byte. -/
def hexByte (b : UInt8) : List Char :=
  [hexDigit (b.toNat / 16), hexDigit (b.toNat % 16)]

/-- A colour as documents write it. -/
def hex (c : Color) : String :=
  String.ofList ('#' :: (hexByte c.red ++ hexByte c.green ++ hexByte c.blue))

end Color

end Metafile
