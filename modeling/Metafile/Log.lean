/-!
# `Metafile.Log`: messages about a conversion

Reading and drawing leave messages in the order in which things happen. They are values like any
other, so a log never changes what is drawn.
-/

set_option autoImplicit false

namespace Metafile

/-- How important a message is. -/
inductive Level
  | debug | info | warn
deriving DecidableEq, Repr

/-- The name of a level. -/
def Level.name : Level → String
  | .debug => "DEBUG"
  | .info => "INFO"
  | .warn => "WARN"

/-- One message. -/
structure Message where
  level : Level
  text : String
deriving DecidableEq, Repr

/-- Messages, the oldest first. -/
abbrev Log := Array Message

namespace Log

/-- A level and a text in one line. -/
def line (m : Message) : String :=
  m.level.name ++ " " ++ m.text

/-- The lowest `width` digits or more of a number in base 16, as `0x…`. -/
def hexadecimal (width n : Nat) : String :=
  let digits := Nat.toDigits 16 n
  String.ofList ('0' :: 'x' :: (List.replicate (width - digits.length) '0' ++ digits))

/-- A text with blanks before it, up to a width. -/
def alignRight (width : Nat) (s : String) : String :=
  String.ofList (List.replicate (width - s.length) ' ') ++ s

/-- A text with blanks after it, up to a width. -/
def alignLeft (width : Nat) (s : String) : String :=
  s ++ String.ofList (List.replicate (width - s.length) ' ')

end Log

end Metafile
