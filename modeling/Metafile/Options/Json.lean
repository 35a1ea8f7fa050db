import Metafile.Text.Utf16

/-!
# `Metafile.Options.Json`: the text form of options

Options come as JSON text. `Value.ofText?` reads a text strictly: one value, blanks around it, and
nothing else. Strings keep their escapes and numbers keep their digits, because what they stand
for is only asked of the parts of a text that are used.

* `textOf?` puts a string together. Escaped surrogates must form pairs.
* `Number.float?` gives the floating-point number of some digits: the leading digits as one number
  of 64 bits, scaled by a power of ten. A number above all floating-point numbers has none.
-/

set_option autoImplicit false

namespace Metafile.Options.Json

/-- A character of a string, or the number of an escape. -/
inductive Part
  | char (c : Char)
  | escape (unit : Nat)
deriving DecidableEq, Repr

/-- The digits of a number as they are written. -/
structure Number where
  negative : Bool
  whole : List Char
  fraction : List Char
  negativeExponent : Bool
  exponent : List Char
deriving DecidableEq, Repr

/-- A value of a JSON text. Members keep their order, and keys may repeat. -/
inductive Value where
  | null
  | bool (b : Bool)
  | number (n : Number)
  | string (parts : List Part)
  | array (values : List Value)
  | object (members : List (List Part × Value))
deriving Repr, Inhabited

/-! ### Strings and numbers -/

/-- The characters of a string. An escaped high surrogate must be followed by an escaped low one,
and no low one stands alone. -/
def charsOf? : List Part → Option (List Char)
  | [] => some []
  | .char c :: rest => (charsOf? rest).map (c :: ·)
  | .escape high :: .escape low :: rest =>
    if Text.Utf16.isHigh high then
      if Text.Utf16.isLow low then (charsOf? rest).map (Text.Utf16.pair high low :: ·) else none
    else if Text.Utf16.isLow high then none
    else (charsOf? (.escape low :: rest)).map (Char.ofNat high :: ·)
  | .escape unit :: rest =>
    if Text.Utf16.isHigh unit || Text.Utf16.isLow unit then none
    else (charsOf? rest).map (Char.ofNat unit :: ·)

/-- The text of a string. -/
def textOf? (parts : List Part) : Option String :=
  (charsOf? parts).map String.ofList

namespace Number

/-- The value of a digit. -/
def digit (c : Char) : Nat := c.toNat - '0'.toNat

/-- The number that digits stand for. -/
def natural (digits : List Char) : Nat :=
  digits.foldl (fun n c => n * 10 + digit c) 0

/-- The highest number of 64 bits. -/
def mostSignificand : Nat := UInt64.size - 1

/-- The highest exponent. -/
def mostExponent : Nat := Nat.pow 2 31 - 1

/-- Takes digits into a number of 64 bits until the next one does not fit. The digits that are
left come with it. -/
def absorb (significand : Nat) : List Char → Nat × List Char
  | [] => (significand, [])
  | c :: rest =>
    if significand * 10 + digit c ≤ mostSignificand then
      absorb (significand * 10 + digit c) rest
    else (significand, c :: rest)

/-- The power of ten with an exponent from 0 to 308. -/
def power (k : Nat) : Float := Float.ofScientific 1 false k

/-- A number times a power of ten, if the result is not too large. Divisions by more than
`10 ^ 308` are done in steps. -/
def scale? (f : Float) (exponent : Int) : Option Float :=
  if 0 ≤ exponent then
    if exponent ≤ 308 then
      let g := f * power exponent.toNat
      if g.isInf then none else some g
    else if f == 0 then some f
    else none
  else if -308 ≤ exponent then some (f / power (-exponent).toNat)
  else if f == 0 then some f
  else scale? (f / power 308) (exponent + 308)
termination_by exponent.natAbs
decreasing_by omega

/-- The floating-point number of some digits, if it is not too large. -/
def float? (n : Number) : Option Float :=
  let (whole, skipped) := absorb 0 n.whole
  let (significand, unused) := absorb whole n.fraction
  let taken := n.fraction.length - unused.length
  let start : Int := (skipped.length : Int) - taken
  let exponent := natural n.exponent
  let magnitude : Option Float :=
    if exponent ≤ mostExponent then
      scale? (Float.ofNat significand)
        (if n.negativeExponent then start - exponent else start + exponent)
    else if significand ≠ 0 && !n.negativeExponent then none
    else some 0
  magnitude.map fun f => if n.negative then -f else f

end Number

/-! ### Reading -/

/-- The text after its blanks. -/
def skipBlanks (cs : List Char) : List Char :=
  cs.dropWhile fun c => c == ' ' || c == '\n' || c == '\t' || c == '\r'

/-- The value of a hexadecimal digit, if it is one. -/
def hexDigit? (c : Char) : Option Nat :=
  if '0' ≤ c && c ≤ '9' then some (c.toNat - 48)
  else if 'a' ≤ c && c ≤ 'f' then some (c.toNat - 87)
  else if 'A' ≤ c && c ≤ 'F' then some (c.toNat - 55)
  else none

/-- The character of an escape of one letter, if there is one. -/
def escaped? : Char → Option Char
  | '"' => some '"'
  | '\\' => some '\\'
  | '/' => some '/'
  | 'b' => some '\x08'
  | 'f' => some '\x0C'
  | 'n' => some '\n'
  | 'r' => some '\r'
  | 't' => some '\t'
  | _ => none

/-- Reads a string from after its first quote to after its last one. Control characters must be
escaped. -/
def string? : List Char → Option (List Part × List Char)
  | [] => none
  | '"' :: rest => some ([], rest)
  | '\\' :: 'u' :: a :: b :: c :: d :: rest => do
    let unit := (← hexDigit? a) * 4096 + (← hexDigit? b) * 256 + (← hexDigit? c) * 16 +
      (← hexDigit? d)
    let (parts, rest) ← string? rest
    return (.escape unit :: parts, rest)
  | '\\' :: letter :: rest => do
    let c ← escaped? letter
    let (parts, rest) ← string? rest
    return (.char c :: parts, rest)
  | c :: rest => do
    if c.toNat < 0x20 || c == '\\' then none
    let (parts, rest) ← string? rest
    return (.char c :: parts, rest)

/-- The digits at the beginning of a text, and the text after them. -/
def digits (cs : List Char) : List Char × List Char :=
  (cs.takeWhile Char.isDigit, cs.dropWhile Char.isDigit)

/-- Reads digits, of which there must be one at least. -/
def someDigits? (cs : List Char) : Option (List Char × List Char) :=
  let (ds, rest) := digits cs
  if ds.isEmpty then none else some (ds, rest)

/-- Reads the digits before the point. A zero stands alone. -/
def whole? : List Char → Option (List Char × List Char)
  | '0' :: rest =>
    match rest with
    | c :: _ => if c.isDigit then none else some (['0'], rest)
    | [] => some (['0'], rest)
  | cs => someDigits? cs

/-- Reads the point and the digits after it, if there is a point. -/
def fraction? : List Char → Option (List Char × List Char)
  | '.' :: rest => someDigits? rest
  | cs => some ([], cs)

/-- Reads the exponent, if there is one: whether it is negative, and its digits. -/
def exponent? : List Char → Option (Bool × List Char × List Char)
  | c :: rest =>
    if c == 'e' || c == 'E' then
      match rest with
      | '+' :: rest => (someDigits? rest).map (false, ·)
      | '-' :: rest => (someDigits? rest).map (true, ·)
      | rest => (someDigits? rest).map (false, ·)
    else some (false, [], c :: rest)
  | [] => some (false, [], [])

/-- Reads a number from after its sign on. -/
def number? (negative : Bool) (cs : List Char) : Option (Number × List Char) := do
  let (whole, cs) ← whole? cs
  let (fraction, cs) ← fraction? cs
  let (negativeExponent, exponent, cs) ← exponent? cs
  return (⟨negative, whole, fraction, negativeExponent, exponent⟩, cs)

/-- Reads a word that must stand here. -/
def word? (word : String) (value : Value) (cs : List Char) : Option (Value × List Char) :=
  if word.toList.isPrefixOf cs then some (value, cs.drop word.length) else none

/-- Reads a key and the colon after it. -/
def key? (cs : List Char) : Option (List Part × List Char) :=
  match skipBlanks cs with
  | '"' :: rest => do
    let (key, rest) ← string? rest
    match skipBlanks rest with
    | ':' :: rest => some (key, rest)
    | _ => none
  | _ => none

mutual

/-- Reads a value. The fuel bounds how deep values nest and how many there are. -/
def value? : Nat → List Char → Option (Value × List Char)
  | 0, _ => none
  | fuel + 1, cs =>
    match skipBlanks cs with
    | '"' :: rest => (string? rest).map fun (parts, rest) => (.string parts, rest)
    | '-' :: rest => (number? true rest).map fun (n, rest) => (.number n, rest)
    | '[' :: rest =>
      match skipBlanks rest with
      | ']' :: rest => some (.array [], rest)
      | _ => (values? fuel rest).map fun (values, rest) => (.array values, rest)
    | '{' :: rest =>
      match skipBlanks rest with
      | '}' :: rest => some (.object [], rest)
      | _ => (members? fuel rest).map fun (members, rest) => (.object members, rest)
    | 'n' :: rest => word? "ull" .null rest
    | 't' :: rest => word? "rue" (.bool true) rest
    | 'f' :: rest => word? "alse" (.bool false) rest
    | cs => (number? false cs).map fun (n, rest) => (.number n, rest)

/-- Reads the values of an array up to after its end. -/
def values? : Nat → List Char → Option (List Value × List Char)
  | 0, _ => none
  | fuel + 1, cs => do
    let (v, cs) ← value? fuel cs
    match skipBlanks cs with
    | ',' :: rest => (values? fuel rest).map fun (vs, rest) => (v :: vs, rest)
    | ']' :: rest => some ([v], rest)
    | _ => none

/-- Reads the members of an object up to after its end. -/
def members? : Nat → List Char → Option (List (List Part × Value) × List Char)
  | 0, _ => none
  | fuel + 1, cs => do
    let (key, cs) ← key? cs
    let (v, cs) ← value? fuel cs
    match skipBlanks cs with
    | ',' :: rest => (members? fuel rest).map fun (ms, rest) => ((key, v) :: ms, rest)
    | '}' :: rest => some ([(key, v)], rest)
    | _ => none

end

/-- The value that a text is. Each step of reading takes a character at least, except the step
from a list to its first value, so twice the length is fuel enough. -/
def Value.ofText? (text : String) : Option Value :=
  let cs := text.toList
  match value? (2 * cs.length + 2) cs with
  | some (v, rest) => if (skipBlanks rest).isEmpty then some v else none
  | none => none

end Metafile.Options.Json
