/-!
# `Metafile.Text.Base64`: bytes as text

Pictures are embedded as base64: three bytes become four characters of a 64-character alphabet,
and `=` fills up the last group. `length_encodeAfter` states the length of the text.
-/

set_option autoImplicit false

namespace Metafile.Text.Base64

/-- The character for a number below 64. -/
def symbol (n : Nat) : Char :=
  if n < 26 then Char.ofNat (n + 65)
  else if n < 52 then Char.ofNat (n - 26 + 97)
  else if n < 62 then Char.ofNat (n - 52 + 48)
  else if n = 62 then '+'
  else '/'

/-- The four characters of three bytes. -/
def group (a b c : UInt8) : List Char :=
  let n := a.toNat * 65536 + b.toNat * 256 + c.toNat
  [symbol (n / 262144), symbol (n / 4096 % 64), symbol (n / 64 % 64), symbol (n % 64)]

/-- A group has four characters. -/
theorem length_group (a b c : UInt8) : (group a b c).length = 4 := rfl

/-- A text, followed by the characters of a sequence of bytes. The text is built from the left, so
that large pictures need no deep recursion. -/
def encodeAfter (text : String) : List UInt8 → String
  | [] => text
  | [a] => text ++ String.ofList ((group a 0 0).take 2 ++ ['=', '='])
  | [a, b] => text ++ String.ofList ((group a b 0).take 3 ++ ['='])
  | a :: b :: c :: rest => encodeAfter (text ++ String.ofList (group a b c)) rest

/-- Each started group of three bytes takes four characters. -/
theorem length_encodeAfter (text : String) (bytes : List UInt8) :
    (encodeAfter text bytes).length = text.length + (bytes.length + 2) / 3 * 4 := by
  fun_induction encodeAfter text bytes with
  | case1 text => rfl
  | case2 text a => simp only [String.length_append, String.length_ofList, List.length_append,
      List.length_take, length_group, List.length_cons, List.length_nil]; omega
  | case3 text a b => simp only [String.length_append, String.length_ofList, List.length_append,
      List.length_take, length_group, List.length_cons, List.length_nil]; omega
  | case4 text a b c rest ih =>
    rw [ih, String.length_append, String.length_ofList, length_group]
    simp only [List.length_cons]
    omega

/-- The characters of a sequence of bytes. -/
def encode (bytes : List UInt8) : String :=
  encodeAfter "" bytes

end Metafile.Text.Base64
