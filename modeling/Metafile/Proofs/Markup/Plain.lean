import Metafile.Bitmap.Embed
import Metafile.Color
import Metafile.Decimal.Shortest
import Metafile.Markup.Lettering
import Metafile.Markup.Reference
import Metafile.Proofs.Markup.PathData
import Metafile.Proofs.Markup.Scan

/-!
# `Metafile.Proofs.Markup.Plain`: values that need no escape

Values of attributes are written as they are, so they must not hold a character with a meaning in
markup. Numbers, colours, references, path data and data URIs never do. What remains are the names
of font families, which come out of the stream.

`Attribute.Within` says that attributes have different keys out of a list and plain values. It is
proved for lists of attributes part by part, and a list with names for keys is `Attribute.Sound`.
-/

set_option autoImplicit false

namespace Metafile.Markup

/-! ### Texts -/

/-- Characters of a class are plain, if the class holds none of the three that are not. -/
theorem isPlain_of {p : Char → Bool} (hquote : p '"' = false) (hless : p '<' = false)
    (hand : p '&' = false) {c : Char} (h : p c = true) : isPlain c = true := by
  have hne (d : Char) (hd : p d = false) : c ≠ d := by
    rintro rfl
    exact absurd h (by rw [hd]; exact Bool.false_ne_true)
  simp only [isPlain, Bool.and_eq_true, bne_iff_ne]
  exact ⟨⟨hne _ hquote, hne _ hless⟩, hne _ hand⟩

/-- A text of plain characters is plain. -/
theorem plain_ofList {cs : List Char} (h : ∀ c ∈ cs, isPlain c = true) : Plain (.ofList cs) := by
  unfold Plain
  rwa [String.toList_ofList]

/-- Texts that are plain one by one are plain together. -/
theorem Plain.append {a b : String} (ha : Plain a) (hb : Plain b) : Plain (a ++ b) := by
  intro c hc
  rw [String.toList_append, List.mem_append] at hc
  rcases hc with hc | hc
  · exact ha c hc
  · exact hb c hc

/-- Plain texts with a plain text between them are a plain text. -/
theorem plain_intercalate {between : String} {parts : List String} (hbetween : Plain between)
    (h : ∀ p ∈ parts, Plain p) : Plain (between.intercalate parts) := by
  induction parts with
  | nil => rw [String.intercalate_nil]; decide
  | cons first rest ih =>
      have hfirst := h first List.mem_cons_self
      have hrest := ih fun p hp => h p (List.mem_cons_of_mem first hp)
      cases rest with
      | nil => rwa [String.intercalate_singleton]
      | cons second rest =>
          rw [String.intercalate_cons_cons]
          exact (hfirst.append hbetween).append hrest

/-! ### Numbers -/

/-- The characters of a number with few decimals are plain: digits, a sign and a point. -/
theorem isPlain_of_decimal {c : Char} (h : Decimal.Fixed.isDecimalChar c = true) :
    isPlain c = true :=
  isPlain_of (by decide) (by decide) (by decide) h

/-- The digits of a number are digits. -/
private theorem isDecimalChar_toDigits {n : Nat} {c : Char} (h : c ∈ Nat.toDigits 10 n) :
    Decimal.Fixed.isDecimalChar c = true := by
  have hdigit : c.isDigit = true := Nat.isDigit_of_mem_toDigits (by decide) (by decide) h
  rw [Decimal.Fixed.isDecimalChar, hdigit]
  rfl

/-- A number with at most four decimals is plain. -/
theorem plain_fixed (v : Float) : Plain (Decimal.Fixed.text v) :=
  plain_ofList fun c hc => isPlain_of_decimal (Decimal.Fixed.chars_isDecimalChar v c hc)

/-- Positional notation is a plain decimal. -/
private theorem isDecimalChar_positional (s : Decimal.Scaled) :
    ∀ c ∈ Decimal.Shortest.positional s, Decimal.Fixed.isDecimalChar c = true := by
  have hzeros (n : Nat) {c : Char} (hc : c ∈ List.replicate n '0') :
      Decimal.Fixed.isDecimalChar c = true := by
    rw [(List.mem_replicate.1 hc).2]
    rfl
  intro c hc
  unfold Decimal.Shortest.positional at hc
  simp only [List.splitAt_eq] at hc
  split at hc
  · rcases List.mem_append.1 hc with hc | hc
    · exact isDecimalChar_toDigits hc
    · exact hzeros _ hc
  -- before the point and behind it stand digits, filled up with zeros
  · have hpadded {c : Char} {n : Nat} {digits : List Char}
        (hdigits : ∀ d ∈ digits, Decimal.Fixed.isDecimalChar d = true)
        (hc : c ∈ List.replicate n '0' ++ digits) : Decimal.Fixed.isDecimalChar c = true := by
      rcases List.mem_append.1 hc with hc | hc
      · exact hzeros _ hc
      · exact hdigits c hc
    have hdigits : ∀ d ∈ Nat.toDigits 10 s.digits, Decimal.Fixed.isDecimalChar d = true :=
      fun d hd => isDecimalChar_toDigits hd
    split at hc
    · exact hpadded hdigits (List.mem_of_mem_take hc)
    · rename_i fraction hfraction
      rcases List.mem_append.1 hc with hc | hc
      · exact hpadded hdigits (List.mem_of_mem_take hc)
      · rcases List.mem_cons.1 hc with rfl | hc
        · rfl
        · -- the decimals are some of the digits behind the point
          have hkept : c ∈ Decimal.Shortest.trimmed _ := hc
          unfold Decimal.Shortest.trimmed at hkept
          rw [List.mem_reverse] at hkept
          have hbehind := List.mem_reverse.1 ((List.dropWhile_sublist _).mem hkept)
          exact hpadded hdigits (List.mem_of_mem_drop hbehind)

/-- A number with the fewest digits is plain. -/
theorem plain_shortest (v : Float) : Plain (Decimal.Shortest.text v) := by
  unfold Decimal.Shortest.text
  split
  · decide
  · split <;> decide
  · rename_i negative b _
    have hdigits : ∀ c ∈ (if b.mantissa = 0 then ['0'] else
        Decimal.Shortest.positional (Decimal.Shortest.decimal b)), isPlain c = true := by
      intro c hc
      split at hc
      · rw [List.mem_singleton.1 hc]
        rfl
      · exact isPlain_of_decimal (isDecimalChar_positional _ c hc)
    -- a sign may come before the digits
    refine plain_ofList fun c hc => ?_
    split at hc
    · rcases List.mem_cons.1 hc with rfl | hc
      · rfl
      · exact hdigits c hc
    · exact hdigits c hc

/-- A natural number is plain. -/
theorem plain_repr (n : Nat) : Plain n.repr := by
  intro c hc
  unfold Nat.repr at hc
  rw [String.toList_ofList] at hc
  exact isPlain_of_decimal (isDecimalChar_toDigits hc)

/-- A number with a sign is plain. -/
theorem plain_int (n : Int) : Plain (toString n) := by
  cases n with
  | ofNat n => exact plain_repr n
  | negSucc n => exact Plain.append (a := "-") (by decide) (plain_repr (n + 1))

/-! ### Colours, references and data -/

/-- A colour is plain: a number sign and six digits. -/
theorem plain_hex (c : Color) : Plain c.hex := by
  have hdigit (n : Nat) (h : n < 16) : isPlain (Color.hexDigit n) = true :=
    (by decide : ∀ n : Fin 16, isPlain (Color.hexDigit n) = true) ⟨n, h⟩
  have hbyte (b : UInt8) : ∀ d ∈ Color.hexByte b, isPlain d = true := by
    intro d hd
    have hb := b.toNat_lt
    simp only [Color.hexByte, List.mem_cons, List.not_mem_nil, or_false] at hd
    rcases hd with rfl | rfl
    · exact hdigit _ (by omega)
    · exact hdigit _ (by omega)
  refine plain_ofList fun d hd => ?_
  simp only [List.mem_cons, List.mem_append] at hd
  rcases hd with rfl | (hd | hd) | hd
  · rfl
  · exact hbyte _ d hd
  · exact hbyte _ d hd
  · exact hbyte _ d hd

namespace Reference

/-- The name of a clip region is plain. -/
theorem plain_clip (id : Nat) : Plain (clip id) :=
  Plain.append (by decide) (plain_repr id)

/-- The name of a picture is plain. -/
theorem plain_image (id : Nat) : Plain (image id) :=
  Plain.append (by decide) (plain_repr id)

/-- The name of the tile of a pattern is plain. -/
theorem plain_tile (id : Nat) : Plain (tile id) :=
  (plain_image id).append (by decide)

/-- The name of a pattern is plain. -/
theorem plain_pattern (id : Nat) : Plain (pattern id) :=
  (plain_image id).append (by decide)

/-- A reference is plain if the name in it is. -/
theorem plain_url {name : String} (h : Plain name) : Plain (url name) :=
  ((by decide : Plain "url(#").append h).append (by decide)

end Reference

/-- Path data are plain as far as they are written. -/
theorem plain_chars (o : Outline Float) : Plain (String.ofList (Outline.chars o)) :=
  plain_ofList fun c hc =>
    isPlain_of (p := isPathChar) (by decide) (by decide) (by decide)
      (Outline.chars_isPathChar o c hc)

/-- Path data are plain, and they are still after the blanks at their end are taken away. -/
theorem plain_data (o : Outline Float) : Plain o.data :=
  plain_ofList fun c hc =>
    plain_chars o c (by
      rw [String.toList_ofList]
      exact Outline.mem_of_mem_trimBlanks hc)

/-! ### Data URIs -/

/-- Whether a character is one of those that data URIs are made of. -/
def isUriChar (c : Char) : Bool := c.isAlphanum || [':', ';', ',', '/', '+', '='].contains c

/-- What may stand in a data URI is plain. -/
theorem isPlain_of_isUriChar {c : Char} (h : isUriChar c = true) : isPlain c = true :=
  isPlain_of (p := isUriChar) (by decide) (by decide) (by decide) h

/-- The symbols for six bits are letters, digits, and two signs. A number that is no such symbol
is shown as the padding, which is allowed as well. -/
private theorem isUriChar_symbol (n : Nat) : isUriChar (Text.Base64.symbol n) = true := by
  by_cases h : n < 64
  · exact (by decide : ∀ n : Fin 64, isUriChar (Text.Base64.symbol n) = true) ⟨n, h⟩
  · have hlast : Text.Base64.symbol n = '/' := by
      unfold Text.Base64.symbol
      rw [if_neg (by omega), if_neg (by omega), if_neg (by omega), if_neg (by omega)]
    rw [hlast]
    rfl

/-- Three bytes are written as four symbols. -/
private theorem isUriChar_group {a b c : UInt8} {d : Char} (h : d ∈ Text.Base64.group a b c) :
    isUriChar d = true := by
  simp only [Text.Base64.group, List.mem_cons, List.not_mem_nil, or_false] at h
  rcases h with rfl | rfl | rfl | rfl <;> exact isUriChar_symbol _

/-- A text that can stand in a data URI. -/
def UriText (s : String) : Prop := ∀ c ∈ s.toList, isUriChar c = true

/-- Whether a text may stand in a data URI can be computed. -/
instance (s : String) : Decidable (UriText s) :=
  decidable_of_iff (s.toList.all isUriChar = true) List.all_eq_true

namespace UriText

/-- Texts that may stand in a data URI may do so one after the other. -/
theorem append {a b : String} (ha : UriText a) (hb : UriText b) : UriText (a ++ b) := by
  intro c hc
  rw [String.toList_append, List.mem_append] at hc
  rcases hc with hc | hc
  · exact ha c hc
  · exact hb c hc

/-- A text of characters that may stand in a data URI. -/
private theorem ofList {cs : List Char} (h : ∀ c ∈ cs, isUriChar c = true) :
    UriText (.ofList cs) := by
  unfold UriText
  rwa [String.toList_ofList]

/-- A data URI can be the value of an attribute. -/
theorem plain {s : String} (h : UriText s) : Plain s :=
  fun c hc => isPlain_of_isUriChar (h c hc)

/-- Bytes as base64 can stand in a data URI, after a text that can. -/
private theorem encodeAfter {text : String} (h : UriText text) (bytes : List UInt8) :
    UriText (Text.Base64.encodeAfter text bytes) := by
  -- three bytes make one group, and one or two that are left make a padded one
  fun_induction Text.Base64.encodeAfter text bytes with
  | case1 text => exact h
  | case2 text a =>
      refine h.append (ofList fun c hc => ?_)
      rcases List.mem_append.1 hc with hc | hc
      · exact isUriChar_group (List.mem_of_mem_take hc)
      · simp only [List.mem_cons, List.not_mem_nil, or_false, or_self] at hc
        rw [hc]
        rfl
  | case3 text a b =>
      refine h.append (ofList fun c hc => ?_)
      rcases List.mem_append.1 hc with hc | hc
      · exact isUriChar_group (List.mem_of_mem_take hc)
      · rw [List.mem_singleton.1 hc]
        rfl
  | case4 text a b c rest ih =>
      exact ih (h.append (ofList fun c hc => isUriChar_group hc))

/-- The bytes of a picture are written as symbols, so only the name of its format has to be looked
at. -/
theorem dataUri {mime : String} (h : UriText mime) (bytes : Bytes) :
    UriText (Bitmap.dataUri mime bytes) :=
  (((by decide : UriText "data:").append h).append (by decide)).append
    (encodeAfter (by decide) bytes)

end UriText

/-- A picture stands in a document as a data URI, whatever encodes it, or as the placeholder. -/
theorem embed_uri (encode : Bitmap.Encoder) (picture : Bitmap.Picture)
    (given : Option Bitmap.Palette) :
    (∃ mime bytes, UriText mime ∧ (picture.embed encode given).uri = Bitmap.dataUri mime bytes) ∨
      (picture.embed encode given).uri = Bitmap.placeholder := by
  unfold Bitmap.Picture.embed
  split
  · exact Or.inr rfl
  · split
    · rename_i h _ _ uri huri
      refine Or.inl ?_
      unfold Bitmap.Picture.uri at huri
      split at huri
      · -- pictures that are files already are taken as they are
        exact ⟨_, _, by decide, (Except.ok.inj huri).symm⟩
      · exact ⟨_, _, by decide, (Except.ok.inj huri).symm⟩
      · -- whatever bytes the encoder gives
        cases himage : picture.image h given with
        | error cause =>
            rw [himage] at huri
            cases huri
        | ok image =>
            rw [himage] at huri
            change (encode image >>= fun bytes => .ok (Bitmap.dataUri "image/png" bytes)) =
              _ at huri
            cases hbytes : encode image with
            | error cause =>
                rw [hbytes] at huri
                cases huri
            | ok bytes =>
                rw [hbytes] at huri
                exact ⟨_, bytes, by decide, (Except.ok.inj huri).symm⟩
    · exact Or.inr rfl

/-- The text of a picture in a document is made of the characters of data URIs, whatever encodes
it. -/
theorem uriText_embed (encode : Bitmap.Encoder) (picture : Bitmap.Picture)
    (given : Option Bitmap.Palette) : UriText (picture.embed encode given).uri := by
  rcases embed_uri encode picture given with ⟨mime, bytes, hmime, huri⟩ | huri
  · rw [huri]
    exact hmime.dataUri bytes
  · rw [huri]
    exact (UriText.append (by decide +kernel) (by decide +kernel)).append (by decide +kernel)

/-- A picture in a document is named by a plain text, whatever encodes it. -/
theorem plain_embed (encode : Bitmap.Encoder) (picture : Bitmap.Picture)
    (given : Option Bitmap.Palette) : Plain (picture.embed encode given).uri :=
  (uriText_embed encode picture given).plain

/-! ### Attributes -/

/-- Attributes with different keys, all of them out of a list, and with plain values. -/
structure Attribute.Within (attributes : List Attribute) (keys : List String) : Prop where
  distinct : (attributes.map Prod.fst).Nodup
  known : ∀ a ∈ attributes, a.1 ∈ keys ∧ Plain a.2

/-- Attributes that can be written: their keys are different names, and their values are plain. -/
structure Attribute.Sound (attributes : List Attribute) : Prop where
  distinct : (attributes.map Prod.fst).Nodup
  written : ∀ a ∈ attributes, IsName a.1 ∧ Plain a.2

namespace Attribute.Within

variable {a b : List Attribute} {keys others : List String} {key value : String}

/-- No attributes need no keys. -/
theorem nil : Within [] [] := ⟨.nil, fun _ h => absurd h List.not_mem_nil⟩

/-- One attribute with a plain value. -/
theorem single (h : Plain value) : Within [(key, value)] [key] :=
  ⟨by simp, fun a ha => by
    rw [List.mem_singleton.1 ha]
    exact ⟨List.mem_singleton_self key, h⟩⟩

/-- The list of allowed keys may be longer. -/
theorem mono (h : Within a keys) (hkeys : ∀ k ∈ keys, k ∈ others) : Within a others :=
  ⟨h.distinct, fun b hb => ⟨hkeys _ (h.known b hb).1, (h.known b hb).2⟩⟩

/-- Two lists of attributes with keys of different lists are one with different keys. -/
theorem append (h : Within a keys) (k : Within b others) (hkeys : ∀ k ∈ keys, k ∉ others) :
    Within (a ++ b) (keys ++ others) where
  distinct := by
    rw [List.map_append]
    refine List.nodup_append.2 ⟨h.distinct, k.distinct, ?_⟩
    intro x hx y hy heq
    obtain ⟨p, hp, rfl⟩ := List.mem_map.1 hx
    obtain ⟨q, hq, rfl⟩ := List.mem_map.1 hy
    exact hkeys _ (h.known p hp).1 (heq ▸ (k.known q hq).1)
  known c hc := by
    rcases List.mem_append.1 hc with hc | hc
    · exact ⟨List.mem_append_left _ (h.known c hc).1, (h.known c hc).2⟩
    · exact ⟨List.mem_append_right _ (k.known c hc).1, (k.known c hc).2⟩

/-- One attribute more, whose key is new. -/
theorem cons (h : Plain value) (k : Within b others) (hkey : key ∉ others) :
    Within ((key, value) :: b) (key :: others) :=
  (single h).append k fun x hx => by rwa [List.mem_singleton.1 hx]

/-- An attribute that depends on a condition has to be plain only if it is there. -/
theorem onlyIf {condition : Bool} (h : condition = true → Plain value) :
    Within (Attribute.onlyIf condition key value) [key] := by
  unfold Attribute.onlyIf
  split
  · exact single (h ‹_›)
  · exact nil.mono (by simp)

/-- An attribute that may have no value has to be plain only if it has one. -/
theorem ofValue? {value : Option String} (h : ∀ v, value = some v → Plain v) :
    Within (Attribute.ofValue? key value) [key] := by
  cases value with
  | none => exact nil.mono (by simp)
  | some v => exact single (h v rfl)

/-- Attributes whose keys are names can be written. -/
theorem sound (h : Within a keys) (hnames : ∀ k ∈ keys, IsName k) : Attribute.Sound a :=
  ⟨h.distinct, fun b hb => ⟨hnames _ (h.known b hb).1, (h.known b hb).2⟩⟩

end Attribute.Within

/-- The lines along a text are one attribute, or none. -/
theorem Lettering.decoration_within (underline strikeout : Bool) :
    Attribute.Within (decoration underline strikeout) ["text-decoration"] := by
  cases underline <;> cases strikeout
  · exact Attribute.Within.nil.mono (by simp)
  · exact .single (by decide)
  · exact .single (by decide)
  · exact .single (by decide)

end Metafile.Markup
