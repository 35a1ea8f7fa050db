import Mathlib.Data.List.TakeWhile
import Metafile.Proofs.Bytes.Offsets
import Metafile.Proofs.Markup.Sections
import Metafile.Proofs.Markup.Tokens
import Metafile.Proofs.Playback.History
import Metafile.Proofs.Playback.Pieces

/-!
# `Metafile.Proofs.Playback.TextForms`: texts from their records to the document

There are four forms of records that hold a text: with wide or with narrow units, and each of
these in a long and in a small record. `Carries form e origin cs` states that a record holds the
units of some characters, by the offsets of its fields.

What is shown of a text is `Text.visible`. Whatever characters a record with wide units carries,
this is the text that it draws, and a record with narrow units draws the same ASCII text
(`Carries.command`). `State.text_survives` follows the text into the document, where the contents
of the sections of one text element are what is shown, piece by piece.
-/

set_option autoImplicit false

namespace Metafile

/-! ### What is shown of a text -/

namespace Text

/-- What is shown of a text: its characters before the first NUL, where all control characters are
blanks but tab, line feed and vertical tab. -/
def visible (cs : List Char) : List Char :=
  (cs.takeWhile (· != '\x00')).map fun c =>
    if c.toNat < 0x20 ∧ c ∉ ['\t', '\n', '\x0B'] then ' ' else c

/-- The cleaning of a text does what `visible` says, character by character. -/
theorem clean_eq_visible (cs : List Char) : Printable.clean cs = visible cs := by
  refine List.map_congr_left fun c _ => ?_
  have hkeeps : (c == '\t' || c == '\n' || c == '\x0B') = true ↔ c ∈ ['\t', '\n', '\x0B'] := by
    simp [or_assoc]
  unfold Printable.shown
  by_cases hkept : c ∈ ['\t', '\n', '\x0B']
  · rw [if_pos (hkeeps.2 hkept), if_neg fun h => h.2 hkept]
  · rw [if_neg (mt hkeeps.1 hkept)]
    simp only [hkept, not_false_eq_true, and_true]

/-- A text that was cut at the first NUL is not cut again. -/
theorem visible_takeWhile (cs : List Char) :
    visible (cs.takeWhile (· != '\x00')) = visible cs := by
  rw [visible, List.takeWhile_idem]
  rfl

namespace Utf16

/-- The units of a character are zero for NUL alone. -/
theorem mem_encodeChar {c : Char} (h : c ≠ '\x00') :
    ∀ unit ∈ encodeChar c, (unit != 0) = true := by
  have hcode : c.toNat ≠ 0 := fun hzero => h (Char.toNat_inj.1 hzero)
  unfold encodeChar
  split
  · simpa using hcode
  · simp

/-- The units before the first zero are those of the characters before the first NUL. -/
theorem takeWhile_encodeChars (cs : List Char) :
    (encodeChars cs).takeWhile (· != 0) = encodeChars (cs.takeWhile (· != '\x00')) := by
  induction cs with
  | nil => rfl
  | cons c rest ih =>
      have hcons (cs : List Char) : encodeChars (c :: cs) = encodeChar c ++ encodeChars cs := rfl
      by_cases hc : c = '\x00'
      · subst hc
        rfl
      · rw [hcons, List.takeWhile_append_of_pos (mem_encodeChar hc), ih,
          List.takeWhile_cons, if_pos (bne_iff_ne.2 hc), hcons]

/-- From the units of a text, what is shown of the text is read. -/
theorem ofString_decode (cs : List Char) :
    Printable.ofString (decode ((encodeChars cs).takeWhile (· != 0))) =
      String.ofList (visible cs) := by
  rw [takeWhile_encodeChars, decode, decodeChars_encodeChars, Printable.ofString,
    String.toList_ofList, clean_eq_visible, visible_takeWhile]

end Utf16

section Narrow

variable {bytes : List UInt8} {cs : List Char}

/-- Bytes that are the codes of characters are read as these characters. -/
private theorem map_codes {f : UInt8 → Char} (h : bytes.map UInt8.toNat = cs.map Char.toNat)
    (hf : ∀ b ∈ bytes, f b = Char.ofNat b.toNat) : bytes.map f = cs := by
  calc bytes.map f
    _ = (bytes.map UInt8.toNat).map Char.ofNat := by
      rw [List.map_map]
      exact List.map_congr_left hf
    _ = cs.map (Char.ofNat ∘ Char.toNat) := by rw [h, List.map_map]
    _ = cs := by
      rw [show Char.ofNat ∘ Char.toNat = id from funext Char.ofNat_toNat, List.map_id]

/-- From the codes of a text, what is shown of the text is read. -/
theorem ofLatin_codes (h : bytes.map UInt8.toNat = cs.map Char.toNat) :
    Printable.ofLatin bytes = String.ofList (visible cs) := by
  rw [Printable.ofLatin, map_codes h fun _ _ => rfl, clean_eq_visible]

/-- The same is read where codes outside of ASCII would be blanks. -/
theorem ofAscii_codes (h : bytes.map UInt8.toNat = cs.map Char.toNat)
    (hascii : ∀ c ∈ cs, c.toNat ≤ 0x7F) :
    Printable.ofAscii bytes = String.ofList (visible cs) := by
  have hcodes : ∀ b ∈ bytes, ¬b > 0x7F := by
    intro b hb
    have hcode : b.toNat ∈ cs.map Char.toNat := h ▸ List.mem_map_of_mem hb
    obtain ⟨c, hc, heq⟩ := List.mem_map.1 hcode
    have hle := hascii c hc
    rw [heq] at hle
    exact fun hgt => absurd (UInt8.lt_iff_toNat_lt.1 hgt) (Nat.not_lt.2 hle)
  rw [Printable.ofAscii, map_codes h fun b hb => if_neg (hcodes b hb), clean_eq_visible]

end Narrow

end Text

/-! ### Records of text -/

namespace Record

open Bytes (pointAt wordAt wordsAt)
open Cursor (gets_bytes gets_point gets_u32 gets_utf16)

/-- The forms of records that hold a text. -/
inductive TextForm
  | narrow | wide | smallNarrow | smallWide
deriving DecidableEq, Repr

namespace TextForm

/-- Whether the units of a form have 16 bits. -/
def isWide : TextForm → Bool
  | .wide | .smallWide => true
  | _ => false

/-- Whether the records of a form are small ones. -/
def isSmall : TextForm → Bool
  | .smallNarrow | .smallWide => true
  | _ => false

/-- The kind of the records of a form. -/
def kind : TextForm → Kind
  | .narrow => .textOutNarrow
  | .wide => .textOutWide
  | _ => .smallTextOut

/-- The units of characters: those of UTF-16, or one for each character. -/
def units (form : TextForm) (cs : List Char) : List Nat :=
  if form.isWide then Text.Utf16.encodeChars cs else cs.map Char.toNat

/-- The number of bytes of a unit. -/
def unitWidth (form : TextForm) : Nat := if form.isWide then 2 else 1

/-- The offset of the origin. The number of units follows it. -/
def originOffset (form : TextForm) : Nat := if form.isSmall then 8 else 36

/-- The offset of the units. Small records have options that say whether bounds precede the units.
-/
def textOffset (form : TextForm) (body : Bytes) : Nat :=
  if form.isSmall then if wordAt body 20 4 / 0x100 % 2 = 1 then 36 else 52 else wordAt body 48 4

end TextForm

/-- A record of a form that holds an origin and the units of some characters. -/
structure Carries (form : TextForm) (e : Entry) (origin : Point Int) (cs : List Char) : Prop where
  kind : e.kind? = some form.kind
  /-- The options of a small record say how wide its units are. -/
  options : form.isSmall = true → (wordAt e.body 20 4 / 0x200 % 2 = 1 ↔ form.isWide = false)
  /-- The origin, the number of units, and their offset or the options are there. -/
  fields : form.originOffset + 16 ≤ e.body.length
  origin : pointAt false e.body form.originOffset = origin
  count : wordAt e.body (form.originOffset + 8) 4 = (form.units cs).length
  room : form.textOffset e.body + (form.units cs).length * form.unitWidth ≤ e.body.length
  units : wordsAt e.body (form.textOffset e.body) form.unitWidth (form.units cs).length =
    form.units cs

section Reading

variable {form : TextForm} {e : Entry} {origin : Point Int} {cs : List Char} {body : Bytes}
  {text : String}

/-- A long record gives its origin and the text that stands at the offset which it names. -/
theorem from_labelCommand {decode : Nat → Decode String} (hfields : 52 ≤ body.length)
    (htext : (decode (wordAt body 44 4)).from body (wordAt body 48 4) = .ok text) :
    (labelCommand decode).from body headerBytes = .ok (.label (pointAt false body 36) text) := by
  have hlabel : (do return .label (pointAt false body 36) (← decode (wordAt body 44 4)) :
      Decode Command).from body (wordAt body 48 4) =
      .ok (.label (pointAt false body 36) text) := by
    rw [Decode.from_map, htext]
    rfl
  have hplace : headerBytes ≤ body.length := Nat.le_trans (by decide) hfields
  exact Decode.from_seek_bind_eq_ok.2 ⟨hplace, (gets_point false).from_bind_eq_ok.2
    ⟨Nat.le_trans (by decide) hfields, gets_u32.from_bind_eq_ok.2
      ⟨Nat.le_trans (by decide) hfields, gets_u32.from_bind_eq_ok.2
        ⟨hfields, Decode.from_seek_bind_eq_ok.2 ⟨hfields, hlabel⟩⟩⟩⟩⟩

/-- A small record gives its origin and the text at the place that its options say, read as they
say. -/
theorem from_smallLabelCommand {decode : Nat → Decode String} (hfields : 24 ≤ body.length)
    (hdecode : (if wordAt body 20 4 / 0x200 % 2 = 1 then latinText else wideText) = decode)
    (htext : (decode (wordAt body 16 4)).from body
      (if wordAt body 20 4 / 0x100 % 2 = 1 then 36 else 52) = .ok text) :
    smallLabelCommand.from body headerBytes = .ok (.label (pointAt false body 8) text) := by
  have hlabel : (do return .label (pointAt false body 8) (← decode (wordAt body 16 4)) :
      Decode Command).from body (if wordAt body 20 4 / 0x100 % 2 = 1 then 36 else 52) =
        .ok (.label (pointAt false body 8) text) := by
    rw [Decode.from_map, htext]
    rfl
  refine (gets_point false).from_bind_eq_ok.2
    ⟨Nat.le_trans (by decide) hfields, gets_u32.from_bind_eq_ok.2
      ⟨Nat.le_trans (by decide) hfields, gets_u32.from_bind_eq_ok.2
        ⟨hfields, Decode.from_seek_bind_eq_ok.2 ⟨hfields, ?_⟩⟩⟩⟩
  obtain rfl := hdecode
  -- the options are looked at before the text is read
  split at hlabel <;> rename_i hbit
  · exact (congrArg (fun d => Decode.from d body _) (if_pos hbit)).trans hlabel
  · exact (congrArg (fun d => Decode.from d body _) (if_neg hbit)).trans hlabel

namespace Carries

/-- The number of units has 32 bits. -/
theorem length_units_lt (h : Carries form e origin cs) : (form.units cs).length < 4294967296 :=
  h.count ▸ Bytes.wordAt_lt _ _ 4

/-- Wide units are read as what is shown of the text. -/
theorem read_wide (h : Carries form e origin cs) (hwide : form.isWide = true) :
    (wideText (form.units cs).length).from e.body (form.textOffset e.body) =
      .ok (String.ofList (Text.visible cs)) := by
  have hwords := h.units
  have hroom := h.room
  rw [TextForm.unitWidth, if_pos hwide] at hwords hroom
  refine ((gets_utf16 h.length_units_lt).map Text.Printable.ofString).from_eq_ok.2 ⟨hroom, ?_⟩
  rw [hwords, TextForm.units, if_pos hwide]
  exact Text.Utf16.ofString_decode cs

/-- Narrow units are the bytes of the record. -/
theorem bytes_eq (h : Carries form e origin cs) (hnarrow : form.isWide = false) :
    form.textOffset e.body + (form.units cs).length ≤ e.body.length ∧
      ((e.body.drop (form.textOffset e.body)).take (form.units cs).length).map UInt8.toNat =
        cs.map Char.toNat := by
  have hwords := h.units
  have hroom := h.room
  rw [TextForm.unitWidth, hnarrow] at hwords hroom
  change _ + _ * 1 ≤ _ at hroom
  rw [Nat.mul_one] at hroom
  refine ⟨hroom, (Bytes.wordsAt_one hroom).symm.trans (hwords.trans ?_)⟩
  rw [TextForm.units, hnarrow]
  rfl

/-- A record that carries a text draws what is shown of it. With narrow units this holds for
ASCII. -/
theorem command (h : Carries form e origin cs)
    (hunits : form.isWide = true ∨ ∀ c ∈ cs, c.toNat ≤ 0x7F) (plus : Bool) :
    e.command plus = .ok (.label origin (String.ofList (Text.visible cs))) := by
  have hof {kind : Kind} {d : Decode Command} (hkind : e.kind? = some kind)
      (hdecode : Command.ofRecord plus kind e.body =
        (do Cursor.seek headerBytes; d).first e.body) :
      e.command plus = d.from e.body headerBytes := by
    unfold Entry.command
    rw [hkind, ← Decode.first_seek_bind, ← hdecode]
  -- only records with narrow units need it
  have hascii (hnarrow : form.isWide = false) : ∀ c ∈ cs, c.toNat ≤ 0x7F :=
    hunits.resolve_left (by rw [hnarrow]; decide)
  obtain ⟨hcount, hfields, horigin⟩ := And.intro h.count (And.intro h.fields h.origin)
  cases form with
  | narrow =>
      obtain ⟨hroom, hcodes⟩ := h.bytes_eq rfl
      rw [hof h.kind rfl, ← horigin]
      refine from_labelCommand hfields
        (((gets_bytes _).map Text.Printable.ofAscii).from_eq_ok.2 ?_)
      rw [show wordAt e.body 44 4 = _ from hcount]
      exact ⟨hroom, Text.ofAscii_codes hcodes (hascii rfl)⟩
  | wide =>
      have hread := h.read_wide rfl
      rw [← hcount] at hread
      rw [hof h.kind rfl, ← horigin]
      exact from_labelCommand hfields hread
  | smallNarrow =>
      obtain ⟨hroom, hcodes⟩ := h.bytes_eq rfl
      rw [hof h.kind rfl, ← horigin]
      refine from_smallLabelCommand hfields (if_pos ((h.options rfl).2 rfl))
        (((gets_bytes _).map Text.Printable.ofLatin).from_eq_ok.2 ?_)
      rw [show wordAt e.body 16 4 = _ from hcount]
      exact ⟨hroom, Text.ofLatin_codes hcodes⟩
  | smallWide =>
      have hread := h.read_wide rfl
      rw [← hcount] at hread
      rw [hof h.kind rfl, ← horigin]
      exact from_smallLabelCommand hfields
        (if_neg fun hbit => Bool.noConfusion ((h.options rfl).1 hbit)) hread

end Carries

end Reading

end Record

/-! ### Texts in the document -/

namespace Markup.Piece

/-- A text is one element: its start tag, the sections that hold it, and its end tag. -/
theorem text_label_sections (qualifier : String) (attributes : List Attribute) (cs : List Char) :
    (Piece.label attributes (String.ofList cs)).text qualifier =
      Token.tagText .parts ⟨.start, qualifier ++ "text", attributes⟩ ++
        String.ofList (Text.Cdata.sections (Text.Cdata.contents cs)) ++
        Token.tagText .parts ⟨.ending, qualifier ++ "text", []⟩ ++ "\n" := by
  rw [text_eq_tokens, ← Text.Cdata.split_eq_sections]
  simp only [tokens, Token.qualifiedTexts_cons, Token.qualifiedTexts_nil, Token.qualify,
    Token.text, Text.Cdata.enclose, String.toList_ofList, String.append_empty,
    String.append_assoc]

end Markup.Piece

namespace Playback.State

open Metafile.Markup (Attribute Piece Plain Qualifies Scans Token)
open Metafile.Record (Carries Entry PathUse TextForm)

variable {setup : Setup} {uses : List PathUse} {form : TextForm} {e : Entry} {origin : Point Int}
  {cs : List Char}

/-- Where a text goes does not depend on the messages. -/
theorem label_with_log (origin : Point Int) (text : String) (s : State) (log : Log) :
    ({ s with log } : State).label origin text = { s.label origin text with log } := by
  unfold label emit
  by_cases hpath : s.inPath = true
  · rw [if_pos hpath, if_pos (show ({ s with log } : State).inPath = true from hpath)]
    rfl
  · rw [if_neg hpath, if_neg (show ¬({ s with log } : State).inPath = true from hpath)]
    rfl

/-- A record that carries a text writes what is shown of it. -/
theorem next_of_carries (setup : Setup) (uses : List PathUse) (h : Carries form e origin cs)
    (hunits : form.isWide = true ∨ ∀ c ∈ cs, c.toNat ≤ 0x7F) (s : State) :
    ∃ log, s.next setup uses e =
      ({ s.label origin (String.ofList (Text.visible cs)) with log }, none) := by
  obtain ⟨log, hlog⟩ := announce_eq setup e s
  refine ⟨log, ?_⟩
  rw [next_of_command (h.command hunits setup.options.plus), hlog]
  exact congrArg (·, none) (label_with_log origin _ s log)

/-- What a record that carries a text adds, whatever came before it: one text element. What is
shown of the text is the contents of its sections, one after the other, and each section ends at
its own terminator only. If the name of the font has no special characters, the tags of this
element are all that is read. Another record that carries the same text to the same origin leaves
the same behind, except for messages. Of records with narrow units this is said for ASCII. -/
theorem text_survives {s : State} (h : Carries form e origin cs)
    (hunits : form.isWide = true ∨ ∀ c ∈ cs, c.toNat ≤ 0x7F) :
    let t := (s.next setup uses e).1
    (s.next setup uses e).2 = none ∧
    (∃ (attributes : List Attribute) (contents : List (List Char)),
      let piece : Piece := .label attributes (String.ofList (Text.visible cs))
      Adds s t #[piece] ∧
      (∀ qualifier, piece.text qualifier =
        Token.tagText .parts ⟨.start, qualifier ++ "text", attributes⟩ ++
          String.ofList (Text.Cdata.sections contents) ++
          Token.tagText .parts ⟨.ending, qualifier ++ "text", []⟩ ++ "\n") ∧
      (∀ content ∈ contents, Text.Cdata.EndsLate content) ∧ contents.flatten = Text.visible cs ∧
      ((∀ family, s.context.font.family = some family → Plain family) →
        ∀ qualifier, Qualifies qualifier → Scans .content (piece.text qualifier).toList .content
          [⟨.start, qualifier ++ "text", attributes⟩, ⟨.ending, qualifier ++ "text", []⟩])) ∧
    ∀ (form' : TextForm) (e' : Entry), Carries form' e' origin cs →
      (form'.isWide = true ∨ ∀ c ∈ cs, c.toNat ≤ 0x7F) →
      ∃ log, (s.next setup uses e').1 = { t with log } := by
  intro t
  obtain ⟨log, hthis⟩ := next_of_carries setup uses h hunits s
  obtain ⟨attributes, hpiece⟩ : ∃ attributes,
      s.labelPiece origin (String.ofList (Text.visible cs)) =
        .label attributes (String.ofList (Text.visible cs)) := ⟨_, rfl⟩
  have hadds := label_adds origin (String.ofList (Text.visible cs)) s
  rw [hpiece] at hadds
  refine ⟨congrArg Prod.snd hthis, ⟨attributes, Text.Cdata.contents (Text.visible cs), ?_,
    fun qualifier => Piece.text_label_sections qualifier attributes _,
    Text.Cdata.endsLate_contents _, Text.Cdata.flatten_contents _,
    fun hfamily qualifier hq => ?_⟩, ?_⟩
  · -- a message of the listing is no part of what is added
    show Adds s (s.next setup uses e).1 _
    rw [hthis]
    exact ⟨hadds.clip, hadds.brackets, hadds.wrapped, hadds.world, hadds.saved, hadds.written,
      hadds.held⟩
  · have hscans := (labelPiece_sound origin (String.ofList (Text.visible cs)) hfamily).scans hq
    rw [hpiece] at hscans
    exact hscans
  · -- every form of the record asks for the same text, so only messages differ
    intro form' e' h' hunits'
    obtain ⟨log', hother⟩ := next_of_carries setup uses h' hunits' s
    refine ⟨log', ?_⟩
    show _ = ({ (s.next setup uses e).1 with log := log' } : State)
    rw [hother, hthis]

/-- A long record of wide units. The first three characters are a terminator of sections, and the
one behind them takes two units. -/
def bracketedText : Entry :=
  ⟨88, 84, Record.Kind.textOutWide.record (List.replicate 28 0 ++
    [1, 0, 0, 0, 2, 0, 0, 0, 8, 0, 0, 0, 52, 0, 0, 0] ++
    [0x5D, 0, 0x5D, 0, 0x3E, 0, 0x3D, 0xD8, 0x00, 0xDE, 7, 0, 0, 0, 0x78, 0])⟩

/-- The terminator stands on the border of two sections, the control character is a blank, and
what follows the NUL is not shown. -/
theorem text_survives_bracketed :
    Carries .wide bracketedText ⟨1, 2⟩ [']', ']', '>', '😀', '\x07', '\x00', 'x'] ∧
    (initial.next default [] bracketedText).2 = none ∧
    ∃ (attributes : List Attribute) (contents : List (List Char)),
      Adds initial (initial.next default [] bracketedText).1
        #[.label attributes (String.ofList [']', ']', '>', '😀', ' '])] ∧
      (∀ content ∈ contents, Text.Cdata.EndsLate content) ∧
      contents.flatten = [']', ']', '>', '😀', ' '] := by
  have hcarries : Carries .wide bracketedText ⟨1, 2⟩ [']', ']', '>', '😀', '\x07', '\x00', 'x'] :=
    ⟨by decide, by decide, by decide, by decide, by decide, by decide, by decide⟩
  have hvisible : Text.visible [']', ']', '>', '😀', '\x07', '\x00', 'x'] =
      [']', ']', '>', '😀', ' '] := by decide
  obtain ⟨hnone, ⟨attributes, contents, hadds, _, hends, hflatten, _⟩, _⟩ :=
    @text_survives default [] _ _ _ _ initial hcarries (.inl rfl)
  rw [hvisible] at hadds hflatten
  exact ⟨hcarries, hnone, attributes, contents, hadds, hends, hflatten⟩

end Playback.State

end Metafile
