import Metafile.Proofs.Playback.Balance
import Metafile.Proofs.Playback.Qualified
import Metafile.Proofs.Playback.Values

/-!
# `Metafile.Proofs.Playback.Legible`: documents that break off can be read

A document that is not played to its end is not well formed: groups are left open, and so is the
tag of a path in which the playing stops. Its text can be read all the same, as far as it goes,
because every piece of it can be written (`play_sound`). `Markup.begunTags?` is the reading of
such a text, and `State.begunTags_text` states that it gives the tags among the tokens of the
state, the last of which may be that of the path.

Two conditions remain, those of `Reaches.wellFormed`: the namespace is a name, and the font
families that the stream stores are plain. Reaching the end record is none of them.
-/

set_option autoImplicit false

namespace Metafile.Playback

open Metafile.Markup (Attribute Document Piece Plain Scans Token)
open Metafile.Record (Command Entry Survey)

namespace State

variable {setup : Setup} {s : State}

/-! ### Pieces -/

/-- The pieces that a command makes can be written, if the namespace is usable and the family of
the font and those of the EMF+ objects are plain. -/
theorem Makes.sound {c : Command} {p : Piece} (h : s.Makes setup c p)
    (hoptions : Usable setup.options)
    (hclip : ∀ b, s.bracket = some b → Attribute.Within b.clip ["clip-path"])
    (hfont : ∀ family, s.context.font.family = some family → Plain family)
    (hplus : ∀ records, c = .plus records → ∀ q ∈ (Plus.Stage.play setup.options.verbose
      s.page.scale records ⟨s.player, #[], #[]⟩).drawn, q.Sound) : p.Sound := by
  cases h with
  | drawn hdraws =>
      rcases hdraws.cases with
        ⟨hsound, _⟩ | ⟨origin, text, rfl, rfl⟩ | ⟨records, rfl, hq⟩ | ⟨header, rfl, hq⟩
      · exact hsound
      · exact labelPiece_sound origin text hfont
      · exact hplus records rfl p hq
      · exact head_sound hoptions header p hq
  | path hb hpaint =>
      rcases hpaint with rfl | ⟨use, rfl⟩
      · exact piece_unpainted_sound (hclip _ hb)
      · exact piece_pathPaint_sound (hclip _ hb) use s
  | group u => exact u.wrapperPiece_sound
  | ending hname => exact .ending hname

/-! ### Texts -/

/-- The path of an open bracket is read up to the last of its path data. -/
theorem scans_unfinished {qualifier : String} (hq : Markup.Qualifies qualifier) {b : Bracket}
    (hclip : Attribute.Within b.clip ["clip-path"]) :
    Scans .content (unfinished qualifier b).toList
      (.value (qualifier ++ "path") b.clip "d" '"' (Outline.chars b.drawn.outline)) [] := by
  have htext : unfinished qualifier b = Markup.headText (qualifier ++ "path") b.clip ++
      (" " ++ ("d" ++ ("=\"" ++ String.ofList (Outline.chars b.drawn.outline)))) := by
    show ((Markup.Sink.empty qualifier).tag "path" b.clip).text ++ ("d=\"" ++ _) = _
    rw [Markup.Sink.tag_text, String.append_assoc]
    rfl
  have hpath := hq.isName (by decide : Markup.IsName "path")
  have hhead := Markup.scans_headText hpath (hclip.sound (by decide)).written
  have hdata := Markup.scans_broken (by decide : Markup.IsName "d")
    (Markup.plain_chars b.drawn.outline) (qualifier ++ "path") b.clip
  rw [String.toList_ofList] at hdata
  rw [htext, String.toList_append]
  exact hhead.append hdata

/-- If all pieces can be written, the tags that are read from the text of a state are those among
its tokens. Where a bracket is open, the last of them is the tag of its path. -/
theorem begunTags_text {qualifier : String} (hq : Markup.Qualifies qualifier)
    (h : s.Filled Piece.Sound) :
    Markup.begunTags? (s.text qualifier) = some (Token.qualifiedTags qualifier s.tokens) := by
  have hwritten := Document.scans hq h.written
  rw [tokens, Token.qualifiedTags_append, ← Document.tags_eq_tokens, text, Markup.begunTags?]
  cases hbracket : s.bracket with
  | none =>
      show (Markup.scanFrom .content (Document.text qualifier s.written ++ "").toList).map _ = _
      rw [String.append_empty, hwritten]
      rfl
  | some b =>
      have hread := hwritten.append (scans_unfinished hq (h.clip b hbracket))
      rw [List.append_nil, ← String.toList_append] at hread
      exact congrArg (Option.map _) hread

end State

/-! ### Streams -/

/-- A record keeps the pieces such that they can be written, also where it cannot be done. -/
theorem Reaches.next_sound {setup : Setup} {stream : Bytes} {survey : Survey}
    {earlier later : List Entry} {e : Entry} {t : State}
    (h : Reaches setup stream survey earlier (e :: later) t) (hoptions : Usable setup.options)
    (hfamilies : ∀ name ∈ families setup.options.plus survey.entries, Plain name)
    (hsound : t.Filled Piece.Sound) : (t.next setup survey.paths e).1.Filled Piece.Sound := by
  refine Reaches.next_filled hsound fun log c p hc hmakes =>
    hmakes.sound hoptions hsound.clip (fun family hfamily => ?_) ?_
  · exact hfamilies family (h.stocked.font family hfamily)
  · rintro records rfl q hq
    exact (h.drawn_sound hfamilies hc _ q hq).1

/-- The playing of an accepted stream leaves pieces that can be written, at whichever record it
ends. -/
theorem play_sound {setup : Setup} {stream : Bytes} {survey : Survey}
    (h : Survey.ofBytes stream = .ok survey) (hoptions : Usable setup.options)
    (hfamilies : ∀ name ∈ families setup.options.plus survey.entries, Plain name) :
    (play setup survey).Filled Piece.Sound :=
  play_of_next h (.start _ survey) (fun hreaches => hreaches.next_sound hoptions hfamilies)
    fun _ hstopped => hstopped.of_same rfl rfl rfl

end Metafile.Playback
