import Metafile.Proofs.Markup.Tokens
import Metafile.Proofs.Playback.Shell

/-!
# `Metafile.Proofs.Playback.Qualified`: what a namespace changes

The pieces of a document hold the bare names of elements, and no record looks at the namespace but
the header, which declares it in the root element. So a conversion into a namespace gives the
tokens of the conversion into none, with one attribute more in the root tag, and its text is
theirs with the qualifier before every name. `convert_named` says so of the whole conversion,
wherever the playing ends: a path that is still open then is a token too.
-/

set_option autoImplicit false

namespace Metafile.Playback

open Metafile.Markup (Document Piece Token)
open Metafile.Record (Entry Survey)

/-- The same conversion into a namespace, or into none. -/
def Setup.named (namespaceName : Option String) (setup : Setup) : Setup :=
  { setup with options := { setup.options with namespaceName } }

/-! ### The tokens of a state -/

/-- The token of the path of an open bracket. -/
def Bracket.token (b : Bracket) : Token :=
  .unfinished "path" b.clip ("d=\"" ++ String.ofList (Outline.chars b.drawn.outline))

namespace State

/-- The tokens of the document as far as it is written. -/
def tokens (s : State) : List Token :=
  s.written.tokens ++ s.bracket.elim [] fun b => [b.token]

/-- The text of a state is that of its tokens, with the qualifier before their names. -/
theorem text_eq_tokens (qualifier : String) (s : State) :
    s.text qualifier = Token.qualifiedTexts qualifier s.tokens := by
  rw [text, tokens, Token.qualifiedTexts_append, Document.text_eq_tokens]
  congr 1
  cases s.bracket with
  | none => rfl
  | some b =>
      show ((Markup.Sink.empty qualifier).tag "path" b.clip).text ++ _ =
        ((Markup.Sink.empty "").tag (qualifier ++ "path") b.clip).text ++ _ ++ ""
      rw [Markup.Sink.tag_qualified, String.append_empty]

/-- What is put around the document stands around its tokens. An open bracket is written last. -/
theorem tokens_between (before after : Document) (s : State) :
    (s.between before after).tokens =
      before.tokens ++ (s.written.tokens ++ (after.tokens ++
        s.bracket.elim [] fun b => [b.token])) := by
  rw [tokens, between, Document.tokens_append, Document.tokens_append, List.append_assoc,
    List.append_assoc]

end State

/-! ### The declaration of a namespace -/

/-- Declares a namespace in the first tag, behind the namespaces that every document declares. -/
def declare (name : String) : List Token → List Token
  | [] => []
  | .tag spelling t :: rest =>
    .tag spelling { t with
      attributes := t.attributes.insertIdx 3 ("xmlns:" ++ name, documentNamespace) } :: rest
  | other :: rest => other :: declare name rest

/-- The tokens that begin the shell of a document, if it has one. -/
theorem tokens_head (o : Options) (h : Record.Header) :
    (head { o with delimited := true } h).tokens =
      [.declaration, .tag .parts ⟨.start, "svg", rootAttributes o h⟩, .lineEnd] := rfl

/-- A namespace is declared in the root tag. -/
theorem declare_head (o : Options) (h : Record.Header) (name : String) (rest : List Token) :
    declare name ((head { o with delimited := true, namespaceName := none } h).tokens ++ rest) =
      (head { o with delimited := true, namespaceName := some name } h).tokens ++ rest := rfl

/-- A header that cannot be read ends the playing before anything is written. -/
theorem tokens_of_unread (setup : Setup) {stream : Bytes} {survey : Survey}
    (h : Survey.ofBytes stream = .ok survey) {first : Entry} {rest : List Entry}
    (hentries : survey.entries = first :: rest) (hunread : headerOf? first = none) :
    (play setup survey).tokens = [] := by
  have hkind : first.kind? = some .header := Survey.header_of_entries h hentries
  obtain ⟨log, hlog⟩ := State.announce_eq setup first (State.start survey)
  obtain ⟨cause, hcause⟩ : ∃ cause, Record.Header.decode.first first.body = .error cause := by
    unfold headerOf? at hunread
    cases hread : Record.Header.decode.first first.body with
    | error cause => exact ⟨cause, rfl⟩
    | ok header =>
        rw [hread] at hunread
        cases hunread
  show ((State.start survey).run setup survey.paths survey.entries).1.tokens = []
  rw [State.run, hentries, State.steps, State.step_eq, command_of_header _ hkind, hcause, hlog]
  cases cause <;> rfl

/-- A conversion into a namespace writes the tokens of a conversion into none, and declares the
namespace in the root tag if there is one. -/
theorem tokens_named (setup : Setup) (name : String) {stream : Bytes} {survey : Survey}
    (h : Survey.ofBytes stream = .ok survey) :
    (play (setup.named (some name)) survey).tokens =
      if setup.options.delimited then declare name (play (setup.named none) survey).tokens
      else (play (setup.named none) survey).tokens := by
  obtain ⟨first, middle, last, hentries, _⟩ := entries_framed h
  -- without a header nothing is written around the records
  cases hheader : headerOf? first with
  | none =>
      rw [tokens_of_unread _ h hentries hheader, tokens_of_unread _ h hentries hheader]
      split <;> rfl
  | some header =>
      -- the records are played by a setup that knows no namespace
      have hbare (namespaceName : Option String) :
          (setup.named namespaceName).bare = setup.bare :=
        rfl
      have hpieces (namespaceName : Option String) :
          shellPieces (setup.named namespaceName).options first =
            head (setup.named namespaceName).options header := by
        rw [shellPieces, hheader]
        rfl
      rw [(play_shell _ h hentries).2, (play_shell (setup.named none) h hentries).2, hbare, hbare,
        hpieces, hpieces, State.tokens_between, State.tokens_between]
      cases hdelimited : setup.options.delimited with
      | false =>
          have hnothing (namespaceName : Option String) :
              head (setup.named namespaceName).options header = #[] :=
            if_neg (by rw [show (setup.named namespaceName).options.delimited = false from
              hdelimited]; exact Bool.false_ne_true)
          rw [hnothing, hnothing, if_neg Bool.false_ne_true]
          rfl
      | true =>
          have hoptions (namespaceName : Option String) : (setup.named namespaceName).options =
              { setup.options with delimited := true, namespaceName } := by
            rw [← hdelimited]
            rfl
          rw [hoptions, hoptions, if_pos rfl, declare_head]
          rfl

/-- The conversion into a namespace is the conversion into none, with the name of the namespace
and a colon before the name of the element in every tag, and if the document has a root element,
with one attribute more in the root tag: the declaration of the namespace. -/
theorem convert_named (setup : Setup) (name : String) {stream : Bytes} {survey : Survey}
    (h : Survey.ofBytes stream = .ok survey) :
    ∃ plain plainLog named namedLog tokens,
      convert (setup.named none) stream = .ok (plain, plainLog) ∧
      convert (setup.named (some name)) stream = .ok (named, namedLog) ∧
      named.complete = plain.complete ∧
      tokens = (play (setup.named none) survey).tokens ∧
      plain.svg = Token.texts tokens ∧
      named.svg = Token.texts ((if setup.options.delimited then declare name tokens
        else tokens).map (Token.qualify (name ++ ":"))) ∧
      (setup.options.delimited = true → tokens = [] ∨ ∃ attributes rest,
        tokens = .declaration :: .tag .parts ⟨.start, "svg", attributes⟩ :: rest) := by
  obtain ⟨first, middle, last, hentries, _⟩ := entries_framed h
  refine ⟨_, _, _, _, _, convert_of_accepted _ h, convert_of_accepted _ h, ?_, rfl, ?_, ?_,
    fun hdelimited => ?_⟩
  · -- the qualifier is not looked at by anything that can fail
    have hfailed (namespaceName : Option String) :
        (play (setup.named namespaceName) survey).failed = (play setup.bare survey).failed := by
      rw [(play_shell _ h hentries).2]
      rfl
    show (!(play _ survey).failed) = !(play _ survey).failed
    rw [hfailed, hfailed]
  · show (play (setup.named none) survey).text "" = _
    rw [State.text_eq_tokens, Token.qualifiedTexts, Token.map_qualify_empty]
  · show (play (setup.named (some name)) survey).text (name ++ ":") = _
    rw [State.text_eq_tokens, Token.qualifiedTexts, tokens_named setup name h]
  · -- a header that cannot be read writes no root element
    cases hheader : headerOf? first with
    | none => exact Or.inl (tokens_of_unread _ h hentries hheader)
    | some header =>
        refine Or.inr ⟨rootAttributes (setup.named none).options header, ?_⟩
        rw [(play_shell _ h hentries).2, State.tokens_between, shellPieces, hheader]
        have hhead : (head (setup.named none).options header).tokens =
            [.declaration,
              .tag .parts ⟨.start, "svg", rootAttributes (setup.named none).options header⟩,
              .lineEnd] := by
          -- the head is delimited here, so it has a declaration
          have hsame : (setup.named none).options =
              { (setup.named none).options with delimited := true } := by
            rw [← hdelimited]
            rfl
          rw [hsame]
          exact tokens_head _ header
        show ∃ rest, (head (setup.named none).options header).tokens ++ _ = _
        rw [hhead]
        exact ⟨_, rfl⟩

/-- A stream with a line, in a namespace and in none. -/
theorem convert_named_line :
    ∃ plain plainLog named namedLog tokens,
      convert (Setup.plain.named none) lineStream = .ok (plain, plainLog) ∧
      convert (Setup.plain.named (some "draw")) lineStream = .ok (named, namedLog) ∧
      named.complete = plain.complete ∧
      tokens = (play (Setup.plain.named none) (.ofStream lineStream)).tokens ∧
      plain.svg = Token.texts tokens ∧
      named.svg = Token.texts ((declare "draw" tokens).map (Token.qualify "draw:")) := by
  have hline := Survey.ofBytes_ofStream
    (by decide +kernel : (Survey.ofBytes lineStream).isOk = true)
  obtain ⟨plain, plainLog, named, namedLog, tokens, hplain, hnamed, hcomplete, htokens, hsvg,
    hqualified, _⟩ := convert_named .plain "draw" hline
  exact ⟨plain, plainLog, named, namedLog, tokens, hplain, hnamed, hcomplete, htokens, hsvg,
    hqualified⟩

end Metafile.Playback
