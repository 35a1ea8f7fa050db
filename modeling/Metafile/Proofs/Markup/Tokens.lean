import Metafile.Proofs.Markup.Tags

/-!
# `Metafile.Proofs.Markup.Tokens`: a document as tokens

A document is a list of tokens: the declaration, tags, the contents of texts, and line ends. A
token of a piece holds the bare name of its element, and `Token.qualify` puts a qualifier before
it and changes nothing else. `Document.text_eq_tokens` states that this is all that a qualifier
does to the text of a document, whatever its names, values and contents are.

Tags are spelled in two ways, since some elements are written in parts and others as a whole. A
tag whose writing was broken off is a token of its own. `Document.tags_eq_tokens` states that the
tags among the tokens are the ones that the scanner is to read.
-/

set_option autoImplicit false

namespace Metafile.Markup

/-! ### Tokens -/

/-- How a tag is spelled. -/
inductive Spelling
  /-- Written in parts, with a blank after every attribute and double quotes around its value. -/
  | parts
  /-- The tag of a self-contained element: a blank before every attribute, and around its value
  the quotes that the value does not hold. -/
  | whole
deriving DecidableEq, Repr

/-- One token of a document. -/
inductive Token
  /-- The line that declares the document. -/
  | declaration
  | tag (spelling : Spelling) (t : Tag)
  /-- A tag that was not written to its end: its attributes, and what stands behind them. -/
  | unfinished (name : String) (attributes : List Attribute) (rest : String)
  /-- The content of a text. -/
  | content (text : String)
  | lineEnd
deriving DecidableEq, Repr

namespace Token

/-- The text of a tag. -/
def tagText : Spelling → Tag → String
  | _, ⟨.ending, name, _⟩ => "</" ++ name ++ ">"
  | .parts, ⟨.start, name, attributes⟩ => ((Sink.empty "").tag name attributes).trim.text ++ ">"
  | .parts, ⟨.single, name, attributes⟩ => ((Sink.empty "").tag name attributes).text ++ "/>"
  | .whole, ⟨.start, name, attributes⟩ =>
    "<" ++ name ++ String.join (attributes.map Attribute.text) ++ ">"
  | .whole, ⟨.single, name, attributes⟩ =>
    "<" ++ name ++ String.join (attributes.map Attribute.text) ++ "/>"

/-- The text of a token. -/
def text : Token → String
  | declaration => declarationText
  | tag spelling t => tagText spelling t
  | unfinished name attributes rest => ((Sink.empty "").tag name attributes).text ++ rest
  | content text => Text.Cdata.enclose text
  | lineEnd => "\n"

/-- The text of tokens, one after the other. -/
def texts : List Token → String
  | [] => ""
  | t :: rest => t.text ++ texts rest

/-- The text of tokens is put together from the text of the first ones and that of the others. -/
theorem texts_append (a b : List Token) : texts (a ++ b) = texts a ++ texts b := by
  induction a with
  | nil => exact (String.empty_append ..).symm
  | cons t rest ih => rw [List.cons_append, texts, ih, texts, String.append_assoc]

/-- Puts a qualifier before the name of the element in a tag. -/
def qualify (qualifier : String) : Token → Token
  | tag spelling t => tag spelling { t with name := qualifier ++ t.name }
  | unfinished name attributes rest => unfinished (qualifier ++ name) attributes rest
  | t => t

/-- The empty qualifier changes nothing. -/
theorem qualify_empty (t : Token) : qualify "" t = t := by
  cases t <;> simp only [qualify, String.empty_append]

/-- Without a qualifier all tokens stay as they are. -/
theorem map_qualify_empty (ts : List Token) : ts.map (qualify "") = ts := by
  rw [funext qualify_empty, List.map_id']

/-- The tag that a token is. A tag that was not written to its end counts with the attributes that
are there. -/
def tag? : Token → Option Tag
  | tag _ t => some t
  | unfinished name attributes _ => some ⟨.start, name, attributes⟩
  | _ => none

/-- The text of tokens with a qualifier before their names. -/
def qualifiedTexts (qualifier : String) (ts : List Token) : String :=
  texts (ts.map (qualify qualifier))

/-- The same with a qualifier before the names. -/
theorem qualifiedTexts_append (qualifier : String) (a b : List Token) :
    qualifiedTexts qualifier (a ++ b) =
      qualifiedTexts qualifier a ++ qualifiedTexts qualifier b := by
  rw [qualifiedTexts, List.map_append, texts_append]
  rfl

/-- The text of the first token, and then that of the others. -/
theorem qualifiedTexts_cons (qualifier : String) (t : Token) (rest : List Token) :
    qualifiedTexts qualifier (t :: rest) =
      (t.qualify qualifier).text ++ qualifiedTexts qualifier rest := rfl

/-- No tokens have no text. -/
theorem qualifiedTexts_nil (qualifier : String) : qualifiedTexts qualifier [] = "" := rfl

end Token

/-! ### Elements -/

/-- The tokens of a self-contained element. Every child and the end tag stand on a new line. -/
def Element.tokens : Element → List Token
  | mk name attributes [] => [.tag .whole ⟨.single, name, attributes⟩]
  | mk name attributes (first :: rest) =>
    .tag .whole ⟨.start, name, attributes⟩ ::
      (all (first :: rest) ++ [.lineEnd, .tag .whole ⟨.ending, name, []⟩])
where
  /-- The tokens of elements, each on a new line. -/
  all : List Element → List Token
    | [] => []
    | e :: rest => .lineEnd :: (tokens e ++ all rest)

mutual

/-- The text of an element is that of its tokens. -/
theorem Element.text_eq_tokens (qualifier : String) :
    ∀ e : Element, e.text qualifier = Token.qualifiedTexts qualifier e.tokens
  | mk name attributes [] => by
      rw [Element.text, Element.tokens, Token.qualifiedTexts_cons, Token.qualifiedTexts_nil,
        String.append_empty]
      rfl
  | mk name attributes (first :: rest) => by
      rw [Element.text, Element.tokens, Token.qualifiedTexts_cons, Token.qualifiedTexts_append,
        Element.texts_eq_tokens qualifier (first :: rest)]
      simp only [Token.qualifiedTexts_cons, Token.qualifiedTexts_nil, Token.qualify, Token.text,
        Token.tagText, String.append_empty, String.append_assoc]
      rfl

/-- The text of elements, each on a new line, is that of their tokens. -/
theorem Element.texts_eq_tokens (qualifier : String) :
    ∀ es : List Element, Element.text.texts qualifier es =
      Token.qualifiedTexts qualifier (Element.tokens.all es)
  | [] => rfl
  | e :: rest => by
      rw [Element.text.texts, Element.tokens.all, Token.qualifiedTexts_cons,
        Token.qualifiedTexts_append, Element.text_eq_tokens qualifier e,
        Element.texts_eq_tokens qualifier rest, String.append_assoc]
      rfl

end

/-! ### Pieces -/

namespace Sink

/-- A qualifier is written as a part of the name. -/
theorem tag_qualified (qualifier name : String) (attributes : List Attribute) :
    ((Sink.empty qualifier).tag name attributes).text =
      ((Sink.empty "").tag (qualifier ++ name) attributes).text := by
  rw [tag_eq, tag_eq]
  simp only [empty, String.empty_append, String.append_empty, String.append_assoc]

/-- Blanks are taken away from the text alone. -/
theorem trim_tag_qualified (qualifier name : String) (attributes : List Attribute) :
    ((Sink.empty qualifier).tag name attributes).trim.text =
      ((Sink.empty "").tag (qualifier ++ name) attributes).trim.text :=
  congrArg (fun t : String => String.ofList (Outline.trimBlanks t.toList))
    (tag_qualified qualifier name attributes)

end Sink

namespace Piece

/-- The tokens of a piece. -/
def tokens : Piece → List Token
  | declaration => [.declaration]
  | opening name attributes => [.tag .parts ⟨.start, name, attributes⟩, .lineEnd]
  | ending name => [.tag .parts ⟨.ending, name, []⟩, .lineEnd]
  | shape name attributes => [.tag .parts ⟨.single, name, attributes⟩, .lineEnd]
  | label attributes content =>
    [.tag .parts ⟨.start, "text", attributes⟩, .content content,
      .tag .parts ⟨.ending, "text", []⟩, .lineEnd]
  | element e => e.tokens ++ [.lineEnd]

/-- The text of a piece is that of its tokens. -/
theorem text_eq_tokens (qualifier : String) (p : Piece) :
    p.text qualifier = Token.qualifiedTexts qualifier p.tokens := by
  cases p with
  | declaration => rfl
  | opening name attributes =>
      show ((Sink.empty qualifier).tag name attributes).trim.text ++ (">" ++ "\n") =
        ((Sink.empty "").tag (qualifier ++ name) attributes).trim.text ++ ">" ++ ("\n" ++ "")
      rw [Sink.trim_tag_qualified, String.append_empty, String.append_assoc]
  | ending name =>
      show "" ++ ("</" ++ qualifier ++ name ++ ">") ++ "\n" =
        "</" ++ (qualifier ++ name) ++ ">" ++ ("\n" ++ "")
      simp only [String.empty_append, String.append_empty, String.append_assoc]
  | shape name attributes =>
      show ((Sink.empty qualifier).tag name attributes).text ++ ("/>" ++ "\n") =
        ((Sink.empty "").tag (qualifier ++ name) attributes).text ++ "/>" ++ ("\n" ++ "")
      rw [Sink.tag_qualified, String.append_empty, String.append_assoc]
  | label attributes content =>
      show ((Sink.empty qualifier).tag "text" attributes).trim.text ++ ">" ++
          Text.Cdata.enclose content ++
          ("</" ++ ((Sink.empty qualifier).tag "text" attributes).trim.qualifier ++
            "text" ++ ">") ++
          "\n" =
        ((Sink.empty "").tag (qualifier ++ "text") attributes).trim.text ++ ">" ++
          (Text.Cdata.enclose content ++ ("</" ++ (qualifier ++ "text") ++ ">" ++ ("\n" ++ "")))
      have hqualifier : ((Sink.empty qualifier).tag "text" attributes).trim.qualifier =
          qualifier := by
        rw [Sink.tag_eq]
        rfl
      rw [hqualifier, Sink.trim_tag_qualified]
      simp only [String.append_empty, String.append_assoc]
  | element e =>
      show "" ++ (e.text qualifier ++ "\n") =
        Token.qualifiedTexts qualifier (e.tokens ++ [.lineEnd])
      rw [String.empty_append, Token.qualifiedTexts_append, Element.text_eq_tokens]
      rfl

end Piece

/-! ### Documents -/

namespace Document

/-- The tokens of a document. -/
def tokens (d : Document) : List Token := d.toList.flatMap Piece.tokens

/-- The tokens of a document come in the order of its pieces. -/
theorem tokens_append (a b : Document) : tokens (a ++ b) = tokens a ++ tokens b := by
  rw [tokens, Array.toList_append, List.flatMap_append]
  rfl

/-- The text of a document is that of its tokens, with the qualifier before their names. -/
theorem text_eq_tokens (qualifier : String) (d : Document) :
    d.text qualifier = Token.qualifiedTexts qualifier d.tokens := by
  rw [text, tokens]
  induction d.toList with
  | nil => rfl
  | cons p rest ih =>
      rw [textAfter, List.foldl_cons, ← textAfter, textAfter_eq, ih, List.flatMap_cons,
        Token.qualifiedTexts_append, Piece.text_eq_tokens, String.empty_append]

end Document

/-! ### Tags among tokens -/

section Tags

variable (qualifier : String)

/-- The tags among tokens, with a qualifier before their names. -/
def Token.qualifiedTags (ts : List Token) : List Tag :=
  (ts.map (Token.qualify qualifier)).filterMap Token.tag?

/-- The tags among tokens come in the order of the tokens. -/
theorem Token.qualifiedTags_append (a b : List Token) :
    Token.qualifiedTags qualifier (a ++ b) =
      Token.qualifiedTags qualifier a ++ Token.qualifiedTags qualifier b := by
  rw [Token.qualifiedTags, List.map_append, List.filterMap_append]
  rfl

mutual

/-- The tags of an element are those among its tokens. -/
theorem Element.tags_eq_tokens :
    ∀ e : Element, e.tags qualifier = Token.qualifiedTags qualifier e.tokens
  | mk name attributes [] => rfl
  | mk name attributes (first :: rest) => by
      rw [Element.tags, Element.tokens, Element.tags_all_eq_tokens (first :: rest)]
      show _ :: (_ ++ _) = _ :: Token.qualifiedTags qualifier _
      rw [Token.qualifiedTags_append]
      rfl

/-- The tags of the children are those among their tokens, between the line ends. -/
theorem Element.tags_all_eq_tokens :
    ∀ es : List Element, Element.tags.all qualifier es =
      Token.qualifiedTags qualifier (Element.tokens.all es)
  | [] => rfl
  | e :: rest => by
      rw [Element.tags.all, Element.tokens.all, Element.tags_eq_tokens e,
        Element.tags_all_eq_tokens rest, ← Token.qualifiedTags_append]
      rfl

end

/-- The tags of a piece are those among its tokens. -/
theorem Piece.tags_eq_tokens (p : Piece) :
    p.tags qualifier = Token.qualifiedTags qualifier p.tokens := by
  cases p with
  | element e =>
      show e.tags qualifier = Token.qualifiedTags qualifier (e.tokens ++ [.lineEnd])
      rw [Token.qualifiedTags_append, Element.tags_eq_tokens]
      exact (List.append_nil _).symm
  | declaration | opening _ _ | ending _ | shape _ _ | label _ _ => rfl

/-- The tags of a document are those among its tokens. -/
theorem Document.tags_eq_tokens (d : Document) :
    d.tags qualifier = Token.qualifiedTags qualifier d.tokens := by
  rw [tags, tokens]
  induction d.toList with
  | nil => rfl
  | cons p rest ih =>
      rw [List.flatMap_cons, List.flatMap_cons, Token.qualifiedTags_append, ih,
        Piece.tags_eq_tokens]

end Tags

end Metafile.Markup
