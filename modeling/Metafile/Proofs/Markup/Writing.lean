import Metafile.Markup.Piece

/-!
# `Metafile.Proofs.Markup.Writing`: the text of tags and pieces

A `Sink` is written from the left, one part after the other. Here the text of a tag is given as a
whole, and from it the text of a piece. `Document.text_push` adds one piece to a document.
-/

set_option autoImplicit false

namespace Metafile.Markup

/-- An attribute as it stands in a tag, with the blank after it. -/
def Attribute.inTag (a : Attribute) : String := a.1 ++ "=\"" ++ a.2 ++ "\" "

/-- Attributes as they stand in a tag. -/
def attributesText : List Attribute → String
  | [] => ""
  | a :: rest => a.inTag ++ attributesText rest

/-- Attributes are written one after the other. -/
theorem attributesText_append (a b : List Attribute) :
    attributesText (a ++ b) = attributesText a ++ attributesText b := by
  induction a with
  | nil => exact (String.empty_append ..).symm
  | cons first rest ih =>
      rw [List.cons_append, attributesText, ih, attributesText, String.append_assoc]

namespace Sink

/-- Attributes are written at the end, and the qualifier stays. -/
private theorem foldl_attr (attributes : List Attribute) (s : Sink) :
    attributes.foldl (fun s a => s.attr a.1 a.2) s =
      { s with text := s.text ++ attributesText attributes } := by
  induction attributes generalizing s with
  | nil => rw [List.foldl_nil, attributesText, String.append_empty]
  | cons a rest ih =>
      rw [List.foldl_cons, ih, attributesText, ← String.append_assoc]
      rfl

/-- The text of a tag without its end. -/
theorem tag_eq (name : String) (attributes : List Attribute) (s : Sink) :
    s.tag name attributes =
      { s with text := s.text ++ ("<" ++ s.qualifier ++ name ++ " " ++
        attributesText attributes) } := by
  rw [tag, foldl_attr, ← String.append_assoc]
  rfl

end Sink

/-- The text of a tag without content. -/
theorem Piece.text_shape (qualifier name : String) (attributes : List Attribute) :
    (Piece.shape name attributes).text qualifier =
      "<" ++ qualifier ++ name ++ " " ++ attributesText attributes ++ "/>\n" := by
  change ((Sink.empty qualifier).tag name attributes).text ++ "/>\n" = _
  rw [Sink.tag_eq]
  simp only [Sink.empty, String.empty_append, String.append_assoc]

namespace Document

/-- A document of one piece has the text of the piece. -/
theorem text_singleton (qualifier : String) (p : Piece) :
    text qualifier #[p] = p.text qualifier :=
  String.empty_append ..

/-- The text of the last piece comes last. -/
theorem text_push (qualifier : String) (d : Document) (p : Piece) :
    text qualifier (d.push p) = text qualifier d ++ p.text qualifier := by
  rw [← Array.append_singleton, text_append, text_singleton]

end Document

end Metafile.Markup
