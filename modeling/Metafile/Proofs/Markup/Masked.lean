import Metafile.Proofs.Markup.Tags

/-!
# `Metafile.Proofs.Markup.Masked`: documents without the data of their pictures

Pictures stand in a document as data URIs, each the value of a link. To say that two documents are
the same but for their pictures, every such value is replaced by the same short text. `maskText`
does so in a text: it knows nothing of elements and looks for quotes only, since neither a name
nor a data URI holds one. `Element.masked` does the same to an element before it is written.

What a text looks like when it is masked depends on what stands before it, so texts are compared
wherever they stand (`SameMasked`). `Piece.sameMasked` states that a piece and the masked piece
have the same masked text, whatever their names and other values are. So documents whose masked
pieces are the same have the same masked text (`Document.sameMasked`).
-/

set_option autoImplicit false

namespace Metafile.Markup

/-! ### Masks -/

/-- What stands in place of every data URI. -/
def maskedUri : String := "data:"

/-- The key of a link, with what stands before it and after it in a tag. -/
def linkStart : List Char := " xlink:href=".toList

/-- Whether characters are a data URI. -/
def isDataUri (cs : List Char) : Bool := "data:".toList.isPrefixOf cs && cs.all isUriChar

/-- Masks the characters that follow a quote. Given are those of them that are passed already, and
whether the quote begins the value of a link. -/
def maskFrom (linked : Bool) (passed : List Char) : List Char → List Char
  | [] => passed
  | c :: rest =>
    if c = '"' then
      (if linked && isDataUri passed then maskedUri.toList else passed) ++
        '"' :: maskFrom (linkStart.isSuffixOf passed) [] rest
    else maskFrom linked (passed ++ [c]) rest

/-- A text in which every data URI that is the value of a link is masked. -/
def maskText (text : String) : String := .ofList (maskFrom false [] text.toList)

/-- Only the values of links are masked, and only those that are data URIs. -/
example :
    maskText "<use id=\"data:a\" xlink:href=\"#a\"/><image xlink:href=\"data:a/b=\" y=\"0\"/>" =
    "<use id=\"data:a\" xlink:href=\"#a\"/><image xlink:href=\"data:\" y=\"0\"/>" := by
  decide +kernel

/-- The value of an attribute, masked if it is a link to a data URI. -/
def Attribute.maskedValue (key value : String) : String :=
  if key = "xlink:href" ∧ isDataUri value.toList then maskedUri else value

/-- An attribute with its value masked. -/
def Attribute.masked (a : Attribute) : Attribute := (a.1, maskedValue a.1 a.2)

/-- An element in which every link to a data URI is masked. -/
def Element.masked : Element → Element
  | mk name attributes children => mk name (attributes.map Attribute.masked) (all children)
where
  /-- Elements, each of them masked. -/
  all : List Element → List Element
    | [] => []
    | e :: rest => e.masked :: all rest

/-- A piece in which every link to a data URI is masked. Pictures stand in elements only. -/
def Piece.masked : Piece → Piece
  | .element e => .element e.masked
  | p => p

/-! ### Texts wherever they stand -/

/-- Two texts look the same when they are masked, wherever they stand. -/
def SameMasked (a b : List Char) : Prop :=
  ∀ linked passed rest, maskFrom linked passed (a ++ rest) = maskFrom linked passed (b ++ rest)

namespace SameMasked

variable {a b c d : List Char}

/-- A text looks like itself. -/
theorem refl (a : List Char) : SameMasked a a := fun _ _ _ => rfl

/-- If one text looks like another when both are masked, the other looks like it. -/
theorem symm (h : SameMasked a b) : SameMasked b a :=
  fun linked passed rest => (h linked passed rest).symm

/-- Texts that look like the same text look alike. -/
theorem trans (h : SameMasked a b) (k : SameMasked b c) : SameMasked a c :=
  fun linked passed rest => (h linked passed rest).trans (k linked passed rest)

/-- What looks the same after any text looks the same after a longer one. -/
private theorem after {x y : List Char}
    (h : ∀ linked passed, maskFrom linked passed x = maskFrom linked passed y)
    (before : List Char) :
    ∀ linked passed, maskFrom linked passed (before ++ x) =
      maskFrom linked passed (before ++ y) := by
  induction before with
  | nil => exact h
  | cons c rest ih =>
      intro linked passed
      rw [List.cons_append, List.cons_append, maskFrom, maskFrom, ih, ih]

/-- Texts that look alike in their parts look alike as a whole. -/
theorem append (h : SameMasked a b) (k : SameMasked c d) : SameMasked (a ++ c) (b ++ d) := by
  intro linked passed rest
  rw [List.append_assoc, List.append_assoc, h]
  exact after (fun linked passed => k linked passed rest) b linked passed

/-- Texts that are made of several parts look alike if each part does. -/
theorem flatMap {α : Type} {f g : α → List Char} {xs : List α}
    (h : ∀ x ∈ xs, SameMasked (f x) (g x)) : SameMasked (xs.flatMap f) (xs.flatMap g) := by
  induction xs with
  | nil => exact refl []
  | cons x rest ih =>
      rw [List.flatMap_cons, List.flatMap_cons]
      exact (h x List.mem_cons_self).append (ih fun y hy => h y (List.mem_cons_of_mem x hy))

/-- Texts that look alike wherever they stand do so alone. -/
theorem maskText_eq {s t : String} (h : SameMasked s.toList t.toList) :
    maskText s = maskText t := by
  have hwhole := h false [] []
  rw [List.append_nil, List.append_nil] at hwhole
  rw [maskText, hwhole, maskText]

end SameMasked

/-- Characters up to a quote are passed. -/
private theorem maskFrom_run {run : List Char} (h : ∀ c ∈ run, c ≠ '"') (linked : Bool)
    (passed rest : List Char) :
    maskFrom linked passed (run ++ '"' :: rest) =
      (if linked && isDataUri (passed ++ run) then maskedUri.toList else passed ++ run) ++
        '"' :: maskFrom (linkStart.isSuffixOf (passed ++ run)) [] rest := by
  induction run generalizing passed with
  | nil =>
      rw [List.nil_append, maskFrom, if_pos rfl, List.append_nil]
  | cons c run ih =>
      have hc := h c List.mem_cons_self
      rw [List.cons_append, maskFrom, if_neg hc, ih fun d hd => h d (List.mem_cons_of_mem c hd),
        List.append_assoc]
      rfl

/-- A data URI as the value of a link is masked, and it is not the start of another link. -/
private theorem maskFrom_link {uri : List Char} (h : isDataUri uri = true) (linked : Bool)
    (passed rest : List Char) :
    maskFrom linked passed (linkStart ++ '"' :: (uri ++ '"' :: rest)) =
      (if linked && isDataUri (passed ++ linkStart) then maskedUri.toList
        else passed ++ linkStart) ++
        '"' :: (maskedUri.toList ++ '"' :: maskFrom false [] rest) := by
  have hchars : ∀ c ∈ uri, isUriChar c = true := by
    unfold isDataUri at h
    exact List.all_eq_true.1 (Bool.and_eq_true_iff.1 h).2
  have hstart : ∀ c ∈ linkStart, c ≠ '"' := fun c hc =>
    bne_iff_ne.1 (List.all_eq_true.1 (by decide : linkStart.all (· != '"') = true) c hc)
  have hquote : ∀ c ∈ uri, c ≠ '"' := by
    rintro c hc rfl
    exact absurd (hchars _ hc) (by decide)
  -- a link starts with a blank, and no data URI holds one
  have hblank : linkStart.isSuffixOf uri = false := by
    rw [Bool.eq_false_iff]
    intro hsuffix
    have hmem := (List.isSuffixOf_iff_suffix.1 hsuffix).subset (by decide : ' ' ∈ linkStart)
    exact absurd (hchars _ hmem) (by decide)
  have hlink : linkStart.isSuffixOf (passed ++ linkStart) = true :=
    List.isSuffixOf_iff_suffix.2 (List.suffix_append _ _)
  rw [maskFrom_run hstart, hlink, maskFrom_run hquote, List.nil_append, h, hblank]
  rfl

/-! ### Masked pieces -/

/-- A link to a data URI as text. -/
private theorem link_text {uri : String} (h : isDataUri uri.toList = true) :
    (Attribute.text ("xlink:href", uri)).toList = linkStart ++ '"' :: (uri.toList ++ ['"']) := by
  have hplain : Plain uri := by
    unfold isDataUri at h
    exact UriText.plain (List.all_eq_true.1 (Bool.and_eq_true_iff.1 h).2)
  rw [Attribute.text_of_plain hplain]
  simp only [Attribute.spaced, String.toList_append]
  rfl

/-- An attribute and the masked attribute have the same masked text. -/
theorem Attribute.sameMasked (a : Attribute) : SameMasked a.text.toList a.masked.text.toList := by
  obtain ⟨key, value⟩ := a
  unfold masked maskedValue
  dsimp only
  split
  · rename_i h
    obtain ⟨rfl, huri⟩ := h
    intro linked passed rest
    have hmasked : isDataUri maskedUri.toList = true := by decide
    rw [link_text huri, link_text hmasked]
    simp only [List.append_assoc, List.cons_append, List.nil_append]
    rw [maskFrom_link huri, maskFrom_link hmasked]
  · exact .refl _

/-- Attributes and the masked attributes have the same masked text. -/
private theorem sameMasked_join (attributes : List Attribute) :
    SameMasked (String.join (attributes.map Attribute.text)).toList
      (String.join ((attributes.map Attribute.masked).map Attribute.text)).toList := by
  induction attributes with
  | nil => exact .refl _
  | cons a rest ih =>
      simp only [List.map_cons, String.join_cons, String.toList_append]
      exact a.sameMasked.append ih

/-- An element and the masked element have the same masked text. -/
theorem Element.sameMasked (qualifier : String) :
    (e : Element) → SameMasked (e.text qualifier).toList (e.masked.text qualifier).toList
  | mk name attributes [] => by
      simp only [text, masked, masked.all, String.toList_append]
      exact ((SameMasked.refl _).append (sameMasked_join attributes)).append (.refl _)
  | mk name attributes (first :: rest) => by
      have hhead := (SameMasked.refl ("<" ++ (qualifier ++ name)).toList).append
        (sameMasked_join attributes)
      have hchildren := all qualifier (first :: rest)
      simp only [text, masked, masked.all, String.toList_append] at hhead hchildren ⊢
      exact ((((hhead.append (.refl _)).append hchildren).append (.refl _)).append
        (.refl _)).append (.refl _)
where
  /-- So do elements one after the other. -/
  all (qualifier : String) : (es : List Element) →
      SameMasked (text.texts qualifier es).toList (text.texts qualifier (masked.all es)).toList
    | [] => .refl _
    | e :: rest => by
        simp only [text.texts, masked.all, String.toList_append]
        exact ((SameMasked.refl _).append (sameMasked qualifier e)).append (all qualifier rest)

/-- A piece and the masked piece have the same masked text. -/
theorem Piece.sameMasked (qualifier : String) (p : Piece) :
    SameMasked (p.text qualifier).toList (p.masked.text qualifier).toList := by
  cases p with
  | element e =>
      have htext (e : Element) : (Piece.element e).text qualifier = e.text qualifier ++ "\n" :=
        String.empty_append ..
      unfold masked
      rw [htext, htext, String.toList_append, String.toList_append]
      exact (e.sameMasked qualifier).append (.refl _)
  | declaration => exact .refl _
  | opening name attributes => exact .refl _
  | ending name => exact .refl _
  | shape name attributes => exact .refl _
  | label attributes content => exact .refl _

namespace Document

/-- The text of a document is that of its pieces, one after the other. -/
theorem toList_text (qualifier : String) (d : Document) :
    (text qualifier d).toList = d.toList.flatMap fun p => (p.text qualifier).toList := by
  rw [text]
  induction d.toList with
  | nil => rfl
  | cons p rest ih =>
      rw [textAfter, List.foldl_cons, ← textAfter, textAfter_eq, String.empty_append,
        String.toList_append, ih, List.flatMap_cons]

/-- A document and the masked document have the same masked text. -/
theorem sameMasked (qualifier : String) (d : Document) :
    SameMasked (text qualifier d).toList (text qualifier (d.map Piece.masked)).toList := by
  rw [toList_text, toList_text, Array.toList_map, List.flatMap_map]
  exact .flatMap fun p _ => p.sameMasked qualifier

/-- Documents whose masked pieces are the same have the same masked text. -/
theorem sameMasked_of_map_eq (qualifier : String) {d d' : Document}
    (h : d'.map Piece.masked = d.map Piece.masked) :
    SameMasked (text qualifier d').toList (text qualifier d).toList := by
  have hmasked := sameMasked qualifier d'
  rw [h] at hmasked
  exact hmasked.trans (sameMasked qualifier d).symm

end Document

/-! ### Masked elements in the making -/

/-- A masked attribute is put in the same place. -/
theorem Attribute.map_masked_insert (key value : String) (attributes : List Attribute) :
    (insert key value attributes).map masked =
      insert key (maskedValue key value) (attributes.map masked) := by
  induction attributes with
  | nil => rfl
  | cons a rest ih =>
      obtain ⟨k, v⟩ := a
      rw [List.map_cons, masked, insert, insert]
      split
      · rfl
      · split
        · rfl
        · rw [List.map_cons, ih, masked]

namespace Element

/-- The children of an element are masked one by one. -/
theorem masked_all (es : List Element) : masked.all es = es.map masked := by
  induction es with
  | nil => rfl
  | cons e rest ih => rw [masked.all, ih, List.map_cons]

/-- An attribute is masked when it is set, or afterwards with the others. -/
theorem masked_set (key value : String) (e : Element) :
    (e.set key value).masked = e.masked.set key (Attribute.maskedValue key value) := by
  cases e with
  | mk name attributes children =>
      simp only [set, masked]
      rw [Attribute.map_masked_insert]

/-- A child is masked when it is added, or afterwards with the others. -/
theorem masked_push (e child : Element) : (e.push child).masked = e.masked.push child.masked := by
  cases e with
  | mk name attributes children =>
      simp only [push, masked, masked_all, List.map_append, List.map_cons, List.map_nil]

end Element

/-! ### Data URIs -/

/-- A picture stands in a document as a data URI, whatever encodes it. -/
theorem isDataUri_embed (encode : Bitmap.Encoder) (picture : Bitmap.Picture)
    (given : Option Bitmap.Palette) :
    isDataUri (picture.embed encode given).uri.toList = true := by
  have hchars := List.all_eq_true.2 (uriText_embed encode picture given)
  have hstart : "data:".toList.isPrefixOf (picture.embed encode given).uri.toList = true := by
    rw [List.isPrefixOf_iff_prefix]
    rcases embed_uri encode picture given with ⟨mime, bytes, -, huri⟩ | huri
    · rw [huri]
      simp only [Bitmap.dataUri, String.toList_append, List.append_assoc]
      exact List.prefix_append _ _
    · -- only the first part of the text is looked at
      have hfirst (a b c : String) (h : "data:".toList <+: a.toList) :
          "data:".toList <+: (a ++ b ++ c).toList := by
        rw [String.toList_append, String.toList_append, List.append_assoc]
        exact h.trans (List.prefix_append _ _)
      rw [huri]
      unfold Bitmap.placeholder
      apply hfirst
      decide +kernel
  rw [isDataUri, hstart, hchars]
  rfl

/-- So the link to it is masked, whatever encodes it. -/
theorem Attribute.maskedValue_embed (encode : Bitmap.Encoder) (picture : Bitmap.Picture)
    (given : Option Bitmap.Palette) :
    maskedValue "xlink:href" (picture.embed encode given).uri = maskedUri :=
  if_pos ⟨rfl, isDataUri_embed encode picture given⟩

end Metafile.Markup
