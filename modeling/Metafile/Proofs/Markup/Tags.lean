import Metafile.Markup.Piece
import Metafile.Proofs.Markup.Plain
import Metafile.Proofs.Markup.Writing

/-!
# `Metafile.Proofs.Markup.Tags`: the tags of pieces

A piece is `Sound` when its names are names and its attributes can be written. `Piece.tags` lists
the tags of a piece, and `Document.scans` states that the scanner reads exactly these tags from
the text of sound pieces. The tags of a piece that is whole, such as a shape or an element with
all that is in it, leave the open elements as they are (`Piece.Sound.after`).
-/

set_option autoImplicit false

namespace Metafile.Markup

/-! ### Heads of tags -/

/-- A start tag without its end, and without the blank before the end. -/
def headText (name : String) (attributes : List Attribute) : String :=
  "<" ++ (name ++ spacedText attributes)

/-- The head of a tag is read as far as its end, and nothing of the tag is given before. -/
theorem scans_headText {name : String} {attributes : List Attribute} (hname : IsName name)
    (h : ∀ a ∈ attributes, IsName a.1 ∧ Plain a.2) :
    Scans .content (headText name attributes).toList (.head name attributes) [] := by
  simp only [headText, String.toList_append]
  exact (scans_open hname).append (scans_attributes h name [])

/-- The end of a head gives a start tag. -/
theorem scans_leave (name : String) (attributes : List Attribute) :
    Scans (.head name attributes) ">".toList .content [⟨.start, name, attributes⟩] :=
  .single (feed_head (by decide) name attributes)

/-- A slash and the end of a head give a tag without content. -/
theorem scans_slash (name : String) (attributes : List Attribute) :
    Scans (.head name attributes) "/>".toList .content [⟨.single, name, attributes⟩] :=
  .cons_quiet (feed_head (by decide) name attributes) (.single rfl)

/-- The end of a tag without content is read after a blank. -/
theorem scans_spacedSlash (name : String) (attributes : List Attribute) :
    Scans (.head name attributes) " />".toList .content [⟨.single, name, attributes⟩] :=
  .cons_quiet (feed_head (by decide) name attributes) (.cons_quiet rfl (.single rfl))

/-- Between tags the end of a line gives nothing. -/
theorem scans_lineEnd : Scans .content "\n".toList .content [] := rfl

/-- Attributes with a blank after each are attributes with a blank before each. -/
theorem blank_attributesText (attributes : List Attribute) :
    " " ++ attributesText attributes = spacedText attributes ++ " " := by
  induction attributes with
  | nil => rfl
  | cons a rest ih =>
      rw [spacedText_cons, String.append_assoc, ← ih, attributesText]
      simp only [Attribute.inTag, Attribute.spaced, String.append_assoc]
      rfl

/-- The text of a tag without its end is the head and a blank. -/
theorem Sink.tag_text (qualifier name : String) (attributes : List Attribute) :
    ((Sink.empty qualifier).tag name attributes).text =
      headText (qualifier ++ name) attributes ++ " " := by
  rw [Sink.tag_eq]
  simp only [Sink.empty, String.empty_append, headText, String.append_assoc,
    ← blank_attributesText]

/-- The head of a tag ends with a character that is no blank. -/
private theorem headText_last {name : String} (hname : IsName name)
    (attributes : List Attribute) :
    ∃ cs c, (headText name attributes).toList = cs ++ [c] ∧ c ≠ ' ' := by
  rcases List.eq_nil_or_concat attributes with rfl | ⟨rest, a, rfl⟩
  · -- the last character of the name
    have hne : name.toList ≠ [] := by
      intro hnil
      unfold IsName at hname
      rw [hnil] at hname
      cases hname
    refine ⟨'<' :: name.toList.dropLast, name.toList.getLast hne, ?_, ?_⟩
    · rw [List.cons_append, List.dropLast_concat_getLast, headText, String.toList_append,
        String.toList_append]
      exact congrArg ('<' :: ·) (List.append_nil _)
    · intro hblank
      have hchar := isNameChar_of_mem hname (List.getLast_mem hne)
      rw [hblank] at hchar
      exact absurd hchar (by decide)
  · -- the quote after the last value
    refine ⟨(headText name rest ++ (" " ++ (a.1 ++ ("=\"" ++ a.2)))).toList, '"', ?_, by decide⟩
    rw [List.concat_eq_append]
    simp only [headText, spacedText, List.map_append, List.map_cons, List.map_nil,
      String.join_append, String.join_cons, String.join_nil, Attribute.spaced,
      String.toList_append, List.append_assoc, String.append_empty]
    rfl

/-- A tag from which the blank at its end is taken away is its head. -/
theorem Sink.trim_tag_text {qualifier name : String} (hname : IsName (qualifier ++ name))
    (attributes : List Attribute) :
    ((Sink.empty qualifier).tag name attributes).trim.text =
      headText (qualifier ++ name) attributes := by
  show String.ofList
    (Outline.trimBlanks ((Sink.empty qualifier).tag name attributes).text.toList) = _
  rw [Sink.tag_text, String.toList_append]
  -- only the one blank is taken away, because the head itself ends with none
  obtain ⟨cs, c, hlast, hc⟩ := headText_last hname attributes
  have hblank : (" " : String).toList = [' '] := rfl
  rw [hlast, hblank, Outline.trimBlanks_blank hc, ← hlast, String.ofList_toList]

/-! ### Elements -/

/-- An element that can be written: its keys are in strict order, and so are those of its
children. -/
inductive Element.Sound : Element → Prop
  | mk {name : String} {attributes : List Attribute} {children : List Element} :
    IsName name → (attributes.map Prod.fst).Pairwise (· < ·) →
    (∀ a ∈ attributes, IsName a.1 ∧ Plain a.2) → (∀ child ∈ children, Sound child) →
    Sound (.mk name attributes children)

/-- What an insertion puts in its place can be written, if what was there can. -/
private theorem Attribute.written_insert {key value : String} {attributes : List Attribute}
    (hkey : IsName key) (hvalue : Plain value)
    (h : ∀ a ∈ attributes, IsName a.1 ∧ Plain a.2) :
    ∀ a ∈ insert key value attributes, IsName a.1 ∧ Plain a.2 := by
  induction attributes with
  | nil =>
      intro a ha
      rw [List.mem_singleton.1 ha]
      exact ⟨hkey, hvalue⟩
  | cons first rest ih =>
      have hrest : ∀ a ∈ rest, IsName a.1 ∧ Plain a.2 :=
        fun a ha => h a (List.mem_cons_of_mem _ ha)
      intro a ha
      unfold insert at ha
      -- the attribute comes first, replaces one of the same name, or goes further back
      split at ha
      · rcases List.mem_cons.1 ha with rfl | ha
        · exact ⟨hkey, hvalue⟩
        · exact h a ha
      · split at ha
        · rcases List.mem_cons.1 ha with rfl | ha
          · exact ⟨hkey, hvalue⟩
          · exact hrest a ha
        · rcases List.mem_cons.1 ha with rfl | ha
          · exact h _ List.mem_cons_self
          · exact ih hrest a ha

namespace Element.Sound

variable {e child : Element} {name key value : String}

/-- An element without attributes and children is sound if its name is a name. -/
theorem named (h : IsName name) : Sound (Element.named name) :=
  .mk h .nil (fun _ ha => absurd ha List.not_mem_nil) fun _ hc => absurd hc List.not_mem_nil

/-- An attribute whose name and value can be written keeps an element sound. -/
theorem set (h : Sound e) (hkey : IsName key) (hvalue : Plain value) :
    Sound (e.set key value) := by
  cases h with
  | mk hname hsorted hwritten hchildren =>
      exact .mk hname (Attribute.sorted_insert key value _ hsorted)
        (Attribute.written_insert hkey hvalue hwritten) hchildren

/-- The text of a number can always be written. -/
theorem setFloat (h : Sound e) (hkey : IsName key) (v : Float) : Sound (e.setFloat key v) :=
  h.set hkey (plain_shortest v)

/-- Where there is no value, the element stays as it is. -/
theorem setSome {value : Option String} (h : Sound e) (hkey : IsName key)
    (hvalue : ∀ v, value = some v → Plain v) : Sound (e.setSome key value) := by
  cases value with
  | none => exact h
  | some v => exact h.set hkey (hvalue v rfl)

/-- A sound child keeps an element sound. -/
theorem push (h : Sound e) (hchild : Sound child) : Sound (e.push child) := by
  cases h with
  | mk hname hsorted hwritten hchildren =>
      refine .mk hname hsorted hwritten fun c hc => ?_
      rcases List.mem_append.1 hc with hc | hc
      · exact hchildren c hc
      · rwa [List.mem_singleton.1 hc]

end Element.Sound

/-- The tags of an element and of everything in it. -/
def Element.tags (qualifier : String) : Element → List Tag
  | mk name attributes [] => [⟨.single, qualifier ++ name, attributes⟩]
  | mk name attributes (first :: rest) =>
    ⟨.start, qualifier ++ name, attributes⟩ ::
      (all qualifier (first :: rest) ++ [⟨.ending, qualifier ++ name, []⟩])
where
  /-- The tags of elements, one after the other. -/
  all (qualifier : String) : List Element → List Tag
    | [] => []
    | e :: rest => tags qualifier e ++ all qualifier rest

/-- The tags of children are those of each child. -/
theorem Element.all_eq (qualifier : String) (es : List Element) :
    Element.tags.all qualifier es = es.flatMap (Element.tags qualifier) := by
  induction es with
  | nil => rfl
  | cons e rest ih => rw [Element.tags.all, List.flatMap_cons, ih]

/-- Each child stands on a line of its own. -/
theorem Element.toList_texts (qualifier : String) (es : List Element) :
    (Element.text.texts qualifier es).toList =
      es.flatMap fun e => '\n' :: (e.text qualifier).toList := by
  induction es with
  | nil => rfl
  | cons e rest ih =>
      rw [Element.text.texts, String.toList_append, String.toList_append, ih]
      rfl

/-- An attribute of an element has double quotes around a plain value. -/
theorem Attribute.text_of_plain {a : Attribute} (h : Plain a.2) : a.text = a.spaced := by
  have hquote : quote? a.2 = some '"' := by
    have hnone : a.2.contains '"' = false := by
      rw [String.contains_char_eq, decide_eq_false_iff_not]
      exact fun hc => absurd (h _ hc) (by decide)
    unfold quote?
    rw [hnone]
    rfl
  unfold text
  rw [hquote]
  simp only [spaced, String.append_assoc]
  rfl

/-- What may stand before the names of elements: nothing, or a name. -/
def Qualifies (qualifier : String) : Prop := qualifier = "" ∨ IsName qualifier

/-- A name with a qualifier before it is a name. -/
theorem Qualifies.isName {qualifier name : String} (hq : Qualifies qualifier) (h : IsName name) :
    IsName (qualifier ++ name) := by
  rcases hq with rfl | hq
  · rwa [String.empty_append]
  · exact hq.append h

/-- The tags of an element are read from its text. -/
theorem Element.Sound.scans {qualifier : String} (hq : Qualifies qualifier) {e : Element}
    (h : e.Sound) : Scans .content (e.text qualifier).toList .content (e.tags qualifier) := by
  induction h with
  | @mk name attributes children hname _ hwritten _ ih =>
      have hfull := hq.isName hname
      -- plain values need no other quotes, so the head is that of any tag
      have hhead : "<" ++ (qualifier ++ name) ++ String.join (attributes.map Attribute.text) =
          headText (qualifier ++ name) attributes := by
        have htexts : attributes.map Attribute.text = attributes.map Attribute.spaced :=
          List.map_congr_left fun a ha => Attribute.text_of_plain (hwritten a ha).2
        rw [htexts, headText, spacedText, String.append_assoc]
      have hall : Scans .content (Element.text.texts qualifier children).toList .content
          (Element.tags.all qualifier children) := by
        rw [Element.all_eq, Element.toList_texts]
        exact .flatMap fun child hchild => .cons_quiet rfl (ih child hchild)
      cases children with
      | nil =>
          simp only [Element.text, Element.tags]
          rw [hhead, String.toList_append]
          exact (scans_headText hfull hwritten).append (scans_slash _ _)
      | cons first rest =>
          simp only [Element.text, Element.tags]
          rw [hhead]
          have htext : headText (qualifier ++ name) attributes ++ ">" ++
              Element.text.texts qualifier (first :: rest) ++ "\n</" ++
                (qualifier ++ name) ++ ">" =
              headText (qualifier ++ name) attributes ++ (">" ++
                (Element.text.texts qualifier (first :: rest) ++
                  ("\n" ++ ("</" ++ (qualifier ++ name) ++ ">")))) := by
            rw [show ("\n</" : String) = "\n" ++ "</" from rfl]
            simp only [String.append_assoc]
          rw [htext, String.toList_append, String.toList_append, String.toList_append,
            String.toList_append]
          exact (scans_headText hfull hwritten).append ((scans_leave _ _).append
            (hall.append (scans_lineEnd.append (scans_ending hfull))))

/-- The tags of an element have its own attributes, those of its children, or none. -/
theorem Element.Sound.forall_tags {P : List Attribute → Prop} {qualifier : String} {e : Element}
    (h : e.Sound) (none : P [])
    (own : ∀ attributes : List Attribute, (attributes.map Prod.fst).Pairwise (· < ·) →
      (∀ a ∈ attributes, IsName a.1 ∧ Plain a.2) → P attributes) :
    ∀ t ∈ e.tags qualifier, P t.attributes := by
  induction h with
  | @mk name attributes children _ hsorted hwritten _ ih =>
      -- the tags of the children, by induction
      have hall : ∀ t ∈ Element.tags.all qualifier children, P t.attributes := by
        intro t ht
        rw [Element.all_eq] at ht
        obtain ⟨child, hchild, ht⟩ := List.mem_flatMap.1 ht
        exact ih child hchild t ht
      intro t ht
      cases children with
      | nil =>
          rw [Element.tags, List.mem_singleton] at ht
          rw [ht]
          exact own attributes hsorted hwritten
      | cons first rest =>
          rw [Element.tags, List.mem_cons, List.mem_append, List.mem_singleton] at ht
          rcases ht with rfl | ht | rfl
          · exact own attributes hsorted hwritten
          · exact hall t ht
          · exact none

/-- No tag of an element has two attributes with the same key, for they are sorted. -/
theorem Element.Sound.distinct {qualifier : String} {e : Element} (h : e.Sound) :
    ∀ t ∈ e.tags qualifier, (t.attributes.map Prod.fst).Nodup := by
  refine h.forall_tags (P := fun attributes => (attributes.map Prod.fst).Nodup) .nil
    fun attributes hsorted _ => hsorted.imp fun {a b} hlt => ?_
  -- keys in strict order are different
  rintro rfl
  exact String.lt_irrefl a hlt

/-- The values in the tags of an element are plain. -/
theorem Element.Sound.plain {qualifier : String} {e : Element} (h : e.Sound) :
    ∀ t ∈ e.tags qualifier, ∀ a ∈ t.attributes, Plain a.2 :=
  h.forall_tags (P := fun attributes => ∀ a ∈ attributes, Plain a.2)
    (fun _ ha => absurd ha List.not_mem_nil) fun _ _ hwritten a ha => (hwritten a ha).2

/-- The tags of an element inside of another one leave the open elements as they are. -/
theorem Element.Sound.after {qualifier : String} {e : Element} (h : e.Sound) {n : Nesting}
    (hinside : n.names ≠ []) : n.after (e.tags qualifier) = some n := by
  induction h generalizing n with
  | @mk name attributes children _ _ _ _ ih =>
      have hall (m : Nesting) (hm : m.names ≠ []) :
          m.after (Element.tags.all qualifier children) = some m := by
        rw [Element.all_eq]
        exact Nesting.after_flatMap fun child hchild => ih child hchild hm
      cases children with
      | nil =>
          rw [Element.tags]
          exact Nesting.after_single hinside _ _
      | cons first rest =>
          rw [Element.tags]
          exact Nesting.after_element hinside _ hall

/-! ### Pieces -/

namespace Piece

/-- A piece that can be written. -/
inductive Sound : Piece → Prop
  | declaration : Sound .declaration
  | opening {name : String} {attributes : List Attribute} :
    IsName name → Attribute.Sound attributes → Sound (.opening name attributes)
  | ending {name : String} : IsName name → Sound (.ending name)
  | shape {name : String} {attributes : List Attribute} :
    IsName name → Attribute.Sound attributes → Sound (.shape name attributes)
  | label {attributes : List Attribute} {content : String} :
    Attribute.Sound attributes → Sound (.label attributes content)
  | element {e : Element} : e.Sound → Sound (.element e)

/-- Whether a piece closes every element that it opens, and no other. -/
def isWhole : Piece → Bool
  | shape .. | label .. | element _ => true
  | _ => false

/-- The tags of a piece. -/
def tags (qualifier : String) : Piece → List Tag
  | declaration => []
  | opening name attributes => [⟨.start, qualifier ++ name, attributes⟩]
  | ending name => [⟨.ending, qualifier ++ name, []⟩]
  | shape name attributes => [⟨.single, qualifier ++ name, attributes⟩]
  | label attributes _ =>
    [⟨.start, qualifier ++ "text", attributes⟩, ⟨.ending, qualifier ++ "text", []⟩]
  | element e => e.tags qualifier

variable {qualifier : String} {p : Piece}

/-- The text of a start tag, with its head apart from the end. -/
theorem text_opening {name : String} (hname : IsName (qualifier ++ name))
    (attributes : List Attribute) : (Piece.opening name attributes).text qualifier =
      headText (qualifier ++ name) attributes ++ (">" ++ "\n") := by
  show ((Sink.empty qualifier).tag name attributes).trim.text ++ ">\n" = _
  rw [Sink.trim_tag_text hname]
  rfl

/-- The text of an end tag. -/
theorem text_ending (qualifier name : String) : (Piece.ending name).text qualifier =
    "</" ++ (qualifier ++ name) ++ ">" ++ "\n" := by
  show "" ++ ("</" ++ qualifier ++ name ++ ">") ++ "\n" = _
  simp only [String.empty_append, String.append_assoc]

/-- The text of a label: its head, the letters in a section of their own, and the end tag. -/
theorem text_label (hname : IsName (qualifier ++ "text")) (attributes : List Attribute)
    (content : String) : (Piece.label attributes content).text qualifier =
      headText (qualifier ++ "text") attributes ++ (">" ++ (Text.Cdata.enclose content ++
        ("</" ++ (qualifier ++ "text") ++ ">" ++ "\n"))) := by
  have hhead := Sink.trim_tag_text hname attributes
  have hqualifier : ((Sink.empty qualifier).tag "text" attributes).trim.qualifier =
      qualifier := by
    rw [Sink.tag_eq]
    rfl
  show (((((Sink.empty qualifier).tag "text" attributes).trim.raw ">").raw
    (Text.Cdata.enclose content)).closeTag "text" |>.raw "\n").text = _
  generalize ((Sink.empty qualifier).tag "text" attributes).trim = head at hhead hqualifier ⊢
  -- the parts after the head do not look at it
  simp only [Sink.raw, Sink.closeTag, hhead, hqualifier, String.append_assoc]

/-- The tags of a piece are read from its text. -/
theorem Sound.scans (hq : Qualifies qualifier) (h : p.Sound) :
    Scans .content (p.text qualifier).toList .content (p.tags qualifier) := by
  cases h with
  | declaration =>
      -- the declaration is a fixed text without tags
      have hdeclaration : scanFrom .content declarationText.toList = some (.content, []) := by
        decide +kernel
      exact hdeclaration
  | opening hname hsound =>
      have hfull := hq.isName hname
      rw [text_opening hfull, String.toList_append, String.toList_append]
      exact (scans_headText hfull hsound.written).append ((scans_leave _ _).append scans_lineEnd)
  | ending hname =>
      rw [text_ending, String.toList_append]
      exact (scans_ending (hq.isName hname)).append scans_lineEnd
  | @shape name attributes hname hsound =>
      have htext : (Piece.shape name attributes).text qualifier =
          headText (qualifier ++ name) attributes ++ (" />" ++ "\n") := by
        show ((Sink.empty qualifier).tag name attributes).text ++ "/>\n" = _
        rw [Sink.tag_text, String.append_assoc]
        rfl
      rw [htext, String.toList_append, String.toList_append]
      exact (scans_headText (hq.isName hname) hsound.written).append
        ((scans_spacedSlash _ _).append scans_lineEnd)
  | label hsound =>
      have hfull : IsName (qualifier ++ "text") := hq.isName (by decide)
      rw [text_label hfull, String.toList_append, String.toList_append, String.toList_append,
        String.toList_append]
      exact (scans_headText hfull hsound.written).append ((scans_leave _ _).append
        ((scans_enclose _).append ((scans_ending hfull).append scans_lineEnd)))
  | @element e hsound =>
      have htext : (Piece.element e).text qualifier = e.text qualifier ++ "\n" :=
        String.empty_append ..
      have hread := (hsound.scans hq).append scans_lineEnd
      rw [List.append_nil] at hread
      rw [htext, String.toList_append]
      exact hread

/-- No tag of a piece has two attributes with the same key. -/
theorem Sound.distinct (h : p.Sound) :
    ∀ t ∈ p.tags qualifier, (t.attributes.map Prod.fst).Nodup := by
  intro t ht
  cases h with
  | declaration => cases ht
  | opening _ hsound =>
      rw [List.mem_singleton.1 ht]
      exact hsound.distinct
  | ending _ =>
      rw [List.mem_singleton.1 ht]
      exact .nil
  | shape _ hsound =>
      rw [List.mem_singleton.1 ht]
      exact hsound.distinct
  | label hsound =>
      rcases List.mem_cons.1 ht with rfl | ht
      · exact hsound.distinct
      · rw [List.mem_singleton.1 ht]
        exact .nil
  | element hsound => exact hsound.distinct t ht

/-- The values in the tags of a piece are plain, except that the name of a font family is one of
some names, whatever that name holds. -/
def Confined (names : List String) (p : Piece) : Prop :=
  ∀ qualifier, ∀ t ∈ p.tags qualifier, ∀ a ∈ t.attributes,
    Plain a.2 ∨ a.1 = "font-family" ∧ a.2 ∈ names

/-- The values of a piece that can be written are plain. -/
theorem Sound.confined (h : p.Sound) (names : List String) : p.Confined names := by
  intro qualifier t ht a ha
  refine Or.inl ?_
  cases h with
  | declaration => cases ht
  | opening _ hsound =>
      rw [List.mem_singleton.1 ht] at ha
      exact (hsound.written a ha).2
  | ending _ =>
      rw [List.mem_singleton.1 ht] at ha
      cases ha
  | shape _ hsound =>
      rw [List.mem_singleton.1 ht] at ha
      exact (hsound.written a ha).2
  | label hsound =>
      rcases List.mem_cons.1 ht with rfl | ht
      · exact (hsound.written a ha).2
      · rw [List.mem_singleton.1 ht] at ha
        cases ha
  | element hsound => exact hsound.plain t ht a ha

/-- More names leave what is confined to fewer of them confined. -/
theorem Confined.mono {names others : List String} (h : p.Confined names)
    (hnames : ∀ name ∈ names, name ∈ others) : p.Confined others := by
  intro qualifier t ht a ha
  rcases h qualifier t ht a ha with hplain | ⟨hkey, hname⟩
  · exact Or.inl hplain
  · exact Or.inr ⟨hkey, hnames _ hname⟩

/-- A text whose attributes are those of a text that can be written, and the name of a family. -/
theorem Sound.confined_label {names : List String} {attributes others : List Attribute}
    {content : String} (h : (Piece.label others content).Sound)
    (hmore : ∀ a ∈ attributes, a ∈ others ∨ a.1 = "font-family" ∧ a.2 ∈ names) :
    (Piece.label attributes content).Confined names := by
  intro qualifier t ht a ha
  cases h with
  | label hsound =>
      rcases List.mem_cons.1 ht with rfl | ht
      · exact (hmore a ha).imp_left fun hother => (hsound.written a hother).2
      · rw [List.mem_singleton.1 ht] at ha
        cases ha

/-- The tags of a whole piece inside of an element leave the open elements as they are. -/
theorem Sound.after (h : p.Sound) (hwhole : p.isWhole = true) {n : Nesting}
    (hinside : n.names ≠ []) : n.after (p.tags qualifier) = some n := by
  cases h with
  | declaration => cases hwhole
  | opening => cases hwhole
  | ending => cases hwhole
  | shape => exact Nesting.after_single hinside _ _
  | label =>
      have hnothing : ∀ m : Nesting, m.names ≠ [] → m.after [] = some m := fun _ _ => rfl
      exact Nesting.after_element hinside _ hnothing
  | element hsound => exact hsound.after hinside

end Piece

/-! ### Documents -/

namespace Document

/-- The tags of a document. -/
def tags (qualifier : String) (d : Document) : List Tag := d.toList.flatMap (Piece.tags qualifier)

variable {qualifier : String} {a b d : Document}

/-- The tags of a document come in the order of its pieces. -/
theorem tags_append (qualifier : String) (a b : Document) :
    tags qualifier (a ++ b) = tags qualifier a ++ tags qualifier b := by
  rw [tags, Array.toList_append, List.flatMap_append]
  rfl

/-- The tags of the last piece come last. -/
theorem tags_push (qualifier : String) (d : Document) (p : Piece) :
    tags qualifier (d.push p) = tags qualifier d ++ p.tags qualifier := by
  rw [← Array.append_singleton, tags_append]
  exact congrArg (tags qualifier d ++ ·) (List.append_nil _)

/-- The text of pieces is that of each piece, one after the other. -/
private theorem toList_textAfter (qualifier : String) (pieces : List Piece) :
    (textAfter qualifier "" pieces).toList =
      pieces.flatMap fun p => (p.text qualifier).toList := by
  induction pieces with
  | nil => rfl
  | cons p rest ih =>
      have htext : textAfter qualifier "" (p :: rest) =
          p.text qualifier ++ textAfter qualifier "" rest := by
        rw [textAfter, List.foldl_cons, String.empty_append]
        exact textAfter_eq qualifier (p.text qualifier) rest
      rw [htext, String.toList_append, List.flatMap_cons, ih]

/-- The tags of a document are read from its text. -/
theorem scans (hq : Qualifies qualifier) (h : ∀ p ∈ d, p.Sound) :
    Scans .content (d.text qualifier).toList .content (d.tags qualifier) := by
  have htext : (d.text qualifier).toList = d.toList.flatMap fun p => (p.text qualifier).toList :=
    toList_textAfter qualifier d.toList
  rw [htext]
  exact .flatMap fun p hp => (h p (Array.mem_toList_iff.1 hp)).scans hq

/-- No tag of a document has two attributes with the same key. -/
theorem distinct (h : ∀ p ∈ d, p.Sound) :
    ∀ t ∈ d.tags qualifier, (t.attributes.map Prod.fst).Nodup := by
  intro t ht
  obtain ⟨p, hp, ht⟩ := List.mem_flatMap.1 ht
  exact (h p (Array.mem_toList_iff.1 hp)).distinct t ht

/-- Whole pieces inside of an element leave the open elements as they are. -/
theorem after_whole (h : ∀ p ∈ d, p.Sound ∧ p.isWhole = true) {n : Nesting}
    (hinside : n.names ≠ []) : n.after (d.tags qualifier) = some n := by
  refine Nesting.after_flatMap fun p hp => ?_
  obtain ⟨hsound, hwhole⟩ := h p (Array.mem_toList_iff.1 hp)
  exact hsound.after hwhole hinside

end Document

end Metafile.Markup
