import Metafile.Markup.Reference
import Metafile.Proofs.Markup.Tags

/-!
# `Metafile.Proofs.Markup.Citations`: definitions and the references to them

Clip regions and pictures are defined once, and other elements refer to them by name.
`Attribute.Cites` lists the attributes that refer to an element, and `Label` the elements that
have a name: each label is known from its name (`Label.name_inj`).

`Catalogued` is the invariant of the tags that are written so far: the clip regions and the
pictures among them are numbered in the order in which they stand there, and every reference is to
a name that stands before it. It is kept by tags that refer only to what is there
(`Catalogued.cite`) and by the definition of the next clip region or the next picture
(`Catalogued.define`). `Catalogued.referenced` says in terms of the tags alone what follows from
it.
-/

set_option autoImplicit false

namespace Metafile.Markup

/-! ### Names -/

/-- A number and what follows it are known from their text, if no digit follows. -/
private theorem repr_append_inj {m n : Nat} {a b : String}
    (ha : ∀ c ∈ a.toList.head?, c.isDigit = false) (hb : ∀ c ∈ b.toList.head?, c.isDigit = false)
    (h : m.repr ++ a = n.repr ++ b) : m = n ∧ a = b := by
  -- the digits are the longest beginning that has only digits
  have hdigits (n : Nat) {a : String} (ha : ∀ c ∈ a.toList.head?, c.isDigit = false) :
      (n.repr ++ a).toList.takeWhile Char.isDigit = n.repr.toList := by
    rw [String.toList_append, Nat.toList_repr, List.takeWhile_append_of_pos
      fun c hc => Nat.isDigit_of_mem_toDigits (by decide) (by decide) hc]
    cases hrest : a.toList with
    | nil => rw [List.takeWhile_nil, List.append_nil]
    | cons c rest =>
        have hc : c.isDigit = false := ha c (by rw [hrest]; rfl)
        rw [List.takeWhile_cons, hc]
        exact List.append_nil _
  have hrepr : m.repr.toList = n.repr.toList := by
    rw [← hdigits m ha, h, hdigits n hb]
  have hnumber := congrArg (fun digits => Nat.ofDigitChars 10 digits 0) hrepr
  obtain rfl : m = n := by simpa using hnumber
  exact ⟨rfl, (String.append_right_inj _).1 h⟩

/-- An element that has a name. -/
inductive Label
  | clip (id : Nat)
  | image (id : Nat)
  | tile (id : Nat)
  | pattern (id : Nat)
deriving DecidableEq, Repr

namespace Label

/-- The number of an element, which is part of its name. -/
def id : Label → Nat
  | clip id | image id | tile id | pattern id => id

/-- The name of an element. -/
def name : Label → String
  | clip id => Reference.clip id
  | image id => Reference.image id
  | tile id => Reference.tile id
  | pattern id => Reference.pattern id

/-- What an element is, as the name of its tag. -/
def element : Label → String
  | clip _ => "clipPath"
  | image _ => "image"
  | tile _ => "use"
  | pattern _ => "pattern"

/-- Whether an element is one of so many clip regions, or belongs to one of so many pictures. -/
def Among (clips images : Nat) : Label → Prop
  | clip id => 0 < id ∧ id ≤ clips
  | image id | tile id | pattern id => 0 < id ∧ id ≤ images

/-- An element stays among the defined ones when there are more of them. -/
theorem Among.mono {clips images clips' images' : Nat} {l : Label} (h : l.Among clips images)
    (hclips : clips ≤ clips') (himages : images ≤ images') : l.Among clips' images' := by
  cases l with
  | clip id => exact ⟨h.1, Nat.le_trans h.2 hclips⟩
  | image id | tile id | pattern id => exact ⟨h.1, Nat.le_trans h.2 himages⟩

/-- What stands before the number in a name. -/
private def stem : Label → String
  | clip _ => "clip-"
  | _ => "img-"

/-- What stands after the number in a name. -/
private def suffix : Label → String
  | clip _ | image _ => ""
  | tile _ => "-ign"
  | pattern _ => "-ref"

/-- The name of an element is its number between two texts that tell its sort. -/
private theorem name_eq (l : Label) : l.name = l.stem ++ (l.id.repr ++ l.suffix) := by
  cases l with
  | clip id | image id => exact congrArg (_ ++ ·) String.append_empty.symm
  | tile id | pattern id => exact String.append_assoc ..

/-- Different elements have different names. -/
theorem name_inj {l m : Label} (h : l.name = m.name) : l = m := by
  rw [name_eq, name_eq] at h
  have hsuffix (l : Label) : ∀ c ∈ l.suffix.toList.head?, c.isDigit = false := by
    cases l <;> simp [suffix]
  -- the first character tells clip regions from the rest
  have hstem : l.stem = m.stem := by
    have hfirst := congrArg (fun name => name.toList.head?) h
    cases l <;> cases m <;> first | rfl | simp [stem] at hfirst
  rw [hstem, String.append_right_inj] at h
  obtain ⟨hid, hend⟩ := repr_append_inj (hsuffix l) (hsuffix m) h
  cases l <;> cases m <;> simp_all [stem, suffix, id]

end Label

/-- A reference tells the name that it refers to. -/
theorem Reference.url_inj {a b : String} (h : url a = url b) : a = b :=
  (String.append_right_inj _).1 ((String.append_left_inj _).1 h)

/-! ### References -/

/-- How attributes with a key refer to other elements: what such an element is, and how the value
spells its name. Attributes with other keys refer to nothing. -/
def citing? : String → Option (String × (String → String))
  | "clip-path" => some ("clipPath", Reference.url)
  | "fill" => some ("pattern", Reference.url)
  | "style" => some ("pattern", fun name => "fill:" ++ Reference.url name ++ ";")
  | "xlink:href" => some ("image", fun name => "#" ++ name)
  | _ => none

/-- The attribute refers to an element with a name. -/
def Attribute.Cites (a : Attribute) (element name : String) : Prop :=
  ∃ spell, citing? a.1 = some (element, spell) ∧ a.2 = spell name

/-- The keys of attributes that name an element or may refer to one. -/
def citingKeys : List String := ["id", "clip-path", "fill", "style", "xlink:href"]

/-- A paint that is no reference, or one to the pattern of one of so many pictures. -/
def PaintBounded (images : Nat) (paint : String) : Prop :=
  ∀ name, paint = Reference.url name → ∃ id, 0 < id ∧ id ≤ images ∧ name = Reference.pattern id

/-- A paint may refer to the pattern of one of so many pictures. -/
theorem paintBounded_pattern {images id : Nat} (hpositive : 0 < id) (hle : id ≤ images) :
    PaintBounded images (Reference.url (Reference.pattern id)) :=
  fun _ h => ⟨id, hpositive, hle, (Reference.url_inj h).symm⟩

/-- A paint that begins with another character than a reference. -/
theorem paintBounded_of_head (images : Nat) {paint : String} (h : paint.toList.head? ≠ some 'u') :
    PaintBounded images paint := by
  rintro name rfl
  exact absurd (by simp [Reference.url]) h

/-- A colour is no reference: it begins with a number sign. -/
theorem paintBounded_hex (images : Nat) (c : Color) : PaintBounded images c.hex :=
  paintBounded_of_head images (by simp [Color.hex])

/-- An attribute that names no element, and that refers to none but those of so many clip regions
and pictures. -/
structure Attribute.Bounded (clips images : Nat) (a : Attribute) : Prop where
  nameless : a.1 ≠ "id"
  known : ∀ element name, a.Cites element name →
    ∃ l : Label, l.Among clips images ∧ l.element = element ∧ l.name = name

namespace Attribute.Bounded

variable {clips images : Nat} {a : Attribute} {value : String}

/-- More definitions are no harm to an attribute. -/
theorem mono {clips' images' : Nat} (h : a.Bounded clips images) (hclips : clips ≤ clips')
    (himages : images ≤ images') : a.Bounded clips' images' where
  nameless := h.nameless
  known element name hcites := by
    obtain ⟨l, hl, hl'⟩ := h.known element name hcites
    exact ⟨l, hl.mono hclips himages, hl'⟩

/-- Most keys are those of attributes that refer to nothing. -/
theorem of_key (h : a.1 ∉ citingKeys) : a.Bounded clips images where
  nameless hid := h (hid ▸ by decide)
  known element name hcites := by
    obtain ⟨spell, hspell, _⟩ := hcites
    unfold citing? at hspell
    split at hspell
    · rename_i hkey
      exact absurd (hkey ▸ by decide) h
    · rename_i hkey
      exact absurd (hkey ▸ by decide) h
    · rename_i hkey
      exact absurd (hkey ▸ by decide) h
    · rename_i hkey
      exact absurd (hkey ▸ by decide) h
    · cases hspell

/-- Attributes all of whose keys are those of attributes that refer to nothing. -/
theorem of_within {attributes : List Attribute} {keys : List String} (h : Within attributes keys)
    (hkeys : ∀ k ∈ keys, k ∉ citingKeys) : ∀ a ∈ attributes, a.Bounded clips images :=
  fun a ha => of_key (hkeys _ (h.known a ha).1)

/-- An attribute that refers to an element refers to one that is there. -/
private theorem of_citing {key element : String} {spell : String → String}
    (hkey : citing? key = some (element, spell))
    (h : ∀ name, value = spell name →
      ∃ l : Label, l.Among clips images ∧ l.element = element ∧ l.name = name) :
    Bounded clips images (key, value) where
  nameless hid := by
    obtain rfl : key = "id" := hid
    cases hkey
  known element' name hcites := by
    obtain ⟨spell', hspell, hvalue⟩ := hcites
    obtain ⟨rfl, rfl⟩ := Prod.mk.inj (Option.some.inj (hkey.symm.trans hspell))
    exact h name hvalue

/-- Where there is nothing to refer to, an attribute refers to nothing. -/
theorem uncited {element name : String} (h : Bounded 0 0 a) : ¬a.Cites element name := by
  intro hcites
  obtain ⟨l, hl, _⟩ := h.known element name hcites
  cases l <;> exact absurd (Nat.lt_of_lt_of_le hl.1 hl.2) (Nat.lt_irrefl 0)

/-- An attribute may refer to one of so many clip regions. -/
theorem clip {id : Nat} (hpositive : 0 < id) (hle : id ≤ clips) :
    Bounded clips images ("clip-path", Reference.url (Reference.clip id)) :=
  of_citing rfl fun _ h => ⟨.clip id, ⟨hpositive, hle⟩, rfl, Reference.url_inj h⟩

/-- The paint of a shape decides what its attribute refers to. -/
theorem fill (h : PaintBounded images value) : Bounded clips images ("fill", value) :=
  of_citing rfl fun name hname => by
    obtain ⟨id, hpositive, hle, rfl⟩ := h name hname
    exact ⟨.pattern id, ⟨hpositive, hle⟩, rfl, rfl⟩

/-- A style that sets the paint, or one that sets something else. -/
theorem style (h : ∀ paint, value = "fill:" ++ paint ++ ";" → PaintBounded images paint) :
    Bounded clips images ("style", value) :=
  of_citing rfl fun name hname => by
    obtain ⟨id, hpositive, hle, rfl⟩ := h _ hname name rfl
    exact ⟨.pattern id, ⟨hpositive, hle⟩, rfl, rfl⟩

/-- What is shown is no element of the document, if it does not begin with a hash. -/
theorem link (h : value.toList.head? ≠ some '#') : Bounded clips images ("xlink:href", value) :=
  of_citing rfl fun name hname => absurd (by rw [hname]; simp) h

/-- An attribute with another key refers to nothing, whether it is there or not. -/
theorem onlyIf {key : String} (condition : Bool) (h : key ∉ citingKeys) (value : String) :
    ∀ a ∈ Attribute.onlyIf condition key value, a.Bounded clips images := by
  unfold Attribute.onlyIf
  split
  · exact List.forall_mem_singleton.2 (.of_key h)
  · exact fun a ha => absurd ha List.not_mem_nil

/-- An attribute that may be absent has to be bounded only where it has a value. -/
theorem ofValue? {key : String} {value : Option String}
    (h : ∀ v, value = some v → Bounded clips images (key, v)) :
    ∀ a ∈ Attribute.ofValue? key value, a.Bounded clips images := by
  cases value with
  | none => exact fun a ha => absurd ha List.not_mem_nil
  | some v => exact List.forall_mem_singleton.2 (h v rfl)

/-- The style in which a text keeps its blanks sets no paint. -/
theorem keepBlanks : Bounded clips images Lettering.keepBlanks :=
  .style fun paint h => by
    have hchars := congrArg String.toList h
    simp at hchars

end Attribute.Bounded

/-- The attribute that names an element refers to nothing. -/
theorem Attribute.not_cites_id (value : String) {element name : String} :
    ¬Attribute.Cites ("id", value) element name := by
  rintro ⟨spell, hspell, _⟩
  cases hspell

/-- A link refers to the picture whose name it holds. -/
theorem Attribute.cites_link {value element name : String}
    (h : Attribute.Cites ("xlink:href", "#" ++ value) element name) :
    element = "image" ∧ name = value := by
  obtain ⟨spell, hspell, hvalue⟩ := h
  obtain ⟨rfl, rfl⟩ := Prod.mk.inj (Option.some.inj hspell)
  exact ⟨rfl, ((String.append_right_inj _).1 hvalue).symm⟩

/-! ### Pieces that define nothing -/

/-- An element without children, all of whose attributes are bounded. -/
structure Element.Bounded (clips images : Nat) (e : Element) : Prop where
  leaf : e.children = []
  attributes : ∀ a ∈ e.attributes, a.Bounded clips images

/-- After an insertion there are the attributes from before, and the new one. -/
theorem Attribute.mem_insert {key value : String} {attributes : List Attribute} {a : Attribute}
    (h : a ∈ insert key value attributes) : a = (key, value) ∨ a ∈ attributes := by
  induction attributes with
  | nil => exact Or.inl (List.mem_singleton.1 h)
  | cons first rest ih =>
      unfold insert at h
      split at h
      · exact List.mem_cons.1 h
      · split at h
        · exact (List.mem_cons.1 h).imp_right (List.mem_cons_of_mem first)
        · rcases List.mem_cons.1 h with rfl | h
          · exact Or.inr List.mem_cons_self
          · exact (ih h).imp_right (List.mem_cons_of_mem first)

namespace Element.Bounded

variable {clips images : Nat} {e : Element} {key value : String}

/-- An element without attributes refers to nothing. -/
theorem named (name : String) : Bounded clips images (Element.named name) :=
  ⟨rfl, fun _ h => absurd h List.not_mem_nil⟩

/-- An attribute is set on an element. It replaces one with the same key, and the others stay. -/
theorem set (h : Bounded clips images e) (hnew : Attribute.Bounded clips images (key, value)) :
    Bounded clips images (e.set key value) := by
  cases e with
  | mk name attributes children =>
      refine ⟨h.leaf, fun a ha => ?_⟩
      rcases Attribute.mem_insert ha with rfl | ha
      · exact hnew
      · exact h.attributes a ha

/-- Most keys are those of attributes that refer to nothing. -/
theorem set_key (h : Bounded clips images e) (hkey : key ∉ citingKeys) (value : String) :
    Bounded clips images (e.set key value) :=
  h.set (.of_key hkey)

/-- An attribute is set if there is a value for it. -/
theorem setSome {value : Option String} (h : Bounded clips images e)
    (hnew : ∀ v, value = some v → Attribute.Bounded clips images (key, v)) :
    Bounded clips images (e.setSome key value) := by
  cases value with
  | none => exact h
  | some v => exact h.set (hnew v rfl)

end Element.Bounded

namespace Piece

variable {clips images : Nat}

/-- A piece all of whose attributes are bounded. -/
def Bounded (clips images : Nat) (p : Piece) : Prop :=
  ∀ qualifier, ∀ t ∈ p.tags qualifier, ∀ a ∈ t.attributes, a.Bounded clips images

/-- More definitions are no harm to a piece. -/
theorem Bounded.mono {clips' images' : Nat} {p : Piece} (h : p.Bounded clips images)
    (hclips : clips ≤ clips') (himages : images ≤ images') : p.Bounded clips' images' :=
  fun qualifier t ht a ha => (h qualifier t ht a ha).mono hclips himages

/-- An end tag has no attributes. -/
theorem bounded_ending (name : String) : (Piece.ending name).Bounded clips images := by
  intro qualifier t ht a ha
  rw [List.mem_singleton.1 ht] at ha
  cases ha

/-- A start tag is bounded if its attributes are. -/
theorem bounded_opening {name : String} {attributes : List Attribute}
    (h : ∀ a ∈ attributes, a.Bounded clips images) :
    (Piece.opening name attributes).Bounded clips images := by
  intro qualifier t ht a ha
  rw [List.mem_singleton.1 ht] at ha
  exact h a ha

/-- A tag without content is bounded if its attributes are. -/
theorem bounded_shape {name : String} {attributes : List Attribute}
    (h : ∀ a ∈ attributes, a.Bounded clips images) :
    (Piece.shape name attributes).Bounded clips images := by
  intro qualifier t ht a ha
  rw [List.mem_singleton.1 ht] at ha
  exact h a ha

/-- A text is bounded if the attributes of its start tag are. What it says is no reference. -/
theorem bounded_label {attributes : List Attribute} {content : String}
    (h : ∀ a ∈ attributes, a.Bounded clips images) :
    (Piece.label attributes content).Bounded clips images := by
  intro qualifier t ht a ha
  rcases List.mem_cons.1 ht with rfl | ht
  · exact h a ha
  · rw [List.mem_singleton.1 ht] at ha
    cases ha

/-- An element without children is one tag, with the attributes of the element. -/
theorem bounded_element {e : Element} (h : e.Bounded clips images) :
    (Piece.element e).Bounded clips images := by
  intro qualifier t ht a ha
  cases e with
  | mk name attributes children =>
      obtain rfl : children = [] := h.leaf
      rw [List.mem_singleton.1 ht] at ha
      exact h.attributes a ha

end Piece

/-! ### The definitions among tags -/

/-- The name that a tag gives to its element, along with what the element is. -/
def Tag.definitions (t : Tag) : List (String × String) :=
  (t.attributes.filter (·.1 == "id")).map fun a => (t.name, a.2)

/-- The elements that are named, in the order in which they stand. -/
def definitions (tags : List Tag) : List (String × String) := tags.flatMap Tag.definitions

/-- The elements that a tag names come before those of the tags behind it. -/
theorem definitions_cons (t : Tag) (rest : List Tag) :
    definitions (t :: rest) = t.definitions ++ definitions rest :=
  List.flatMap_cons

/-- The elements that tags name come in the order of the tags. -/
theorem definitions_append (a b : List Tag) :
    definitions (a ++ b) = definitions a ++ definitions b :=
  List.flatMap_append

/-- Every tag refers only to what is known from before, or is defined by the tags before it. -/
def Resolved (qualifier : String) : List (String × String) → List Tag → Prop
  | _, [] => True
  | known, t :: rest =>
    (∀ a ∈ t.attributes, ∀ element name, a.Cites element name →
      (qualifier ++ element, name) ∈ known) ∧
    Resolved qualifier (known ++ t.definitions) rest

section Resolved

variable {qualifier : String} {known : List (String × String)} {a b : List Tag}

/-- Tags are resolved part by part. What the first part defines is known to the second. -/
theorem resolved_append : Resolved qualifier known (a ++ b) ↔
    Resolved qualifier known a ∧ Resolved qualifier (known ++ definitions a) b := by
  induction a generalizing known with
  | nil => simp [Resolved, definitions]
  | cons t rest ih =>
      rw [List.cons_append, Resolved, Resolved, ih, and_assoc, definitions_cons,
        List.append_assoc]

/-- A reference is to what is known, or to what is defined before it. -/
theorem Resolved.mem {before after : List Tag} {t : Tag} {a : Attribute} {element name : String}
    (h : Resolved qualifier known (before ++ t :: after)) (ha : a ∈ t.attributes)
    (hcites : a.Cites element name) :
    (qualifier ++ element, name) ∈ known ++ definitions before :=
  (resolved_append.1 h).2.1 a ha element name hcites

/-- Tags that define nothing are resolved where every reference of theirs is known. -/
theorem resolved_of_known {tags : List Tag} (hnameless : definitions tags = [])
    (h : ∀ t ∈ tags, ∀ a ∈ t.attributes, ∀ element name, a.Cites element name →
      (qualifier ++ element, name) ∈ known) : Resolved qualifier known tags := by
  induction tags with
  | nil => trivial
  | cons t rest ih =>
      rw [definitions_cons, List.append_eq_nil_iff] at hnameless
      refine ⟨h t List.mem_cons_self, ?_⟩
      rw [hnameless.1, List.append_nil]
      exact ih hnameless.2 fun u hu => h u (List.mem_cons_of_mem t hu)

end Resolved

/-! ### Numbered definitions -/

/-- What names an element as the text has it. -/
def Label.entry (qualifier : String) (l : Label) : String × String :=
  (qualifier ++ l.element, l.name)

/-- The elements that are named when so many clip regions and pictures are defined, in some order
of clip regions and pictures. A picture comes with its pattern, and the pattern with its tile. -/
inductive Numbering : Nat → Nat → List Label → Prop
  | empty : Numbering 0 0 []
  | clip {clips images : Nat} {labels : List Label} : Numbering clips images labels →
    Numbering (clips + 1) images (labels ++ [.clip (clips + 1)])
  | image {clips images : Nat} {labels : List Label} : Numbering clips images labels →
    Numbering clips (images + 1)
      (labels ++ [.image (images + 1), .pattern (images + 1), .tile (images + 1)])

namespace Numbering

variable {clips images : Nat} {labels : List Label}

/-- The elements that are named are those with the numbers so far. -/
theorem mem_iff (h : Numbering clips images labels) {l : Label} :
    l ∈ labels ↔ l.Among clips images := by
  induction h with
  | empty => cases l <;> simp [Label.Among] <;> omega
  | clip _ ih =>
      rw [List.mem_append, ih]
      -- only the clip regions are more than before
      cases l <;> simp [Label.Among]
      omega
  | image _ ih =>
      rw [List.mem_append, ih]
      cases l <;> simp [Label.Among] <;> omega

/-- No element is named twice. -/
theorem nodup (h : Numbering clips images labels) : labels.Nodup := by
  induction h with
  | empty => exact .nil
  | clip h ih =>
      refine List.nodup_append.2 ⟨ih, by simp, fun l hl m hm => ?_⟩
      rintro rfl
      have hnumber := h.mem_iff.1 hl
      rw [List.mem_singleton.1 hm] at hnumber
      exact absurd hnumber.2 (by omega)
  | image h ih =>
      refine List.nodup_append.2 ⟨ih, by simp, fun l hl m hm => ?_⟩
      rintro rfl
      have hnumber := h.mem_iff.1 hl
      simp only [List.mem_cons, List.not_mem_nil, or_false] at hm
      rcases hm with rfl | rfl | rfl <;> exact absurd hnumber.2 (by omega)

/-- The clip regions are named in the order of their numbers. -/
theorem clips_eq (h : Numbering clips images labels) :
    labels.filter (·.element = "clipPath") = (List.range' 1 clips).map .clip := by
  induction h with
  | empty => rfl
  | @clip clips _ _ _ ih =>
      rw [List.filter_append, ih, List.range'_1_concat, List.map_append, Nat.add_comm 1 clips]
      rfl
  | image _ ih =>
      rw [List.filter_append, ih]
      exact List.append_nil _

/-- What is named once for each picture, and for no clip region, is named in the order of the
numbers. -/
theorem filter_images (h : Numbering clips images labels) {p : Label → Bool} {label : Nat → Label}
    (hclip : ∀ id, [Label.clip id].filter p = [])
    (himage : ∀ id, [Label.image id, .pattern id, .tile id].filter p = [label id]) :
    labels.filter p = (List.range' 1 images).map label := by
  induction h with
  | empty => rfl
  | clip _ ih => rw [List.filter_append, ih, hclip, List.append_nil]
  | @image _ images _ _ ih =>
      rw [List.filter_append, ih, himage, List.range'_1_concat, List.map_append,
        Nat.add_comm 1 images]
      rfl

/-- The pictures are named in the order of their numbers. -/
theorem images_eq (h : Numbering clips images labels) :
    labels.filter (·.element = "image") = (List.range' 1 images).map .image :=
  h.filter_images (fun _ => rfl) fun _ => rfl

/-- The patterns are named in the order of their numbers. -/
theorem patterns_eq (h : Numbering clips images labels) :
    labels.filter (·.element = "pattern") = (List.range' 1 images).map .pattern :=
  h.filter_images (fun _ => rfl) fun _ => rfl

end Numbering

/-! ### The catalogue of a document -/

/-- A pattern whose tile shows the picture with the same number. -/
def patternTags (qualifier : String) (id : Nat) (attributes : List Attribute) : List Tag :=
  [⟨.start, qualifier ++ "pattern", attributes⟩,
    ⟨.single, qualifier ++ "use",
      [("id", Reference.tile id), ("xlink:href", "#" ++ Reference.image id)]⟩,
    ⟨.ending, qualifier ++ "pattern", []⟩]

/-- The tags so far define so many clip regions and pictures, each before every reference to it.
-/
structure Catalogued (qualifier : String) (clips images : Nat) (tags : List Tag) : Prop where
  numbering : ∃ labels, Numbering clips images labels ∧
    definitions tags = labels.map (Label.entry qualifier)
  resolved : Resolved qualifier [] tags
  tiles : ∀ id, 0 < id → id ≤ images → ∃ attributes,
    ("id", Reference.pattern id) ∈ attributes ∧ patternTags qualifier id attributes <:+: tags

namespace Catalogued

variable {qualifier : String} {clips images : Nat} {tags more : List Tag}

/-- No tags define nothing and refer to nothing. -/
theorem empty (qualifier : String) : Catalogued qualifier 0 0 [] where
  numbering := ⟨[], .empty, rfl⟩
  resolved := trivial
  tiles id hpositive hle := absurd hle (by omega)

/-- Elements with the numbers so far are defined. -/
theorem entry_mem (h : Catalogued qualifier clips images tags) {l : Label}
    (hl : l.Among clips images) : l.entry qualifier ∈ definitions tags := by
  obtain ⟨labels, hnumbering, hdefinitions⟩ := h.numbering
  rw [hdefinitions]
  exact List.mem_map_of_mem (hnumbering.mem_iff.2 hl)

/-- Tags that refer only to what is there are resolved. -/
theorem resolves (h : Catalogued qualifier clips images tags)
    (hmore : ∀ t ∈ more, ∀ a ∈ t.attributes, a.Bounded clips images) :
    Resolved qualifier (definitions tags) more ∧ definitions more = [] := by
  have hnameless : definitions more = [] := by
    refine List.flatMap_eq_nil_iff.2 fun t ht => ?_
    unfold Tag.definitions
    rw [List.map_eq_nil_iff, List.filter_eq_nil_iff]
    intro a ha hid
    exact (hmore t ht a ha).nameless (eq_of_beq hid)
  refine ⟨resolved_of_known hnameless fun t ht a ha element name hcites => ?_, hnameless⟩
  obtain ⟨l, hl, rfl, rfl⟩ := (hmore t ht a ha).known element name hcites
  exact h.entry_mem hl

/-- Tags that define the next elements and refer only to what stands before them. -/
theorem define (h : Catalogued qualifier clips images tags) {clips' images' : Nat}
    (named : List Label) (hdefinitions : definitions more = named.map (Label.entry qualifier))
    (hnumbering : ∀ labels, Numbering clips images labels →
      Numbering clips' images' (labels ++ named))
    (hresolved : Resolved qualifier (definitions tags) more)
    (htiles : ∀ id, images < id → id ≤ images' → ∃ attributes,
      ("id", Reference.pattern id) ∈ attributes ∧ patternTags qualifier id attributes <:+: more) :
    Catalogued qualifier clips' images' (tags ++ more) where
  numbering := by
    obtain ⟨labels, hlabels, hbefore⟩ := h.numbering
    exact ⟨labels ++ named, hnumbering labels hlabels, by
      rw [definitions_append, hbefore, hdefinitions, List.map_append]⟩
  resolved := resolved_append.2 ⟨h.resolved, hresolved⟩
  tiles id hpositive hle := by
    -- a tile is one of the old ones, or comes with what is added
    by_cases hold : id ≤ images
    · obtain ⟨attributes, hid, hinfix⟩ := h.tiles id hpositive hold
      exact ⟨attributes, hid, hinfix.trans (List.prefix_append tags more).isInfix⟩
    · obtain ⟨attributes, hid, hinfix⟩ := htiles id (by omega) hle
      exact ⟨attributes, hid, hinfix.trans (List.suffix_append tags more).isInfix⟩

/-- Tags that define nothing and refer only to what is there. -/
theorem cite (h : Catalogued qualifier clips images tags)
    (hmore : ∀ t ∈ more, ∀ a ∈ t.attributes, a.Bounded clips images) :
    Catalogued qualifier clips images (tags ++ more) := by
  obtain ⟨hresolved, hnameless⟩ := h.resolves hmore
  exact h.define [] hnameless (fun labels hlabels => by rwa [List.append_nil]) hresolved
    fun id hlt hle => absurd hle (by omega)

end Catalogued

/-- All references among tags are to elements that are named once and before them. The clip
regions and the pictures are numbered from one on in the order in which they stand, and the tile
in each pattern shows the picture with the same number. -/
structure Referenced (qualifier : String) (clips images : Nat) (tags : List Tag) : Prop where
  defined : ∀ before t after, tags = before ++ t :: after → ∀ a ∈ t.attributes, ∀ element name,
    a.Cites element name → (qualifier ++ element, name) ∈ definitions before
  distinct : ((definitions tags).map Prod.snd).Nodup
  clipOrder : ((definitions tags).filter (·.1 = qualifier ++ "clipPath")).map Prod.snd =
    (List.range' 1 clips).map Reference.clip
  imageOrder : ((definitions tags).filter (·.1 = qualifier ++ "image")).map Prod.snd =
    (List.range' 1 images).map Reference.image
  patternOrder : ((definitions tags).filter (·.1 = qualifier ++ "pattern")).map Prod.snd =
    (List.range' 1 images).map Reference.pattern
  tiles : ∀ id, 0 < id → id ≤ images → ∃ attributes,
    ("id", Reference.pattern id) ∈ attributes ∧ patternTags qualifier id attributes <:+: tags

/-- The names of the elements of one sort, in the order in which they stand. -/
private theorem names_of_element (qualifier element : String) (labels : List Label) :
    ((labels.map (Label.entry qualifier)).filter (·.1 = qualifier ++ element)).map Prod.snd =
      (labels.filter (·.element = element)).map Label.name := by
  rw [List.filter_map, List.map_map]
  congr 1
  refine List.filter_congr fun l _ => ?_
  exact decide_eq_decide.2 (String.append_right_inj qualifier)

/-- The references among tags that are catalogued. -/
theorem Catalogued.referenced {qualifier : String} {clips images : Nat} {tags : List Tag}
    (h : Catalogued qualifier clips images tags) : Referenced qualifier clips images tags := by
  obtain ⟨labels, hlabels, hdefinitions⟩ := h.numbering
  refine ⟨?_, ?_, ?_, ?_, ?_, h.tiles⟩
  · rintro before t after rfl a ha element name hcites
    exact h.resolved.mem ha hcites
  · rw [hdefinitions, List.map_map]
    exact List.pairwise_map.2 (hlabels.nodup.imp fun hne hname => hne (Label.name_inj hname))
  · rw [hdefinitions, names_of_element, hlabels.clips_eq, List.map_map]
    rfl
  · rw [hdefinitions, names_of_element, hlabels.images_eq, List.map_map]
    rfl
  · rw [hdefinitions, names_of_element, hlabels.patterns_eq, List.map_map]
    rfl

end Metafile.Markup
