import Metafile.Markup.Element
import Metafile.Text.Cdata

/-!
# `Metafile.Proofs.Markup.Scan`: reading the tags of a document back

Whether a document is well formed is asked of its text alone. `feed` is a scanner that takes one
character at a time: it passes over the declaration and over CDATA sections, reads the names and
the attributes of tags, and refuses everything else. A text is scanned piece by piece
(`Scans.append`), and `scans_attributes` reads a run of attributes back.

`Nesting` follows the tags with a stack of the elements that are open. A document is `WellFormed`
when its tags are read to the end, no tag has an attribute twice, and the tags nest inside of one
outermost element.
-/

set_option autoImplicit false

namespace Metafile.Markup

/-! ### Names -/

/-- The ranges of letters beyond ASCII that may begin a name. -/
def nameRanges : List (Nat × Nat) :=
  [(0xC0, 0xD6), (0xD8, 0xF6), (0xF8, 0x2FF), (0x370, 0x37D), (0x37F, 0x1FFF), (0x200C, 0x200D),
    (0x2070, 0x218F), (0x2C00, 0x2FEF), (0x3001, 0xD7FF), (0xF900, 0xFDCF), (0xFDF0, 0xFFFD),
    (0x10000, 0xEFFFF)]

/-- The ranges of characters beyond ASCII that may go on in a name, besides those that begin one.
-/
def innerRanges : List (Nat × Nat) := [(0xB7, 0xB7), (0x300, 0x36F), (0x203F, 0x2040)]

/-- Whether a character lies in one of some ranges. -/
def inRanges (ranges : List (Nat × Nat)) (c : Char) : Bool :=
  ranges.any fun r => r.1 ≤ c.toNat && c.toNat ≤ r.2

/-- Whether a character may begin a name. -/
def isNameStart (c : Char) : Bool :=
  c.isAlpha || c == ':' || c == '_' || inRanges nameRanges c

/-- Whether a character may stand in a name. -/
def isNameChar (c : Char) : Bool :=
  isNameStart c || c.isDigit || c == '-' || c == '.' || inRanges innerRanges c

/-- Whether characters are a name. -/
def isName : List Char → Bool
  | [] => false
  | c :: rest => isNameStart c && rest.all isNameChar

/-- A text that is a name. -/
def IsName (s : String) : Prop := isName s.toList = true

/-- Whether a text is a name can be computed. -/
instance (s : String) : Decidable (IsName s) := inferInstanceAs (Decidable (_ = true))

/-- The first character of a name is one of its characters. -/
theorem isNameChar_of_start {c : Char} (h : isNameStart c = true) : isNameChar c = true := by
  unfold isNameChar
  rw [h]
  rfl

/-- Every character of a name may stand in one. -/
theorem isNameChar_of_mem {cs : List Char} (h : isName cs = true) {c : Char} (hc : c ∈ cs) :
    isNameChar c = true := by
  cases cs with
  | nil => cases hc
  | cons first rest =>
      simp only [isName, Bool.and_eq_true, List.all_eq_true] at h
      rcases List.mem_cons.1 hc with rfl | hc
      · exact isNameChar_of_start h.1
      · exact h.2 c hc

/-- A name before a name is a name: what begins the second may stand inside of the first. -/
theorem isName_append {a b : List Char} (ha : isName a = true) (hb : isName b = true) :
    isName (a ++ b) = true := by
  cases a with
  | nil => cases ha
  | cons first rest =>
      simp only [isName, Bool.and_eq_true, List.all_eq_true] at ha
      simp only [List.cons_append, isName, Bool.and_eq_true, List.all_eq_true, List.mem_append]
      refine ⟨ha.1, fun c hc => ?_⟩
      rcases hc with hc | hc
      · exact ha.2 c hc
      · exact isNameChar_of_mem hb hc

/-- Names one after the other are a name, so a name can be qualified. -/
theorem IsName.append {a b : String} (ha : IsName a) (hb : IsName b) : IsName (a ++ b) := by
  unfold IsName at ha hb ⊢
  rw [String.toList_append]
  exact isName_append ha hb

/-! ### Values -/

/-- Whether a character may stand in a value between double quotes. -/
def isPlain (c : Char) : Bool := c != '"' && c != '<' && c != '&'

/-- A text that may stand as the value of an attribute between double quotes. -/
def Plain (s : String) : Prop := ∀ c ∈ s.toList, isPlain c = true

/-- Whether a value needs no escape can be computed. -/
instance (s : String) : Decidable (Plain s) :=
  decidable_of_iff (s.toList.all isPlain = true) List.all_eq_true

/-! ### Tags -/

/-- The sorts of tags. -/
inductive Form
  | start | single | ending
deriving DecidableEq, Repr

/-- A tag that was read. An end tag has no attributes. -/
structure Tag where
  form : Form
  name : String
  attributes : List Attribute
deriving DecidableEq, Repr

/-- What the scanner is in the middle of. -/
inductive Mode
  /-- Between tags. -/
  | content
  /-- After the character that begins a tag. -/
  | opened
  /-- In the declaration, after a question mark or not. -/
  | declaration (asked : Bool)
  /-- In what begins a CDATA section. -/
  | marked (seen : List Char)
  /-- In a CDATA section, after a number of closing brackets. -/
  | cdata (brackets : Nat)
  | startName (name : List Char)
  /-- After a blank in a start tag. -/
  | inTag (name : String) (attributes : List Attribute)
  | key (name : String) (attributes : List Attribute) (key : List Char)
  /-- Between a key and the quote before its value. -/
  | equals (name : String) (attributes : List Attribute) (key : String)
  | value (name : String) (attributes : List Attribute) (key : String) (quote : Char)
    (value : List Char)
  /-- After the quote that ends a value. -/
  | afterValue (name : String) (attributes : List Attribute)
  /-- After the slash of a tag without content. -/
  | slash (name : String) (attributes : List Attribute)
  | endName (name : List Char)
deriving DecidableEq, Repr

/-- What stands between `<!` and the text of a section. -/
def sectionWord : List Char := "[CDATA[".toList

/-- Whether a character is white space. -/
def isBlank (c : Char) : Bool := c == ' ' || c == '\n' || c == '\t' || c == '\r'

/-- What follows the name or a value in a start tag: the end of the tag, or a blank. -/
def leave (name : String) (attributes : List Attribute) (c : Char) : Option (Mode × List Tag) :=
  if c = '>' then some (.content, [⟨.start, name, attributes⟩])
  else if c = '/' then some (.slash name attributes, [])
  else if isBlank c then some (.inTag name attributes, [])
  else none

/-- Takes one character, and gives the tag that it completes, if it completes one. -/
def feed (c : Char) : Mode → Option (Mode × List Tag)
  | .content =>
    if c = '<' then some (.opened, []) else if c = '&' then none else some (.content, [])
  | .opened =>
    if c = '/' then some (.endName [], [])
    else if c = '?' then some (.declaration false, [])
    else if c = '!' then some (.marked [], [])
    else if isNameStart c then some (.startName [c], [])
    else none
  | .declaration asked =>
    if asked && c == '>' then some (.content, []) else some (.declaration (c == '?'), [])
  | .marked seen =>
    if seen ++ [c] = sectionWord then some (.cdata 0, [])
    else if (seen ++ [c]).isPrefixOf sectionWord then some (.marked (seen ++ [c]), [])
    else none
  | .cdata brackets =>
    if c = ']' then some (.cdata (brackets + 1), [])
    else if c = '>' ∧ 2 ≤ brackets then some (.content, [])
    else some (.cdata 0, [])
  | .startName name =>
    if isNameChar c then some (.startName (name ++ [c]), []) else leave (.ofList name) [] c
  | .inTag name attributes =>
    if isNameStart c then some (.key name attributes [c], []) else leave name attributes c
  | .key name attributes key =>
    if isNameChar c then some (.key name attributes (key ++ [c]), [])
    else if c = '=' then some (.equals name attributes (.ofList key), [])
    else none
  | .equals name attributes key =>
    if c = '"' ∨ c = '\'' then some (.value name attributes key c [], []) else none
  | .value name attributes key quote value =>
    if c = quote then some (.afterValue name (attributes ++ [(key, .ofList value)]), [])
    else if c = '<' ∨ c = '&' then none
    else some (.value name attributes key quote (value ++ [c]), [])
  | .afterValue name attributes => leave name attributes c
  | .slash name attributes =>
    if c = '>' then some (.content, [⟨.single, name, attributes⟩]) else none
  | .endName name =>
    if isNameChar c then
      if name = [] ∧ !isNameStart c then none else some (.endName (name ++ [c]), [])
    else if c = '>' ∧ name ≠ [] then some (.content, [⟨.ending, .ofList name, []⟩])
    else none

/-- Takes characters one after the other, and gives the tags that they complete. -/
def scanFrom : Mode → List Char → Option (Mode × List Tag)
  | m, [] => some (m, [])
  | m, c :: rest => do
    let (next, tags) ← feed c m
    let (last, more) ← scanFrom next rest
    return (last, tags ++ more)

/-- The tags of a text that ends between tags. -/
def tags? (text : String) : Option (List Tag) :=
  match scanFrom .content text.toList with
  | some (.content, tags) => some tags
  | _ => none

/-- The tag that is being read, with the attributes that were read to their ends. There is one as
soon as its name is read to the end. -/
def Mode.tag? : Mode → Option Tag
  | .inTag name attributes | .key name attributes _ | .equals name attributes _
  | .value name attributes _ _ _ | .afterValue name attributes | .slash name attributes =>
    some ⟨.start, name, attributes⟩
  | _ => none

/-- The tags of a text that may break off. A tag in which it breaks off counts with the attributes
that are there to their ends. -/
def begunTags? (text : String) : Option (List Tag) :=
  (scanFrom .content text.toList).map fun read => read.2 ++ read.1.tag?.toList

/-! ### Nesting -/

/-- The names of the elements that are open, the innermost first, and the tags that began the
outermost elements so far. -/
structure Nesting where
  names : List String
  roots : List Tag
deriving DecidableEq, Repr

namespace Nesting

/-- Before the first tag. -/
def empty : Nesting := ⟨[], []⟩

/-- The outermost elements after a tag that begins an element. -/
def rootsWith (n : Nesting) (t : Tag) : List Tag :=
  if n.names.isEmpty then n.roots ++ [t] else n.roots

/-- Takes one tag. An end tag must be that of the innermost open element. -/
def enter (n : Nesting) (t : Tag) : Option Nesting :=
  match t.form, n.names with
  | .start, names => some ⟨t.name :: names, n.rootsWith t⟩
  | .single, names => some ⟨names, n.rootsWith t⟩
  | .ending, name :: names => if name = t.name then some ⟨names, n.roots⟩ else none
  | .ending, [] => none

/-- Takes tags one after the other. -/
def after (n : Nesting) (tags : List Tag) : Option Nesting := tags.foldlM enter n

/-- The first tag is entered before the others. -/
theorem after_cons {n m : Nesting} {t : Tag} (h : n.enter t = some m) (rest : List Tag) :
    n.after (t :: rest) = m.after rest := by
  rw [after, List.foldlM_cons, h]
  rfl

/-- Inside of an element no outermost element begins. -/
theorem rootsWith_inside {n : Nesting} (h : n.names ≠ []) (t : Tag) :
    n.rootsWith t = n.roots := by
  rw [rootsWith, List.isEmpty_eq_false_iff.2 h]
  rfl

/-- Tags are entered part by part. -/
theorem after_append {n m : Nesting} {a : List Tag} (h : n.after a = some m) (b : List Tag) :
    n.after (a ++ b) = m.after b := by
  unfold after at h ⊢
  rw [List.foldlM_append, h]
  rfl

/-- A start tag opens its element inside of the innermost one. -/
theorem enter_start {n : Nesting} (hinside : n.names ≠ []) (name : String)
    (attributes : List Attribute) :
    n.enter ⟨.start, name, attributes⟩ = some ⟨name :: n.names, n.roots⟩ := by
  rw [enter, rootsWith_inside hinside]

/-- An end tag closes the innermost element if it has its name. -/
theorem enter_ending (name : String) (names : List String) (roots : List Tag) :
    enter ⟨name :: names, roots⟩ ⟨.ending, name, []⟩ = some ⟨names, roots⟩ :=
  if_pos rfl

/-- A start tag and its end tag leave the open elements as they are, if the tags between them
leave those and the new one as they are. -/
theorem after_element {n : Nesting} (hinside : n.names ≠ []) {name : String}
    (attributes : List Attribute) {tags : List Tag}
    (htags : ∀ m : Nesting, m.names ≠ [] → m.after tags = some m) :
    n.after (⟨.start, name, attributes⟩ :: (tags ++ [⟨.ending, name, []⟩])) = some n := by
  rw [after_cons (enter_start hinside name attributes),
    after_append (htags _ (List.cons_ne_nil _ _)), after_cons (enter_ending name n.names n.roots)]
  rfl

/-- A tag without content leaves the open elements as they are. -/
theorem after_single {n : Nesting} (hinside : n.names ≠ []) (name : String)
    (attributes : List Attribute) : n.after [⟨.single, name, attributes⟩] = some n := by
  have hentered : n.enter ⟨.single, name, attributes⟩ = some n := by
    rw [enter, rootsWith_inside hinside]
  rw [after_cons hentered]
  rfl

/-- Parts that leave the open elements as they are do so one after the other. -/
theorem after_flatMap {α : Type} {n : Nesting} {tags : α → List Tag} {xs : List α}
    (h : ∀ x ∈ xs, n.after (tags x) = some n) : n.after (xs.flatMap tags) = some n := by
  induction xs with
  | nil => rfl
  | cons x rest ih =>
      rw [List.flatMap_cons, after_append (h x List.mem_cons_self)]
      exact ih fun y hy => h y (List.mem_cons_of_mem x hy)

end Nesting

/-- The tags that begin the outermost elements, if every element is closed in order. -/
def outermost (tags : List Tag) : Option (List Tag) :=
  match Nesting.empty.after tags with
  | some ⟨[], roots⟩ => some roots
  | _ => none

/-- A text that is a document: its tags can be read, no tag has an attribute twice, and all
elements nest inside of one, which begins with the tag `root`. -/
def WellFormed (text : String) (root : Tag) : Prop :=
  ∃ tags, tags? text = some tags ∧ (∀ t ∈ tags, (t.attributes.map Prod.fst).Nodup) ∧
    outermost tags = some [root]

/-! ### Scanning in parts -/

/-- From one mode the scanner comes to another by reading a text, and reads these tags. -/
def Scans (m : Mode) (cs : List Char) (last : Mode) (tags : List Tag) : Prop :=
  scanFrom m cs = some (last, tags)

namespace Scans

variable {m k last : Mode} {a b : List Char} {s t : List Tag} {c : Char}

/-- Without characters the scanner stays in its mode. -/
theorem nil (m : Mode) : Scans m [] m [] := rfl

/-- The scanner reads one character and then the others. The tags that the first completes come
before the rest. -/
theorem cons (h : feed c m = some (k, s)) (hrest : Scans k b last t) :
    Scans m (c :: b) last (s ++ t) := by
  unfold Scans at hrest ⊢
  simp only [scanFrom, h, hrest, Option.bind_eq_bind, Option.bind_some]
  rfl

/-- Most characters complete no tag. -/
theorem cons_quiet (h : feed c m = some (k, [])) (hrest : Scans k b last t) :
    Scans m (c :: b) last t :=
  cons h hrest

/-- Reading one character is one step of the scanner. -/
theorem single (h : feed c m = some (k, s)) : Scans m [c] k s := by
  have hread := cons h (nil k)
  rwa [List.append_nil] at hread

/-- A text is read part by part, and its tags are those of the parts in their order. -/
theorem append (h : Scans m a k s) (hrest : Scans k b last t) :
    Scans m (a ++ b) last (s ++ t) := by
  induction a generalizing m s with
  | nil =>
      obtain ⟨rfl, rfl⟩ := Prod.mk.inj (Option.some.inj h)
      exact hrest
  | cons c rest ih =>
      unfold Scans at h
      simp only [scanFrom, Option.bind_eq_bind] at h
      -- the tags of the first character come before those of the rest of the first text
      obtain ⟨⟨next, first⟩, hfeed, h⟩ := Option.bind_eq_some_iff.1 h
      obtain ⟨⟨final, more⟩, hscan, h⟩ := Option.bind_eq_some_iff.1 h
      obtain ⟨rfl, rfl⟩ := Prod.mk.inj (Option.some.inj h)
      rw [List.append_assoc]
      exact cons hfeed (ih hscan)

/-- Characters that are gathered one after the other are gathered all. -/
theorem gather (mode : List Char → Mode) {cs : List Char}
    (h : ∀ c ∈ cs, ∀ seen, feed c (mode seen) = some (mode (seen ++ [c]), []))
    (seen : List Char) :
    Scans (mode seen) cs (mode (seen ++ cs)) [] := by
  induction cs generalizing seen with
  | nil =>
      rw [List.append_nil]
      exact nil _
  | cons c rest ih =>
      have hrest := ih (fun d hd => h d (List.mem_cons_of_mem c hd)) (seen ++ [c])
      rw [List.append_assoc] at hrest
      exact cons_quiet (h c List.mem_cons_self seen) hrest

/-- Texts that are read between tags are read one after the other. -/
theorem flatMap {α : Type} {text : α → List Char} {tags : α → List Tag} {xs : List α}
    (h : ∀ x ∈ xs, Scans .content (text x) .content (tags x)) :
    Scans .content (xs.flatMap text) .content (xs.flatMap tags) := by
  induction xs with
  | nil => exact nil _
  | cons x rest ih =>
      rw [List.flatMap_cons, List.flatMap_cons]
      exact (h x List.mem_cons_self).append (ih fun y hy => h y (List.mem_cons_of_mem x hy))

end Scans

/-! ### Start tags -/

/-- The mode after the attributes of a start tag. -/
def Mode.head (name : String) (attributes : List Attribute) : Mode :=
  if attributes.isEmpty then .startName name.toList else .afterValue name attributes

/-- What leaves a start tag is no character of a name. -/
theorem feed_head {c : Char} (h : isNameChar c = false) (name : String)
    (attributes : List Attribute) : feed c (.head name attributes) = leave name attributes c := by
  cases attributes with
  | nil =>
      show feed c (.startName name.toList) = _
      rw [feed, h, String.ofList_toList]
      rfl
  | cons first rest => rfl

/-- A tag begins with its name, which ends before anything that is no character of a name. -/
theorem scans_open {name : String} (h : IsName name) :
    Scans .content ('<' :: name.toList) (.head name []) [] := by
  show Scans .content ('<' :: name.toList) (.startName name.toList) []
  unfold IsName at h
  generalize name.toList = cs at h ⊢
  refine .cons_quiet rfl ?_
  cases cs with
  | nil => cases h
  | cons c rest =>
      simp only [isName, Bool.and_eq_true, List.all_eq_true] at h
      have hrest : Scans (.startName [c]) rest (.startName ([c] ++ rest)) [] :=
        .gather .startName (fun d hd seen => by rw [feed, if_pos (h.2 d hd)]) [c]
      refine .cons_quiet ?_ hrest
      -- a character that begins a name is none of those that begin another sort of tag
      have hslash : c ≠ '/' := by rintro rfl; exact absurd h.1 (by decide)
      have hquestion : c ≠ '?' := by rintro rfl; exact absurd h.1 (by decide)
      have hmark : c ≠ '!' := by rintro rfl; exact absurd h.1 (by decide)
      rw [feed, if_neg hslash, if_neg hquestion, if_neg hmark, if_pos h.1]

/-- After a blank in a start tag, a name is the key of an attribute. -/
private theorem scans_key {key : String} (h : IsName key) (name : String)
    (attributes : List Attribute) :
    Scans (.inTag name attributes) key.toList (.key name attributes key.toList) [] := by
  unfold IsName at h
  generalize key.toList = cs at h ⊢
  cases cs with
  | nil => cases h
  | cons c rest =>
      simp only [isName, Bool.and_eq_true, List.all_eq_true] at h
      have hfirst : feed c (.inTag name attributes) = some (.key name attributes [c], []) := by
        rw [feed, if_pos h.1]
      exact .cons_quiet hfirst
        (.gather (.key name attributes) (fun d hd seen => by rw [feed, if_pos (h.2 d hd)]) [c])

/-- Between double quotes, plain characters are gathered to a value. -/
private theorem scans_value {value : String} (h : Plain value) (name : String)
    (attributes : List Attribute) (key : String) :
    Scans (.value name attributes key '"' []) value.toList
      (.value name attributes key '"' value.toList) [] := by
  refine .gather (.value name attributes key '"') (fun c hc seen => ?_) []
  have hplain := h c hc
  simp only [isPlain, Bool.and_eq_true, bne_iff_ne] at hplain
  rw [feed, if_neg hplain.1.1, if_neg (not_or.2 ⟨hplain.1.2, hplain.2⟩)]

/-- An attribute with the blank before it. -/
def Attribute.spaced (a : Attribute) : String := " " ++ (a.1 ++ ("=\"" ++ (a.2 ++ "\"")))

/-- An attribute that breaks off before the quote after its value is read up to there. -/
theorem scans_broken {key value : String} (hname : IsName key) (hplain : Plain value)
    (name : String) (attributes : List Attribute) :
    Scans (.head name attributes) (" " ++ (key ++ ("=\"" ++ value))).toList
      (.value name attributes key '"' value.toList) [] := by
  simp only [String.toList_append]
  -- the blank, the key, the sign and the quote, and the value
  have hblank : feed ' ' (.head name attributes) = some (.inTag name attributes, []) :=
    feed_head (by decide) name attributes
  refine .cons_quiet hblank ?_
  rw [show ("=\"" : String).toList = ['=', '"'] from rfl]
  have hequals : feed '=' (.key name attributes key.toList) =
      some (.equals name attributes key, []) := by
    rw [feed, if_neg (by decide), if_pos rfl, String.ofList_toList]
  have hquote : feed '"' (.equals name attributes key) =
      some (.value name attributes key '"' [], []) := rfl
  exact (scans_key hname name attributes).append (.cons_quiet hequals (.cons_quiet hquote
    (scans_value hplain name attributes key)))

/-- An attribute that is written with a blank before it is read, and comes behind those that were
read before. -/
theorem scans_attribute {a : Attribute} (hname : IsName a.1) (hplain : Plain a.2) (name : String)
    (attributes : List Attribute) :
    Scans (.head name attributes) a.spaced.toList (.head name (attributes ++ [a])) [] := by
  obtain ⟨key, value⟩ := a
  have hlast : Mode.head name (attributes ++ [(key, value)]) =
      .afterValue name (attributes ++ [(key, value)]) := by
    unfold Mode.head
    rw [if_neg (by simp)]
  have hspaced : Attribute.spaced (key, value) = " " ++ (key ++ ("=\"" ++ value)) ++ "\"" := by
    simp only [Attribute.spaced, String.append_assoc]
  rw [hlast, hspaced, String.toList_append]
  have hclosed : feed '"' (.value name attributes key '"' value.toList) =
      some (.afterValue name (attributes ++ [(key, value)]), []) := by
    rw [feed, if_pos rfl, String.ofList_toList]
  exact (scans_broken hname hplain name attributes).append (.single hclosed)

/-- Attributes with the blanks before them. -/
def spacedText (attributes : List Attribute) : String :=
  String.join (attributes.map Attribute.spaced)

/-- The first attribute is written before the others. -/
theorem spacedText_cons (a : Attribute) (rest : List Attribute) :
    spacedText (a :: rest) = a.spaced ++ spacedText rest := by
  rw [spacedText, List.map_cons, String.join_cons]
  rfl

/-- Attributes are read one after the other. -/
theorem scans_attributes {attributes : List Attribute}
    (h : ∀ a ∈ attributes, IsName a.1 ∧ Plain a.2) (name : String) (seen : List Attribute) :
    Scans (.head name seen) (spacedText attributes).toList
      (.head name (seen ++ attributes)) [] := by
  induction attributes generalizing seen with
  | nil => rw [List.append_nil]; exact .nil _
  | cons a rest ih =>
      obtain ⟨hname, hplain⟩ := h a List.mem_cons_self
      have hrest := ih (fun b hb => h b (List.mem_cons_of_mem a hb)) (seen ++ [a])
      rw [List.append_assoc] at hrest
      rw [spacedText_cons, String.toList_append]
      exact (scans_attribute hname hplain name seen).append hrest

/-! ### End tags and sections -/

/-- An end tag is read to its end. -/
theorem scans_ending {name : String} (h : IsName name) :
    Scans .content ("</" ++ name ++ ">").toList .content [⟨.ending, name, []⟩] := by
  rw [String.toList_append, String.toList_append]
  refine .cons_quiet rfl (.cons_quiet rfl ?_)
  rw [← String.ofList_toList (s := name)]
  unfold IsName at h
  generalize name.toList = cs at h ⊢
  rw [String.toList_ofList]
  cases cs with
  | nil => cases h
  | cons c rest =>
      simp only [isName, Bool.and_eq_true, List.all_eq_true] at h
      have hfirst : feed c (.endName []) = some (.endName [c], []) := by
        rw [feed, if_pos (isNameChar_of_start h.1), if_neg (by rw [h.1]; simp)]
        rfl
      -- after the first character the name is not empty, whatever is gathered
      have hrest : Scans (.endName [c]) rest (.endName (c :: rest)) [] := by
        refine .gather (fun seen => .endName (c :: seen)) (fun d hd seen => ?_) []
        rw [feed, if_pos (h.2 d hd), if_neg (fun hnil => List.cons_ne_nil c seen hnil.1)]
        rfl
      refine .cons_quiet hfirst (hrest.append (.single ?_))
      rw [feed, if_neg (by decide), if_pos ⟨rfl, List.cons_ne_nil c rest⟩]

/-- Whether a text, after a number of closing brackets, does not go on with the rest of a
terminator. A whole terminator may follow, because it is divided. -/
def EndsNoSection (brackets : Nat) : List Char → Prop
  | '>' :: _ => brackets < 2
  | ']' :: '>' :: _ => brackets < 1
  | _ => True

/-- A divided text never ends its section. -/
private theorem scans_split (cs : List Char) (brackets : Nat) (h : EndsNoSection brackets cs) :
    ∃ more, Scans (.cdata brackets) (Text.Cdata.split cs) (.cdata more) [] := by
  fun_induction Text.Cdata.split cs generalizing brackets with
  | case1 rest ih =>
      -- the terminator ends the section and begins a new one
      have hfresh : EndsNoSection 0 rest := by
        unfold EndsNoSection
        split <;> simp
      obtain ⟨more, hrest⟩ := ih 0 hfresh
      refine ⟨more, ?_⟩
      have hdivided : Scans (.cdata brackets) "]]]]><![CDATA[>".toList (.cdata 0) [] := by
        have hended : feed '>' (.cdata (brackets + 4)) = some (.content, []) := by
          rw [feed, if_neg (by decide), if_pos ⟨rfl, by omega⟩]
        have hbegun : Scans .content "<![CDATA[>".toList (.cdata 0) [] := rfl
        exact .cons_quiet rfl (.cons_quiet rfl (.cons_quiet rfl (.cons_quiet rfl
          (.cons_quiet hended hbegun))))
      exact hdivided.append hrest
  | case2 c rest hsplit ih =>
      -- a closing bracket counts towards a terminator, and every other character begins anew
      by_cases hbracket : c = ']'
      · subst hbracket
        have hnext : EndsNoSection (brackets + 1) rest := by
          unfold EndsNoSection
          split
          · exact Nat.succ_lt_succ h
          · exact absurd rfl (hsplit _ rfl)
          · trivial
        obtain ⟨more, hrest⟩ := ih (brackets + 1) hnext
        exact ⟨more, .cons_quiet rfl hrest⟩
      · obtain ⟨more, hrest⟩ := ih 0 (by unfold EndsNoSection; split <;> simp)
        refine ⟨more, .cons_quiet ?_ hrest⟩
        rw [feed, if_neg hbracket, if_neg]
        rintro ⟨rfl, htwo⟩
        exact absurd h (Nat.not_lt.2 htwo)
  | case3 => exact ⟨brackets, .nil _⟩

/-- The sections of a text are read, and no tag is found in them. -/
theorem scans_enclose (text : String) :
    Scans .content (Text.Cdata.enclose text).toList .content [] := by
  -- the text may end with closing brackets, and the terminator of the section follows them
  obtain ⟨more, hsplit⟩ := scans_split text.toList 0 (by unfold EndsNoSection; split <;> simp)
  have hopening : Scans .content Text.Cdata.opening (.cdata 0) [] := rfl
  have hclosing : Scans (.cdata more) Text.Cdata.closing .content [] := by
    refine .cons_quiet rfl (.cons_quiet rfl (.single ?_))
    rw [feed, if_neg (by decide), if_pos ⟨rfl, by omega⟩]
  rw [Text.Cdata.enclose, String.toList_ofList]
  exact (hopening.append hsplit).append hclosing

end Metafile.Markup
