import Metafile.Decimal.Shortest

/-!
# `Metafile.Markup.Element`: self-contained elements

Definitions, pictures and EMF+ shapes are built as elements: a name, attributes and children. The
attributes of an element are kept in the order of their keys, and a key is set at most once, the
last value counting. Values are written between double quotes. A value that holds a double quote
is written between single quotes, and one that holds both is left out.

`Attribute.sorted_insert` states that attributes stay sorted, and so no key stands twice.
-/

set_option autoImplicit false

namespace Metafile.Markup

/-- A key and its value. -/
abbrev Attribute := String × String

/-- An element with its attributes and children. -/
inductive Element where
  | mk (name : String) (attributes : List Attribute) (children : List Element)
deriving Repr, Inhabited

namespace Attribute

/-- Puts an attribute in its place among attributes that are sorted by key. It takes the place of
one with the same key. -/
def insert (key value : String) : List Attribute → List Attribute
  | [] => [(key, value)]
  | (k, v) :: rest =>
    if key < k then (key, value) :: (k, v) :: rest
    else if key = k then (key, value) :: rest
    else (k, v) :: insert key value rest

/-- The keys after an insertion are the old keys and the new one. -/
theorem mem_keys_insert (key value k : String) (attributes : List Attribute) :
    k ∈ (insert key value attributes).map Prod.fst ↔
      k = key ∨ k ∈ attributes.map Prod.fst := by
  induction attributes with
  | nil => simp [insert]
  | cons a rest ih =>
    obtain ⟨k', v'⟩ := a
    unfold insert
    split
    · simp
    · split
      · subst_vars; simp
      · simp only [List.map_cons, List.mem_cons, ih]
        exact or_left_comm

/-- An insertion keeps the keys in strict order. -/
theorem sorted_insert (key value : String) (attributes : List Attribute)
    (h : (attributes.map Prod.fst).Pairwise (· < ·)) :
    ((insert key value attributes).map Prod.fst).Pairwise (· < ·) := by
  induction attributes with
  | nil => simp [insert]
  | cons a rest ih =>
    obtain ⟨k', v'⟩ := a
    simp only [List.map_cons, List.pairwise_cons] at h
    unfold insert
    split
    · rename_i hlt
      simp only [List.map_cons, List.pairwise_cons, List.mem_cons, forall_eq_or_imp]
      exact ⟨⟨hlt, fun k hk => String.lt_trans hlt (h.1 k hk)⟩, h⟩
    · split
      · subst_vars
        simpa only [List.map_cons, List.pairwise_cons] using h
      · rename_i hlt hne
        simp only [List.map_cons, List.pairwise_cons]
        refine ⟨fun k hk => ?_, ih h.2⟩
        rcases (mem_keys_insert key value k rest).1 hk with rfl | hk
        · exact String.not_le.1 fun hle => hne (String.le_antisymm hle (String.not_lt.1 hlt))
        · exact h.1 k hk

/-- An attribute that is there on a condition. -/
def onlyIf (condition : Bool) (key value : String) : List Attribute :=
  if condition then [(key, value)] else []

/-- An attribute that is there if it has a value. -/
def ofValue? (key : String) (value : Option String) : List Attribute :=
  value.elim [] fun v => [(key, v)]

/-- The quote around a value, if there is one that the value does not hold. -/
def quote? (value : String) : Option Char :=
  if !value.contains '"' then some '"'
  else if !value.contains '\'' then some '\''
  else none

/-- An attribute inside a start tag, with the blank before it. -/
def text (a : Attribute) : String :=
  match quote? a.2 with
  | some q => " " ++ a.1 ++ "=" ++ q.toString ++ a.2 ++ q.toString
  | none => ""

end Attribute

namespace Element

/-- The name of an element. -/
def name : Element → String
  | mk name _ _ => name

/-- The attributes of an element, in the order of their keys. -/
def attributes : Element → List Attribute
  | mk _ attributes _ => attributes

/-- The children of an element. -/
def children : Element → List Element
  | mk _ _ children => children

/-- An element with nothing in it. -/
def named (name : String) : Element := mk name [] []

/-- Sets an attribute to a text. -/
def set (key value : String) : Element → Element
  | mk name attributes children => mk name (Attribute.insert key value attributes) children

/-- Sets an attribute to a number, written in full. -/
def setFloat (key : String) (value : Float) (e : Element) : Element :=
  e.set key (Decimal.Shortest.text value)

/-- Sets an attribute if there is a value for it. -/
def setSome (key : String) (value : Option String) (e : Element) : Element :=
  match value with
  | some v => e.set key v
  | none => e

/-- Adds a child after the others. -/
def push : Element → Element → Element
  | mk name attributes children, child => mk name attributes (children ++ [child])

/-- An element as text. The names of elements get the qualifier before them. An element without
children is one tag. Otherwise every child and the end tag start a new line. -/
def text (qualifier : String) : Element → String
  | mk name attributes children =>
    let tag := qualifier ++ name
    let head := "<" ++ tag ++ String.join (attributes.map Attribute.text)
    match children with
    | [] => head ++ "/>"
    | first :: rest =>
      head ++ ">" ++ texts qualifier (first :: rest) ++ "\n</" ++ tag ++ ">"
where
  /-- Elements as text, each on a new line. -/
  texts (qualifier : String) : List Element → String
    | [] => ""
    | e :: rest => "\n" ++ text qualifier e ++ texts qualifier rest

end Element

end Metafile.Markup
