import Metafile.Fault
import Metafile.Options.Json

/-!
# `Metafile.Options.Basic`: the options of a conversion

A size of zero means that the size follows from the bounds of the picture. Options are read from
JSON text: an object whose members are options, or an array that lists them in the order of
`Key.all`. What is not mentioned keeps its initial value. A member with an unknown key is ignored.
An option that is set twice, or set to a value of the wrong kind, makes the text unusable.
-/

set_option autoImplicit false

namespace Metafile

/-- The options of a conversion. -/
structure Options where
  /-- The namespace of the names of elements. -/
  namespaceName : Option String
  /-- Whether every record is listed in the log. -/
  verbose : Bool
  /-- Whether EMF+ records are drawn. -/
  plus : Bool
  /-- Whether the document has a declaration and a root element. -/
  delimited : Bool
  /-- The width that is asked for. -/
  width : Float
  /-- The height that is asked for. -/
  height : Float
deriving Repr, Inhabited

namespace Options

/-- The options that hold where nothing else is said. -/
def initial : Options := ⟨none, false, true, true, 0.0, 0.0⟩

/-- Sets the namespace. The empty name stands for none. -/
def withNamespace (name : String) (o : Options) : Options :=
  { o with namespaceName := if name.isEmpty then none else some name }

/-- Sets the size that is asked for. -/
def withSize (width height : Float) (o : Options) : Options :=
  { o with width, height }

/-- What goes before the name of an element: the namespace and a colon, or nothing. -/
def qualifier (o : Options) : String :=
  o.namespaceName.elim "" (· ++ ":")

/-- The options that can be read from a text. -/
inductive Key
  | namespaceName | verbose | plus | delimited | width | height
deriving DecidableEq, Repr

namespace Key

/-- The keys in the order in which an array lists their values. -/
def all : List Key := [.namespaceName, .verbose, .plus, .delimited, .width, .height]

/-- The word for a key in a text. -/
def word : Key → String
  | .namespaceName => "namespace"
  | .verbose => "verbose"
  | .plus => "emfplus"
  | .delimited => "svg_delimiter"
  | .width => "image_width"
  | .height => "image_height"

/-- The key with this word, if there is one. -/
def ofWord? (word : String) : Option Key :=
  all.find? fun k => k.word == word

end Key

/-- Sets an option to a value, if the value is of the right kind. -/
def set? (o : Options) : Key → Json.Value → Option Options
  | .namespaceName, .null => some { o with namespaceName := none }
  | .namespaceName, .string parts =>
    (Json.textOf? parts).map fun t => { o with namespaceName := some t }
  | .verbose, .bool b => some { o with verbose := b }
  | .plus, .bool b => some { o with plus := b }
  | .delimited, .bool b => some { o with delimited := b }
  | .width, .number n => n.float?.map fun f => { o with width := f }
  | .height, .number n => n.float?.map fun f => { o with height := f }
  | _, _ => none

/-- Sets the options of the members of an object. The keys that were set before are known. -/
def ofMembers? (o : Options) (known : List Key) :
    List (List Json.Part × Json.Value) → Option Options
  | [] => some o
  | (word, value) :: rest => do
    match Key.ofWord? (← Json.textOf? word) with
    | none => ofMembers? o known rest
    | some k =>
      if known.contains k then none
      ofMembers? (← o.set? k value) (k :: known) rest

/-- Sets options to the values of an array. -/
def ofValues? (o : Options) : List Key → List Json.Value → Option Options
  | _, [] => some o
  | [], _ :: _ => none
  | k :: keys, v :: values => do ofValues? (← o.set? k v) keys values

/-- The options that a text describes. -/
def ofText (text : String) : Except Fault Options :=
  let read : Option Options :=
    match Json.Value.ofText? text with
    | some (.object members) => initial.ofMembers? [] members
    | some (.array values) => initial.ofValues? Key.all values
    | _ => none
  match read with
  | some o => .ok o
  | none => .error .badOptions

end Options

end Metafile
