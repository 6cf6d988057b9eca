import ProtoSchema.Position
import ProtoSchema.Text.Basic

/-!
# Declarations of a schema file

What one schema file declares, before any name in it is resolved. Type references are kept as they
are written, and every declaration remembers the place of its name.
-/

namespace ProtoSchema

/-- The two dialects of the schema language. -/
inductive Dialect
  | proto2
  | proto3
  deriving DecidableEq, Repr

/-- How a schema names its dialect. -/
def Dialect.name : Dialect → String
  | proto2 => "proto2"
  | proto3 => "proto3"

/-- The dialect with a name. -/
def Dialect.ofName? (name : Text) : Option Dialect :=
  [proto2, proto3].find? fun d => Text.ofString d.name == name

/-- A name, possibly dotted, and where its first word stands. -/
structure Ident where
  text : String
  position : Position
  deriving DecidableEq, Repr

/-! ## Options -/

/-- The value of an option. Lists occur inside aggregates only; an aggregate keeps its entries in
the order of their first mention. -/
inductive Value
  | int (i : Int)
  | float (x : Float)
  | ident (name : String)
  | string (text : Text)
  | aggregate (entries : List (String × Value))
  | list (items : List Value)

instance : Inhabited Value := ⟨.list []⟩

/-- A value and where it is written; an aggregate has no place of its own. -/
structure Constant where
  value : Value
  position : Option Position

/-- An option and its value. -/
structure OptionDecl where
  name : String
  value : Constant
  position : Position

/-- Adds an entry to an aggregate. A key that occurs again collects its values in a list; a list
that is already there, also one written in brackets, is extended. -/
def Value.insertEntry (entries : List (String × Value)) (key : String) (value : Value) :
    List (String × Value) :=
  match entries with
  | [] => [(key, value)]
  | (k, v) :: rest =>
    if k = key then
      match v with
      | .list items => (k, .list (items ++ [value])) :: rest
      | v => (k, .list [v, value]) :: rest
    else (k, v) :: Value.insertEntry rest key value

/-! ## Fields -/

/-- The label of a field. -/
inductive Label
  | optional
  | required
  | repeated
  deriving DecidableEq, Repr

/-- How a label is written. -/
def Label.name : Label → String
  | optional => "optional"
  | required => "required"
  | repeated => "repeated"

/-- What a field holds: a value of a named type, a group (a field and a message declared at once),
or a map from a key type to a value type. -/
inductive FieldShape
  | named (type : String) (position : Option Position)
  | group (type : String)
  | map (key value : String) (valuePosition : Position)
  deriving DecidableEq, Repr

/-- A field of a message or of an extend block. -/
structure FieldDecl where
  name : String
  number : Nat
  shape : FieldShape
  label : Option Label
  options : List OptionDecl
  oneof : Option String
  position : Position

namespace FieldDecl

/-- The type reference of a field that is not a map. -/
def typeName (f : FieldDecl) : String :=
  match f.shape with
  | .named type _ | .group type => type
  | .map .. => ""

/-- Where the type reference is written, or else where the field is named. -/
def typePosition (f : FieldDecl) : Position :=
  match f.shape with
  | .named _ (some p) | .map _ _ p => p
  | .named _ none | .group _ => f.position

/-- Whether a field is a group. -/
def isGroup (f : FieldDecl) : Bool :=
  match f.shape with
  | .group _ => true
  | _ => false

/-- The first option of a name. -/
def option? (f : FieldDecl) (name : String) : Option OptionDecl :=
  f.options.find? (·.name == name)

end FieldDecl

/-- A range of numbers, without an upper end if it reaches to the maximum. -/
structure NumberRange where
  first : Int
  last : Option Int
  deriving DecidableEq, Repr

/-- Whether a number lies in one of the ranges, where `max` is the maximum. -/
def NumberRange.anyContains (ranges : List NumberRange) (max number : Int) : Bool :=
  ranges.any fun r => r.first ≤ number ∧ number ≤ r.last.getD max

/-! ## Other declarations -/

/-- A value of an enum. -/
structure EnumValueDecl where
  name : String
  number : Int
  options : List OptionDecl
  position : Position

/-- An enum. -/
structure EnumDecl where
  name : String
  values : List EnumValueDecl
  options : List OptionDecl
  reservedRanges : List NumberRange
  reservedNames : List Text
  position : Position

/-- A block of extension fields for one message. -/
structure ExtendDecl where
  extendee : String
  fields : List FieldDecl
  position : Position

/-- A message. Its fields are in the order of their declaration, those of oneofs included. -/
structure MessageDecl where
  name : String
  fields : List FieldDecl
  messages : List MessageDecl
  enums : List EnumDecl
  extendBlocks : List ExtendDecl
  oneofs : List String
  options : List OptionDecl
  extensionRanges : List NumberRange
  reservedRanges : List NumberRange
  reservedNames : List Text
  position : Position

/-- A method of a service. -/
structure MethodDecl where
  name : String
  inputType : String
  outputType : String
  clientStreaming : Bool
  serverStreaming : Bool
  options : List OptionDecl
  position : Position

/-- A service. -/
structure ServiceDecl where
  name : String
  methods : List MethodDecl
  options : List OptionDecl
  position : Position

/-- How an import is marked. -/
inductive ImportModifier
  | asPublic
  | asWeak
  deriving DecidableEq, Repr

/-- How a modifier is written. -/
def ImportModifier.name : ImportModifier → String
  | asPublic => "public"
  | asWeak => "weak"

/-- An import of another file. -/
structure ImportDecl where
  path : Text
  modifier : Option ImportModifier
  position : Position
  deriving DecidableEq, Repr

/-- Everything that a schema file declares. -/
structure SchemaFile where
  name : Text
  dialect : Dialect
  package : Option String
  imports : List ImportDecl
  messages : List MessageDecl
  enums : List EnumDecl
  services : List ServiceDecl
  extendBlocks : List ExtendDecl
  options : List OptionDecl

end ProtoSchema
