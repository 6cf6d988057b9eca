import ProtoSchema.Descriptor.FieldType
import ProtoSchema.Schema.Basic

/-!
# Descriptors

What linking leaves of the declarations: one record for each message, field, enum, enum value and
method, kept in an arena for its kind. Records refer to each other by their places in the arenas.
-/

namespace ProtoSchema

/-! ## Indexes

An index leads from the keys of some records to the places of the records in their arena. Its keys
are in the order of their first mention. -/

/-- A finite map from keys to places. -/
structure Index (κ : Type) where
  entries : List (κ × Nat)
  deriving DecidableEq, Repr

namespace Index

variable {κ : Type} [DecidableEq κ]

/-- The place of a key. -/
def find? (index : Index κ) (key : κ) : Option Nat :=
  (index.entries.find? (·.1 = key)).map Prod.snd

/-- Leads a key to a place, also if it led elsewhere before. -/
def set (index : Index κ) (key : κ) (place : Nat) : Index κ :=
  ⟨go index.entries⟩
where
  go : List (κ × Nat) → List (κ × Nat)
    | [] => [(key, place)]
    | e :: es => if e.1 = key then (key, place) :: es else e :: go es

/-- Leads a key to a place, unless it leads somewhere already. -/
def setNew (index : Index κ) (key : κ) (place : Nat) : Index κ :=
  match index.find? key with
  | none => ⟨index.entries ++ [(key, place)]⟩
  | some _ => index

/-- The index of some keys and places, where the last mention of a key counts. -/
def ofLast (entries : List (κ × Nat)) : Index κ :=
  entries.foldl (fun index e => index.set e.1 e.2) ⟨[]⟩

/-- The index of some keys and places, where the first mention of a key counts. -/
def ofFirst (entries : List (κ × Nat)) : Index κ :=
  entries.foldl (fun index e => index.setNew e.1 e.2) ⟨[]⟩

end Index

/-! ## Records -/

/-- A message. Extensions are fields that other declarations add to it. -/
structure MessageRecord where
  name : String
  fullName : String
  file : Text
  parent : Option Nat
  fields : List Nat
  extensions : List Nat
  messages : List Nat
  enums : List Nat
  fieldsByNumber : Index Int
  fieldsByName : Index String
  isMapEntry : Bool
  deriving DecidableEq, Repr

/-- The default value of a field, in the form of its type; that of an enum field is the place of
the enum value. -/
inductive DefaultValue
  | int (i : Int)
  | float (x : Float)
  | bool (b : Bool)
  | string (s : String)
  | bytes (bs : List UInt8)
  | enumValue (place : Nat)

/-- A field or an extension. The links are absent if the type could not be resolved. -/
structure FieldRecord where
  name : String
  fullName : String
  number : Nat
  type : FieldType
  typeName : String
  label : Label
  packed : Bool
  default : Option DefaultValue
  containingType : Option Nat
  messageType : Option Nat
  enumType : Option Nat
  oneof : Option String
  extensionScope : Option String

/-- An enum. -/
structure EnumRecord where
  name : String
  fullName : String
  file : Text
  parent : Option Nat
  values : List Nat
  valuesByNumber : Index Int
  valuesByName : Index String
  deriving DecidableEq, Repr

/-- A value of an enum. Its full name is not inside the enum but beside it. -/
structure EnumValueRecord where
  name : String
  fullName : String
  number : Int
  enum : Nat
  deriving DecidableEq, Repr

/-- A method of a service. The links are absent if a type could not be resolved. -/
structure MethodRecord where
  name : String
  fullName : String
  service : String
  inputType : Option Nat
  outputType : Option Nat
  clientStreaming : Bool
  serverStreaming : Bool
  deriving DecidableEq, Repr

/-- The arenas, and the indexes of their full names. -/
structure Tables where
  messages : Array MessageRecord
  fields : Array FieldRecord
  enums : Array EnumRecord
  enumValues : Array EnumValueRecord
  methods : Array MethodRecord
  messagesByName : Index String
  enumsByName : Index String
  methodsByName : Index String

/-- Tables without any record. -/
def Tables.empty : Tables := ⟨#[], #[], #[], #[], #[], ⟨[]⟩, ⟨[]⟩, ⟨[]⟩⟩

instance : Inhabited Tables := ⟨Tables.empty⟩

end ProtoSchema
