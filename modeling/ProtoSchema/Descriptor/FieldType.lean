/-!
# Field types

The types of fields as they are numbered on the wire, the keywords of the scalar ones, and what
follows from a type: the range of its integers, whether it may key a map, and whether repeated
values of it may be packed.
-/

namespace ProtoSchema

/-- The type of a field. A field whose type reference could not be resolved is `unresolved`. -/
inductive FieldType
  | unresolved
  | double | float | int64 | uint64 | int32 | fixed64 | fixed32
  | bool | string | group | message | bytes | uint32 | enum
  | sfixed32 | sfixed64 | sint32 | sint64
  deriving DecidableEq, Repr

namespace FieldType

/-- Every type, in the order of their numbers. -/
def all : List FieldType :=
  [unresolved, double, float, int64, uint64, int32, fixed64, fixed32, bool, string, group,
   message, bytes, uint32, enum, sfixed32, sfixed64, sint32, sint64]

/-- Every type is listed. -/
theorem mem_all (t : FieldType) : t ∈ all := by cases t <;> decide

/-- The number of a type. -/
def number (t : FieldType) : Nat := all.idxOf t

/-- The type of a number. -/
def ofNumber? (n : Int) : Option FieldType := if n < 0 then none else all[n.toNat]?

/-- The keyword of a type; an unresolved type has none. -/
def keyword : FieldType → String
  | unresolved => ""
  | double => "double"
  | float => "float"
  | int64 => "int64"
  | uint64 => "uint64"
  | int32 => "int32"
  | fixed64 => "fixed64"
  | fixed32 => "fixed32"
  | bool => "bool"
  | string => "string"
  | group => "group"
  | message => "message"
  | bytes => "bytes"
  | uint32 => "uint32"
  | enum => "enum"
  | sfixed32 => "sfixed32"
  | sfixed64 => "sfixed64"
  | sint32 => "sint32"
  | sint64 => "sint64"

/-- The keyword of the type of a number, or nothing if no type has it. -/
def keywordOfNumber (n : Int) : String := ((ofNumber? n).map keyword).getD ""

/-- The types that a keyword names by itself, in the order of their keywords. -/
def scalars : List FieldType :=
  [bool, bytes, double, fixed32, fixed64, float, int32, int64, sfixed32, sfixed64, sint32, sint64,
   string, uint32, uint64]

/-- The scalar type of a keyword. -/
def scalar? (name : String) : Option FieldType := scalars.find? (·.keyword == name)

/-- Whether a name is the keyword of a scalar type. -/
def isScalarName (name : String) : Bool := (scalar? name).isSome

/-- Whether a name is the keyword of a type that may key a map: a scalar that is neither a floating
number nor bytes. -/
def isMapKeyName (name : String) : Bool :=
  match scalar? name with
  | none | some double | some float | some bytes => false
  | some _ => true

/-- The bounds of the integers of a type. -/
def integerRange? : FieldType → Option (Int × Int)
  | int32 | sint32 | sfixed32 => some (-0x80000000, 0x7FFFFFFF)
  | int64 | sint64 | sfixed64 => some (-0x8000000000000000, 0x7FFFFFFFFFFFFFFF)
  | uint32 | fixed32 => some (0, 0xFFFFFFFF)
  | uint64 | fixed64 => some (0, 0xFFFFFFFFFFFFFFFF)
  | _ => none

/-- Whether repeated values of a type may be packed: all scalars but texts, and enums. -/
def isPackable (t : FieldType) : Bool :=
  t == enum || (scalars.contains t && t != string && t != bytes)

end FieldType

end ProtoSchema
