import ProtoSchema.Decimal.Shortest
import ProtoSchema.Descriptor.Basic
import ProtoSchema.Literal.Escape

/-!
# Rendered messages

A linked message is written as schema text again: its fields with their resolved types, its enums,
the messages nested in it, and a remark for each extension. The entries of maps are not written,
since the map fields say it all.
-/

namespace ProtoSchema

namespace Tables

/-- The literal for a default. -/
def literal? (t : Tables) : DefaultValue → Option String
  | .int i => some (toString i)
  | .float x => some (Decimal.floatText x)
  | .bool b => some (if b then "true" else "false")
  | .string s => some (Literal.quote (Utf8.encode s.toList))
  | .bytes bs => some (Literal.quote bs)
  | .enumValue place => (t.enumValues[place]?).map (·.name)

/-- The literal for the explicit default of a field. -/
def defaultLiteral? (t : Tables) (f : FieldRecord) : Option String := f.default.bind t.literal?

/-- The reference to the type of a field. Messages and enums are written with their full names, and
a type that was not found as it was declared. -/
def typeReference (t : Tables) (f : FieldRecord) : String :=
  let target :=
    match f.type with
    | .message | .group => (f.messageType.bind (t.messages[·]?)).map (·.fullName)
    | .enum => (f.enumType.bind (t.enums[·]?)).map (·.fullName)
    | _ => none
  match target with
  | some name => "." ++ name
  | none => if f.type.keyword.isEmpty then f.typeName else f.type.keyword

/-- The records of the fields at some places. -/
def fieldsAt (t : Tables) (places : List Nat) : List FieldRecord :=
  places.filterMap (t.fields[·]?)

/-- The key and the value of the entries that a map field holds. -/
def mapEntry? (t : Tables) (f : FieldRecord) : Option (FieldRecord × FieldRecord) := do
  let m ← f.messageType.bind (t.messages[·]?)
  if m.isMapEntry then
    match t.fieldsAt m.fields with
    | [key, value] => some (key, value)
    | _ => none
  else none

/-- The type of a field with its label, as it is declared. -/
def declaredType (t : Tables) (f : FieldRecord) : String :=
  match t.mapEntry? f with
  | some (key, value) => s!"map<{t.typeReference key}, {t.typeReference value}>"
  | none => s!"{f.label.name} {t.typeReference f}"

/-- The options of a field, in brackets, if it has any. -/
def fieldOptions (t : Tables) (f : FieldRecord) : String :=
  let options := ((t.defaultLiteral? f).map ("default = " ++ ·)).toList ++
    (if f.packed then ["packed = true"] else [])
  if options.isEmpty then "" else " [" ++ ", ".intercalate options ++ "]"

/-- The declaration of a field. A remark names the oneof it is in. -/
def fieldLine (t : Tables) (f : FieldRecord) : String :=
  let remark :=
    match f.oneof with
    | some name => "  // oneof " ++ name
    | none => ""
  s!"{t.declaredType f} {f.name} = {f.number}" ++ t.fieldOptions f ++ ";" ++ remark

/-- The lines that declare an enum. -/
def enumLines (t : Tables) (e : EnumRecord) : List String :=
  let values := e.values.filterMap (t.enumValues[·]?)
  ["enum " ++ e.name ++ " \x7b"] ++ values.map (fun v => s!"  {v.name} = {v.number};") ++ ["\x7d"]

/-- Lines set in by one step. -/
def indented (lines : List String) : List String := lines.map ("  " ++ ·)

/-- The lines that declare a message, with at most `depth` messages inside one another. The entries
of maps are left out. -/
def messageLines (t : Tables) : (depth : Nat) → MessageRecord → List String
  | 0, _ => []
  | depth + 1, m =>
    let enums := m.enums.filterMap (t.enums[·]?)
    let nested := (m.messages.filterMap (t.messages[·]?)).filter (!·.isMapEntry)
    ["message " ++ m.name ++ " \x7b"] ++
      indented ((t.fieldsAt m.fields).map t.fieldLine ++ enums.flatMap t.enumLines ++
        nested.flatMap (t.messageLines depth) ++
        (t.fieldsAt m.extensions).map fun f => s!"// extension {f.fullName} = {f.number}") ++
      ["\x7d"]

/-- The text of a message. There are never more messages inside one another than there are
messages. -/
def render (t : Tables) (m : MessageRecord) : Text :=
  let lines := t.messageLines t.messages.size m
  ("// " : Text) ++ m.fullName ++ " from " ++ m.file ++ "\n" ++
    String.join (lines.map (· ++ "\n"))

end Tables

end ProtoSchema
