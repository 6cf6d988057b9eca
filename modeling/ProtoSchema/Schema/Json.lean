import ProtoSchema.Json.Basic
import ProtoSchema.Schema.Basic

/-!
# Declarations as plain data

Every declaration becomes an object with all of its parts, absent ones as null. A range is the list
of its two ends.
-/

namespace ProtoSchema

/-- The two entries for a place, under the given keys. -/
def Position.entries (line column : String) (p : Option Position) : List (String × Json) :=
  [(line, .ofOption (fun p => .int p.line) p), (column, .ofOption (fun p => .int p.column) p)]

/-- The entries for the place of a declaration. -/
def Position.ownEntries (p : Option Position) : List (String × Json) :=
  Position.entries "line" "column" p

/-- A range as data. -/
def NumberRange.toJson (r : NumberRange) : Json := .array [.int r.first, .ofOption .int r.last]

/-! ## Options -/

/-- How the kind of a value is named; a list is no kind of its own, since it occurs inside
aggregates only. -/
def Value.kindName : Value → String
  | .int _ => "int"
  | .float _ => "float"
  | .ident _ => "ident"
  | .string _ => "string"
  | .aggregate _ | .list _ => "aggregate"

mutual

/-- A value as data. -/
def Value.toJson : Value → Json
  | .int i => .int i
  | .float x => .float x
  | .ident name => .string name
  | .string text => .text text
  | .aggregate entries => .object (Value.entriesToJson entries)
  | .list items => .array (Value.itemsToJson items)

/-- The entries of an aggregate as data. -/
def Value.entriesToJson : List (String × Value) → List (String × Json)
  | [] => []
  | (key, value) :: entries => (key, value.toJson) :: Value.entriesToJson entries

/-- The items of a list as data. -/
def Value.itemsToJson : List Value → List Json
  | [] => []
  | item :: items => item.toJson :: Value.itemsToJson items

end

/-- A constant as data. -/
def Constant.toJson (c : Constant) : Json :=
  .object ([("kind", .string c.value.kindName), ("value", c.value.toJson)] ++
    Position.ownEntries c.position)

/-- An option as data. -/
def OptionDecl.toJson (o : OptionDecl) : Json :=
  .object ([("name", .string o.name), ("value", o.value.toJson)] ++
    Position.ownEntries o.position)

/-! ## Fields -/

/-- The key and value type of a map. -/
def FieldShape.mapTypes? : FieldShape → Option (String × String)
  | .map key value _ => some (key, value)
  | .named .. | .group _ => none

/-- Where a type reference is written, if that is kept. -/
def FieldShape.position? : FieldShape → Option Position
  | .named _ p => p
  | .map _ _ p => some p
  | .group _ => none

/-- A field as data. -/
def FieldDecl.toJson (f : FieldDecl) : Json :=
  .object ([("name", .string f.name), ("number", .int f.number), ("type_name", .string f.typeName),
    ("label", .ofOption (fun l => .string l.name) f.label),
    ("options", .ofList OptionDecl.toJson f.options), ("oneof", .ofOption .string f.oneof),
    ("is_group", .bool f.isGroup),
    ("map_key", .ofOption (fun m => .string m.1) f.shape.mapTypes?),
    ("map_value", .ofOption (fun m => .string m.2) f.shape.mapTypes?)] ++
    Position.ownEntries f.position ++
    Position.entries "type_line" "type_column" f.shape.position?)

/-! ## Other declarations -/

/-- A value of an enum as data. -/
def EnumValueDecl.toJson (v : EnumValueDecl) : Json :=
  .object ([("name", .string v.name), ("number", .int v.number),
    ("options", .ofList OptionDecl.toJson v.options)] ++ Position.ownEntries v.position)

/-- An enum as data. -/
def EnumDecl.toJson (e : EnumDecl) : Json :=
  .object ([("name", .string e.name), ("values", .ofList EnumValueDecl.toJson e.values),
    ("options", .ofList OptionDecl.toJson e.options),
    ("reserved_ranges", .ofList NumberRange.toJson e.reservedRanges),
    ("reserved_names", .ofList .text e.reservedNames)] ++ Position.ownEntries e.position)

/-- An extend block as data. -/
def ExtendDecl.toJson (e : ExtendDecl) : Json :=
  .object ([("extendee", .string e.extendee), ("fields", .ofList FieldDecl.toJson e.fields)] ++
    Position.ownEntries e.position)

mutual

/-- A message as data. A declared message is never the entry of a map. -/
def MessageDecl.toJson : MessageDecl → Json
  | ⟨name, fields, messages, enums, extendBlocks, oneofs, options, extensionRanges,
      reservedRanges, reservedNames, position⟩ =>
    .object ([("name", .string name), ("fields", .ofList FieldDecl.toJson fields),
      ("messages", .array (MessageDecl.listToJson messages)),
      ("enums", .ofList EnumDecl.toJson enums),
      ("extends", .ofList ExtendDecl.toJson extendBlocks), ("oneofs", .ofList .string oneofs),
      ("options", .ofList OptionDecl.toJson options),
      ("extension_ranges", .ofList NumberRange.toJson extensionRanges),
      ("reserved_ranges", .ofList NumberRange.toJson reservedRanges),
      ("reserved_names", .ofList .text reservedNames), ("is_map_entry", .bool false)] ++
      Position.ownEntries position)

/-- Messages as data. -/
def MessageDecl.listToJson : List MessageDecl → List Json
  | [] => []
  | m :: ms => m.toJson :: MessageDecl.listToJson ms

end

/-- A method as data. -/
def MethodDecl.toJson (m : MethodDecl) : Json :=
  .object ([("name", .string m.name), ("input_type", .string m.inputType),
    ("output_type", .string m.outputType), ("client_streaming", .bool m.clientStreaming),
    ("server_streaming", .bool m.serverStreaming),
    ("options", .ofList OptionDecl.toJson m.options)] ++ Position.ownEntries m.position)

/-- A service as data. -/
def ServiceDecl.toJson (s : ServiceDecl) : Json :=
  .object ([("name", .string s.name), ("methods", .ofList MethodDecl.toJson s.methods),
    ("options", .ofList OptionDecl.toJson s.options)] ++ Position.ownEntries s.position)

/-- An import as data. -/
def ImportDecl.toJson (i : ImportDecl) : Json :=
  .object ([("path", .text i.path), ("modifier", .ofOption (fun m => .string m.name) i.modifier)] ++
    Position.ownEntries i.position)

/-- A schema file as data. -/
def SchemaFile.toJson (f : SchemaFile) : Json :=
  .object [("name", .text f.name), ("syntax", .string f.dialect.name),
    ("package", .ofOption .string f.package), ("imports", .ofList ImportDecl.toJson f.imports),
    ("messages", .ofList MessageDecl.toJson f.messages),
    ("enums", .ofList EnumDecl.toJson f.enums),
    ("services", .ofList ServiceDecl.toJson f.services),
    ("extends", .ofList ExtendDecl.toJson f.extendBlocks),
    ("options", .ofList OptionDecl.toJson f.options)]

end ProtoSchema
