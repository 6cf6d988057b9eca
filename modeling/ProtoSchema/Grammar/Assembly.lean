import ProtoSchema.Decimal.Nearest
import ProtoSchema.Grammar.Symbol
import ProtoSchema.Problem.Source

/-!
# Assembling declarations

How the parts that the grammar recognises are put together into declarations: literals get their
values, and the items of a body are sorted into the lists of the declaration they belong to, each
list keeping their order.
-/

namespace ProtoSchema

/-! ## Literals -/

/-- The word of a token and its place. -/
def Token.ident (t : Token) : Ident := ⟨t.text, t.position⟩

/-- The value of an integer token. -/
def Token.intValue (t : Token) : Except Fault Int :=
  (parseInt t.lexeme).mapError fun e => ⟨.badNumeral e, t.position⟩

/-- The bytes of a string token. -/
def Token.bytes (t : Token) : Except Fault (List UInt8) :=
  (unescape t.lexeme).mapError fun e => ⟨.badEscape e, t.position⟩

namespace Sign

/-- A sign applied to an integer. -/
def apply : Sign → Int → Int
  | plus, i => i
  | minus, i => -i

/-- Whether a sign is the minus sign. -/
def isMinus : Sign → Bool
  | plus => false
  | minus => true

/-- How a sign is written. -/
def text : Sign → String
  | plus => "+"
  | minus => "-"

end Sign

namespace Constant

/-- An integer, at the place of its digits. -/
def ofInt (sign : Sign) (t : Token) : Except Fault Constant :=
  t.intValue.map fun i => ⟨.int (sign.apply i), some t.position⟩

/-- A number with a point or exponent, at the place of its digits. -/
def ofFloat (sign : Sign) (t : Token) : Constant :=
  ⟨.float (Decimal.ofNumeral sign.isMinus t.lexeme), some t.position⟩

/-- A word behind a sign: infinity and the value that is no number are numbers, any other word
keeps its sign as part of the identifier. -/
def ofSignedWord (sign : Sign) (t : Token) : Constant :=
  let value : Value :=
    if t.text = "inf" then .float (Decimal.infinity sign.isMinus)
    else if t.text = "nan" then .float Decimal.notANumber
    else .ident (sign.text ++ t.text)
  ⟨value, some t.position⟩

/-- An identifier as a value. -/
def ofIdent (i : Ident) : Constant := ⟨.ident i.text, some i.position⟩

/-- A string as a value. -/
def ofBytes (b : ByteString) : Constant := ⟨.string (.ofBytes b.bytes), some b.position⟩

/-- An aggregate of the given entries. -/
def ofEntries (entries : List (String × Value)) : Constant :=
  ⟨.aggregate (entries.foldl (fun all e => Value.insertEntry all e.1 e.2) []), none⟩

end Constant

/-- Adjacent string literals denote their bytes one after the other. -/
def ByteString.ofTokens (tokens : List Token) : Except Fault ByteString :=
  (tokens.mapM Token.bytes).map fun parts =>
    ⟨parts.flatten, (tokens.head?.map Token.position).getD .start⟩

/-! ## Names -/

namespace Ident

/-- Names joined by dots, at the place of the first. -/
def join (first : Ident) (others : List Ident) : Ident :=
  ⟨".".intercalate ((first :: others).map Ident.text), first.position⟩

/-- A dotted name with a leading dot, still at the place of its first word. -/
def absolute (i : Ident) : Ident := ⟨"." ++ i.text, i.position⟩

/-- A name between parentheses, as the name of an extension is written in an option. -/
def parenthesised (i : Ident) : Ident := ⟨"(" ++ i.text ++ ")", i.position⟩

end Ident

/-- An option of a name and value. -/
def OptionDecl.ofIdent (name : Ident) (value : Constant) : OptionDecl :=
  ⟨name.text, value, name.position⟩

/-! ## Fields -/

namespace FieldDecl

/-- A plain field. -/
def plain (label : Option Label) (type name : Ident) (number : Nat) (options : List OptionDecl) :
    FieldDecl :=
  ⟨name.text, number, .named type.text (some type.position), label, options, none, name.position⟩

/-- A map field. -/
def ofMap (key value name : Ident) (number : Nat) (options : List OptionDecl) : FieldDecl :=
  ⟨name.text, number, .map key.text value.text value.position, none, options, none, name.position⟩

end FieldDecl

/-- A oneof marks its members with its name. -/
def OneofDecl.ofFields (name : Ident) (fields : List FieldDecl) : OneofDecl :=
  ⟨name.text, fields.map fun f => { f with oneof := some name.text }⟩

/-! ## Bodies -/

namespace MessageItem

/-- The fields that an item adds to its message. -/
def fields : MessageItem → List FieldDecl
  | field f => [f]
  | group g => [g.field]
  | oneof o => o.fields
  | _ => []

/-- The message that an item nests. -/
def message? : MessageItem → Option MessageDecl
  | group g => some g.body
  | message m => some m
  | _ => none

/-- The enum that an item nests. -/
def enum? : MessageItem → Option EnumDecl
  | enum e => some e
  | _ => none

/-- The extend block that an item holds. -/
def extend? : MessageItem → Option ExtendDecl
  | extend e => some e
  | _ => none

/-- The name of the oneof that an item declares. -/
def oneofName? : MessageItem → Option String
  | oneof o => some o.name
  | _ => none

/-- The option that an item sets. -/
def option? : MessageItem → Option OptionDecl
  | option o => some o
  | _ => none

/-- The extension ranges that an item declares. -/
def extensionRanges : MessageItem → List NumberRange
  | extensions ranges => ranges
  | _ => []

/-- What an item reserves. -/
def reserved? : MessageItem → Option ReservedDecl
  | reserved r => some r
  | _ => none

end MessageItem

/-- The message with a name and body. -/
def MessageDecl.ofItems (name : Ident) (items : List MessageItem) : MessageDecl where
  name := name.text
  fields := items.flatMap MessageItem.fields
  messages := items.filterMap MessageItem.message?
  enums := items.filterMap MessageItem.enum?
  extendBlocks := items.filterMap MessageItem.extend?
  oneofs := items.filterMap MessageItem.oneofName?
  options := items.filterMap MessageItem.option?
  extensionRanges := items.flatMap MessageItem.extensionRanges
  reservedRanges := (items.filterMap MessageItem.reserved?).flatMap ReservedDecl.ranges
  reservedNames := (items.filterMap MessageItem.reserved?).flatMap ReservedDecl.names
  position := name.position

/-- A group: its message has the name as written, its field the same name in lower case. -/
def GroupDecl.ofItems (label : Label) (name : Ident) (number : Nat) (options : List OptionDecl)
    (items : List MessageItem) : GroupDecl where
  field :=
    ⟨name.text.toLower, number, .group name.text, some label, options, none, name.position⟩
  body := .ofItems name items

namespace EnumItem

/-- The value that an item declares. -/
def value? : EnumItem → Option EnumValueDecl
  | value v => some v
  | _ => none

/-- The option that an item sets. -/
def option? : EnumItem → Option OptionDecl
  | option o => some o
  | _ => none

/-- What an item reserves. -/
def reserved? : EnumItem → Option ReservedDecl
  | reserved r => some r
  | _ => none

end EnumItem

/-- The enum with a name and body. -/
def EnumDecl.ofItems (name : Ident) (items : List EnumItem) : EnumDecl where
  name := name.text
  values := items.filterMap EnumItem.value?
  options := items.filterMap EnumItem.option?
  reservedRanges := (items.filterMap EnumItem.reserved?).flatMap ReservedDecl.ranges
  reservedNames := (items.filterMap EnumItem.reserved?).flatMap ReservedDecl.names
  position := name.position

/-- A value of an enum. -/
def EnumValueDecl.ofIdent (name : Ident) (number : Int) (options : List OptionDecl) :
    EnumValueDecl :=
  ⟨name.text, number, options, name.position⟩

namespace ServiceItem

/-- The method that an item declares. -/
def method? : ServiceItem → Option MethodDecl
  | method m => some m
  | _ => none

/-- The option that an item sets. -/
def option? : ServiceItem → Option OptionDecl
  | option o => some o
  | _ => none

end ServiceItem

/-- The service with a name and body. -/
def ServiceDecl.ofItems (name : Ident) (items : List ServiceItem) : ServiceDecl where
  name := name.text
  methods := items.filterMap ServiceItem.method?
  options := items.filterMap ServiceItem.option?
  position := name.position

/-- A method between two ends. -/
def MethodDecl.ofEnds (name : Ident) (input output : RpcType) (options : List OptionDecl) :
    MethodDecl :=
  ⟨name.text, input.name, output.name, input.streaming, output.streaming, options, name.position⟩

namespace TopItem

/-- The import that an item states. -/
def dependency? : TopItem → Option ImportDecl
  | dependency i => some i
  | _ => none

/-- The package that an item names. -/
def package? : TopItem → Option Ident
  | package p => some p
  | _ => none

/-- The option that an item sets. -/
def option? : TopItem → Option OptionDecl
  | option o => some o
  | _ => none

/-- The message that an item declares. -/
def message? : TopItem → Option MessageDecl
  | message m => some m
  | _ => none

/-- The enum that an item declares. -/
def enum? : TopItem → Option EnumDecl
  | enum e => some e
  | _ => none

/-- The service that an item declares. -/
def service? : TopItem → Option ServiceDecl
  | service s => some s
  | _ => none

/-- The extend block that an item is. -/
def extend? : TopItem → Option ExtendDecl
  | extend e => some e
  | _ => none

end TopItem

/-- The dialect with a name that is spelled by string literals. -/
def Dialect.ofBytes (name : ByteString) : Except Fault Dialect :=
  let text := Text.ofBytes name.bytes
  match Dialect.ofName? text with
  | some d => .ok d
  | none => .error ⟨.unknownDialect text, name.position⟩

/-- The file, still without a name, that consists of the given items. It has one package at most. -/
def SchemaFile.ofItems (dialect : Dialect) (items : List TopItem) : Except Fault SchemaFile :=
  match items.filterMap TopItem.package? with
  | _ :: second :: _ => .error ⟨.secondPackage, second.position⟩
  | packages =>
    .ok {
      name := ""
      dialect
      package := packages.head?.map Ident.text
      imports := items.filterMap TopItem.dependency?
      messages := items.filterMap TopItem.message?
      enums := items.filterMap TopItem.enum?
      services := items.filterMap TopItem.service?
      extendBlocks := items.filterMap TopItem.extend?
      options := items.filterMap TopItem.option? }

end ProtoSchema
