import ProtoSchema.Schema.Basic
import ProtoSchema.Token.Basic

/-!
# Symbols of the grammar and their meaning

Each symbol of the schema grammar has a type of values: a terminal stands for its token, a
nonterminal for the declaration, or the part of one, that it describes.
-/

namespace ProtoSchema

/-- The nonterminals of the schema grammar. -/
inductive Nonterminal
  | schemaFile | topItems | topItem
  | dialectStmt | importStmt | importModifier | packageStmt
  | optionStmt | fieldOptions | moreFieldOptions | fieldOption
  | optionName | moreOptionNameParts | optionNamePart | extensionName
  | messageDecl | messageItems | messageItem
  | fieldDecl | fieldLabel | fieldNumber | groupDecl | mapFieldDecl
  | oneofDecl | oneofItems | oneofItem | oneofField
  | extendDecl | extendItems | extendItem
  | extensionsStmt | reservedStmt | numberRanges | moreNumberRanges | numberRange
  | reservedNames | moreReservedNames
  | enumDecl | enumItems | enumItem | enumValue | enumValueName
  | serviceDecl | serviceItems | serviceItem
  | rpcDecl | rpcType | streamMark | rpcBody | rpcItems
  | constant | number | sign | signedInt | strings | stringRun
  | aggregate | aggregateFields | aggregateField | aggregateKey
  | aggregateValue | aggregateList | moreAggregateValues
  | fullIdent | leadingDot | moreNames | name
  deriving DecidableEq, Repr

/-- Every nonterminal. -/
def Nonterminal.all : List Nonterminal :=
  [.schemaFile, .topItems, .topItem,
   .dialectStmt, .importStmt, .importModifier, .packageStmt,
   .optionStmt, .fieldOptions, .moreFieldOptions, .fieldOption,
   .optionName, .moreOptionNameParts, .optionNamePart, .extensionName,
   .messageDecl, .messageItems, .messageItem,
   .fieldDecl, .fieldLabel, .fieldNumber, .groupDecl, .mapFieldDecl,
   .oneofDecl, .oneofItems, .oneofItem, .oneofField,
   .extendDecl, .extendItems, .extendItem,
   .extensionsStmt, .reservedStmt, .numberRanges, .moreNumberRanges, .numberRange,
   .reservedNames, .moreReservedNames,
   .enumDecl, .enumItems, .enumItem, .enumValue, .enumValueName,
   .serviceDecl, .serviceItems, .serviceItem,
   .rpcDecl, .rpcType, .streamMark, .rpcBody, .rpcItems,
   .constant, .number, .sign, .signedInt, .strings, .stringRun,
   .aggregate, .aggregateFields, .aggregateField, .aggregateKey,
   .aggregateValue, .aggregateList, .moreAggregateValues,
   .fullIdent, .leadingDot, .moreNames, .name]

/-- Every nonterminal is listed. -/
theorem Nonterminal.mem_all (n : Nonterminal) : n ∈ all := by cases n <;> decide

/-- A symbol of the grammar. -/
inductive Symbol
  | terminal (t : Terminal)
  | nonterminal (n : Nonterminal)
  deriving DecidableEq, Repr

namespace Symbol

/-- A keyword as a symbol. -/
abbrev key (k : Keyword) : Symbol := .terminal (.keyword k)

/-- A mark as a symbol. -/
abbrev mark (m : Mark) : Symbol := .terminal (.mark m)

/-- A nonterminal as a symbol. -/
abbrev part (n : Nonterminal) : Symbol := .nonterminal n

end Symbol

/-! ## Parts of declarations -/

/-- What stands between the declarations of a file. -/
inductive TopItem
  | dependency (i : ImportDecl)
  | package (name : Ident)
  | option (o : OptionDecl)
  | message (m : MessageDecl)
  | enum (e : EnumDecl)
  | service (s : ServiceDecl)
  | extend (e : ExtendDecl)
  | empty

/-- A group declares a field and the message it holds. -/
structure GroupDecl where
  field : FieldDecl
  body : MessageDecl

/-- A oneof and its members. -/
structure OneofDecl where
  name : String
  fields : List FieldDecl

/-- The numbers and names of one reserved statement. -/
structure ReservedDecl where
  ranges : List NumberRange
  names : List Text

/-- What the body of a message consists of. -/
inductive MessageItem
  | field (f : FieldDecl)
  | group (g : GroupDecl)
  | oneof (o : OneofDecl)
  | message (m : MessageDecl)
  | enum (e : EnumDecl)
  | extend (e : ExtendDecl)
  | extensions (ranges : List NumberRange)
  | reserved (r : ReservedDecl)
  | option (o : OptionDecl)
  | empty

/-- What the body of an enum consists of. -/
inductive EnumItem
  | value (v : EnumValueDecl)
  | option (o : OptionDecl)
  | reserved (r : ReservedDecl)
  | empty

/-- What the body of a service consists of. -/
inductive ServiceItem
  | method (m : MethodDecl)
  | option (o : OptionDecl)
  | empty

/-- One end of a method. -/
structure RpcType where
  name : String
  streaming : Bool

/-- The bytes of adjacent string literals and where the first one stands. -/
structure ByteString where
  bytes : List UInt8
  position : Position

/-- Whether a sign negates. -/
inductive Sign
  | plus
  | minus
  deriving DecidableEq, Repr

/-! ## Values -/

/-- What a nonterminal stands for. -/
abbrev Nonterminal.Value : Nonterminal → Type
  | .schemaFile => SchemaFile
  | .topItems => List TopItem
  | .topItem => TopItem
  | .dialectStmt => Dialect
  | .importStmt => ImportDecl
  | .importModifier => ImportModifier
  | .packageStmt => Ident
  | .optionStmt => OptionDecl
  | .fieldOptions => List OptionDecl
  | .moreFieldOptions => List OptionDecl
  | .fieldOption => OptionDecl
  | .optionName => Ident
  | .moreOptionNameParts => List Ident
  | .optionNamePart => Ident
  | .extensionName => Ident
  | .messageDecl => MessageDecl
  | .messageItems => List MessageItem
  | .messageItem => MessageItem
  | .fieldDecl => FieldDecl
  | .fieldLabel => Label
  | .fieldNumber => Nat
  | .groupDecl => GroupDecl
  | .mapFieldDecl => FieldDecl
  | .oneofDecl => OneofDecl
  | .oneofItems => List FieldDecl
  | .oneofItem => List FieldDecl
  | .oneofField => FieldDecl
  | .extendDecl => ExtendDecl
  | .extendItems => List FieldDecl
  | .extendItem => List FieldDecl
  | .extensionsStmt => List NumberRange
  | .reservedStmt => ReservedDecl
  | .numberRanges => List NumberRange
  | .moreNumberRanges => List NumberRange
  | .numberRange => NumberRange
  | .reservedNames => List Text
  | .moreReservedNames => List Text
  | .enumDecl => EnumDecl
  | .enumItems => List EnumItem
  | .enumItem => EnumItem
  | .enumValue => EnumValueDecl
  | .enumValueName => Ident
  | .serviceDecl => ServiceDecl
  | .serviceItems => List ServiceItem
  | .serviceItem => ServiceItem
  | .rpcDecl => MethodDecl
  | .rpcType => RpcType
  | .streamMark => Unit
  | .rpcBody => List OptionDecl
  | .rpcItems => List OptionDecl
  | .constant => Constant
  | .number => Constant
  | .sign => Sign
  | .signedInt => Int
  | .strings => ByteString
  | .stringRun => List Token
  | .aggregate => Constant
  | .aggregateFields => List (String × ProtoSchema.Value)
  | .aggregateField => String × ProtoSchema.Value
  | .aggregateKey => String
  | .aggregateValue => ProtoSchema.Value
  | .aggregateList => ProtoSchema.Value
  | .moreAggregateValues => List ProtoSchema.Value
  | .fullIdent => Ident
  | .leadingDot => Unit
  | .moreNames => List Ident
  | .name => Ident

/-- What a symbol stands for. -/
abbrev Symbol.Value : Symbol → Type
  | .terminal _ => Token
  | .nonterminal n => n.Value

end ProtoSchema
