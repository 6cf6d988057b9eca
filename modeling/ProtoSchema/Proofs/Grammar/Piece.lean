import ProtoSchema.Grammar.Assembly

/-!
# Pieces of declarations

What the phrases of a schema text become when they are put together by looking at the pieces that
lie inside them: every phrase finds its parts by their kind or by their place, in the order of the
text, and by nothing else. A builder gives no piece if one that it needs is missing, stands twice,
or has no value.
-/

namespace ProtoSchema

/-- The kinds of pieces. -/
inductive PieceKind
  | token | name | ident | leadingDot | strings
  | sign | integer | constant | entry | key | list
  | option | fieldOptions
  | label | fieldNumber | field | group | oneof | message
  | range | ranges | extensions | reservedNames | reserved
  | enumValue | enum | extend
  | stream | rpcType | method | service
  | modifier | dependency | package | dialect | file
  deriving DecidableEq, Repr

/-- What a piece of a kind holds. -/
abbrev PieceKind.Value : PieceKind → Type
  | .token => Token
  | .name | .ident | .package => Ident
  | .leadingDot | .stream => Unit
  | .strings => ByteString
  | .sign => Sign
  | .integer => Int
  | .constant => Constant
  | .entry => String × ProtoSchema.Value
  | .key => String
  | .list => List ProtoSchema.Value
  | .option => OptionDecl
  | .fieldOptions => List OptionDecl
  | .label => Label
  | .fieldNumber => Nat
  | .field => FieldDecl
  | .group => GroupDecl
  | .oneof => OneofDecl
  | .message => MessageDecl
  | .range => NumberRange
  | .ranges | .extensions => List NumberRange
  | .reservedNames => List Text
  | .reserved => ReservedDecl
  | .enumValue => EnumValueDecl
  | .enum => EnumDecl
  | .extend => ExtendDecl
  | .rpcType => RpcType
  | .method => MethodDecl
  | .service => ServiceDecl
  | .modifier => ImportModifier
  | .dependency => ImportDecl
  | .dialect => Dialect
  | .file => SchemaFile

/-- What a part of a text has become. -/
structure Piece where
  kind : PieceKind
  value : kind.Value

namespace Piece

/-- Pieces of one kind. -/
def each (k : PieceKind) (vs : List k.Value) : List Piece := vs.map (Piece.mk k)

/-! ## Finding pieces -/

/-- The value of a piece of a kind. -/
def as? (k : PieceKind) (p : Piece) : Option k.Value :=
  if h : p.kind = k then some (h ▸ p.value) else none

/-- The values of all pieces of a kind. -/
def allOf (k : PieceKind) (ps : List Piece) : List k.Value := ps.filterMap (as? k)

/-- The value of the piece of a kind, if there is one. Two of them are refused. -/
@[simp]
def atMostOne? (k : PieceKind) (ps : List Piece) : Option (Option k.Value) :=
  match allOf k ps with
  | [] => some none
  | [v] => some (some v)
  | _ => none

/-- The value of the only piece of a kind. -/
@[simp]
def one? (k : PieceKind) (ps : List Piece) : Option k.Value := do
  let v? ← atMostOne? k ps
  v?

/-- The value of the first piece, which has to be of a kind. -/
@[simp]
def first? (k : PieceKind) (ps : List Piece) : Option k.Value := do
  let p ← ps.head?
  p.as? k

/-- The values of pieces that are all of a kind. -/
def allAre? (k : PieceKind) (ps : List Piece) : Option (List k.Value) := ps.mapM (as? k)

/-- The options of a declaration, which may have none. -/
@[simp]
def optionsIn? (ps : List Piece) : Option (List OptionDecl) := do
  let options? ← atMostOne? .fieldOptions ps
  some (options?.getD [])

section

variable {k l : PieceKind}

@[simp]
theorem as?_mk_self (v : k.Value) : as? k ⟨k, v⟩ = some v := by simp [as?]

@[simp]
theorem as?_mk_of_ne (h : l ≠ k) (v : l.Value) : as? k ⟨l, v⟩ = none := by simp [as?, h]

@[simp]
theorem allOf_nil : allOf k [] = [] := rfl

@[simp]
theorem allOf_append (ps qs : List Piece) : allOf k (ps ++ qs) = allOf k ps ++ allOf k qs :=
  List.filterMap_append

@[simp]
theorem allOf_cons_self (v : k.Value) (ps : List Piece) :
    allOf k (⟨k, v⟩ :: ps) = v :: allOf k ps := by
  simp [allOf]

@[simp]
theorem allOf_cons_of_ne (h : l ≠ k) (v : l.Value) (ps : List Piece) :
    allOf k (⟨l, v⟩ :: ps) = allOf k ps := by
  simp [allOf, h]

/-- Pieces of one kind are all found. -/
@[simp]
theorem allOf_each_self (vs : List k.Value) : allOf k (each k vs) = vs := by
  simp [allOf, each, List.filterMap_map, Function.comp_def]

/-- Among pieces of one kind there is none of another. -/
@[simp]
theorem allOf_each_of_ne (h : l ≠ k) (vs : List l.Value) : allOf k (each l vs) = [] := by
  simp [allOf, each, List.filterMap_map, Function.comp_def, h]

theorem allOf_eq_nil {ps : List Piece} (h : ∀ p ∈ ps, p.kind ≠ k) : allOf k ps = [] :=
  List.filterMap_eq_nil_iff.mpr fun p hp => by simp [as?, h p hp]

/-- The pieces of a kind in a body, where every item leaves at most one. -/
theorem allOf_flatMap {ι : Type} {pieces : ι → List Piece} {f : ι → Option k.Value}
    (h : ∀ i, allOf k (pieces i) = (f i).toList) (is : List ι) :
    allOf k (is.flatMap pieces) = is.filterMap f := by
  induction is with
  | nil => rfl
  | cons i is ih =>
    rw [List.flatMap_cons, allOf_append, ih, h, List.filterMap_cons]
    cases f i <;> rfl

@[simp]
theorem allAre?_nil : allAre? k [] = some [] := rfl

@[simp]
theorem allAre?_cons (v : k.Value) (ps : List Piece) :
    allAre? k (⟨k, v⟩ :: ps) = (allAre? k ps).map (v :: ·) := by
  simp [allAre?, Option.map_eq_bind, Function.comp_def]

@[simp]
theorem allAre?_each (vs : List k.Value) : allAre? k (each k vs) = some vs := by
  induction vs with
  | nil => rfl
  | cons v vs ih =>
    have hcons : each k (v :: vs) = ⟨k, v⟩ :: each k vs := rfl
    rw [hcons, allAre?_cons, ih]
    rfl

end

/-! ## Names -/

/-- The word of a token. -/
def name (ps : List Piece) : Option Piece := do
  let t ← first? .token ps
  some ⟨.name, t.text, t.position⟩

def leadingDot (_ : List Piece) : Option Piece := some ⟨.leadingDot, ()⟩

/-- Names joined by dots, with a dot in front if one is written. -/
def fullIdent (ps : List Piece) : Option Piece := do
  let names := allOf .name ps
  let first ← names.head?
  let front := if (allOf .leadingDot ps).isEmpty then "" else "."
  some ⟨.ident, front ++ ".".intercalate (names.map Ident.text), first.position⟩

/-! ## Constants -/

/-- The bytes of some literals, one after the other. -/
def strings (ps : List Piece) : Option Piece := do
  let tokens ← allAre? .token ps
  let bytes ← tokens.mapM fun t => t.bytes.toOption
  let first ← tokens.head?
  some ⟨.strings, bytes.flatten, first.position⟩

/-- The sign with a spelling. -/
def sign (ps : List Piece) : Option Piece := do
  let t ← first? .token ps
  let s ← [Sign.plus, Sign.minus].find? fun s => s.text = t.text
  some ⟨.sign, s⟩

/-- A number, or a word behind a sign. -/
def number (ps : List Piece) : Option Piece := do
  let sign? ← atMostOne? .sign ps
  let last ← ps.getLast?
  let t ← last.as? .token
  let negative := sign? = some Sign.minus
  match t.terminal with
  | .int =>
    let i ← t.intValue.toOption
    some ⟨.constant, .int (if negative then -i else i), t.position⟩
  | .float => some ⟨.constant, .float (Decimal.ofNumeral negative t.lexeme), t.position⟩
  | _ =>
    if t.text = "inf" then some ⟨.constant, .float (Decimal.infinity negative), t.position⟩
    else if t.text = "nan" then some ⟨.constant, .float Decimal.notANumber, t.position⟩
    else some ⟨.constant, .ident ((sign?.map Sign.text).getD "" ++ t.text), t.position⟩

/-- An integer; a token in front of its digits is the minus sign. -/
def signedInt (ps : List Piece) : Option Piece := do
  let last ← ps.getLast?
  let t ← last.as? .token
  let i ← t.intValue.toOption
  some ⟨.integer, if ps.length = 2 then -i else i⟩

/-- An identifier or literal as a constant; every other constant is left as it is. -/
def constant (ps : List Piece) : Option Piece := do
  let p ← ps.head?
  match p with
  | ⟨.ident, i⟩ => some ⟨.constant, .ident i.text, some i.position⟩
  | ⟨.strings, b⟩ => some ⟨.constant, .string (.ofBytes b.bytes), some b.position⟩
  | p => some p

/-- The value of a constant without its place, or a list. -/
def plain? : Piece → Option Value
  | ⟨.constant, c⟩ => some c.value
  | ⟨.list, items⟩ => some (.list items)
  | _ => none

def aggregate (ps : List Piece) : Option Piece := do
  let entries ← allAre? .entry ps
  some ⟨.constant, .ofEntries entries⟩

def aggregateField : List Piece → Option Piece
  | [⟨.key, k⟩, p] => do
    let v ← p.plain?
    some ⟨.entry, k, v⟩
  | _ => none

/-- A name as a key, or an extension's name in brackets. -/
def aggregateKey : List Piece → Option Piece
  | ⟨.ident, i⟩ :: _ => some ⟨.key, "[" ++ i.text ++ "]"⟩
  | ⟨.name, i⟩ :: _ => some ⟨.key, i.text⟩
  | _ => none

def aggregateList (ps : List Piece) : Option Piece := do
  let items ← ps.mapM plain?
  some ⟨.list, items⟩

/-! ## Options -/

def extensionName (ps : List Piece) : Option Piece := do
  let i ← first? .ident ps
  some ⟨.name, "(" ++ i.text ++ ")", i.position⟩

def optionName (ps : List Piece) : Option Piece := do
  let parts ← allAre? .name ps
  let first ← parts.head?
  some ⟨.name, ".".intercalate (parts.map Ident.text), first.position⟩

def option : List Piece → Option Piece
  | [⟨.name, n⟩, ⟨.constant, c⟩] => some ⟨.option, n.text, c, n.position⟩
  | _ => none

def fieldOptions (ps : List Piece) : Option Piece := do
  let options ← allAre? .option ps
  some ⟨.fieldOptions, options⟩

/-! ## Fields -/

/-- The label with a spelling. -/
def label (ps : List Piece) : Option Piece := do
  let t ← first? .token ps
  let l ← [Label.optional, Label.required, Label.repeated].find? fun l => l.name = t.text
  some ⟨.label, l⟩

/-- The number of a field, which is no negative one. -/
def fieldNumber (ps : List Piece) : Option Piece := do
  let t ← first? .token ps
  match t.intValue with
  | .ok (.ofNat n) => some ⟨.fieldNumber, n⟩
  | _ => none

def field (ps : List Piece) : Option Piece := do
  let name ← one? .name ps
  let type ← one? .ident ps
  let number ← one? .fieldNumber ps
  let label ← atMostOne? .label ps
  let options ← optionsIn? ps
  some ⟨.field, name.text, number, .named type.text (some type.position), label, options, none,
    name.position⟩

def mapField (ps : List Piece) : Option Piece := do
  let name ← one? .name ps
  let number ← one? .fieldNumber ps
  let options ← optionsIn? ps
  match allOf .ident ps with
  | [key, value] =>
    some ⟨.field, name.text, number, .map key.text value.text value.position, none, options, none,
      name.position⟩
  | _ => none

/-- A oneof gives its name to the fields in it. -/
def oneof (ps : List Piece) : Option Piece := do
  let name ← first? .name ps
  let fields := (allOf .field ps).map fun f => { f with oneof := some name.text }
  some ⟨.oneof, name.text, fields⟩

def extend (ps : List Piece) : Option Piece := do
  let extendee ← first? .ident ps
  some ⟨.extend, extendee.text, allOf .field ps, extendee.position⟩

/-! ## Messages -/

/-- A message with one more piece of its body. -/
def addTo (m : MessageDecl) : Piece → MessageDecl
  | ⟨.field, f⟩ => { m with fields := m.fields ++ [f] }
  | ⟨.group, g⟩ => { m with fields := m.fields ++ [g.field], messages := m.messages ++ [g.body] }
  | ⟨.oneof, o⟩ => { m with oneofs := m.oneofs ++ [o.name], fields := m.fields ++ o.fields }
  | ⟨.message, n⟩ => { m with messages := m.messages ++ [n] }
  | ⟨.enum, e⟩ => { m with enums := m.enums ++ [e] }
  | ⟨.extend, e⟩ => { m with extendBlocks := m.extendBlocks ++ [e] }
  | ⟨.extensions, rs⟩ => { m with extensionRanges := m.extensionRanges ++ rs }
  | ⟨.reserved, r⟩ =>
    { m with
      reservedRanges := m.reservedRanges ++ r.ranges
      reservedNames := m.reservedNames ++ r.names }
  | ⟨.option, o⟩ => { m with options := m.options ++ [o] }
  | _ => m

/-- The message whose body consists of some pieces. -/
def messageOf (name : Ident) (body : List Piece) : MessageDecl :=
  body.foldl addTo ⟨name.text, [], [], [], [], [], [], [], [], [], name.position⟩

def message : List Piece → Option Piece
  | ⟨.name, n⟩ :: body => some ⟨.message, messageOf n body⟩
  | _ => none

/-- Whether a piece behind the name of a group belongs to its body. -/
def isOfBody (p : Piece) : Bool := p.kind ≠ .fieldNumber ∧ p.kind ≠ .fieldOptions

/-- A group: everything behind its name but its number and options is the body. -/
def group : List Piece → Option Piece
  | ⟨.label, l⟩ :: ⟨.name, n⟩ :: ps => do
    let number ← one? .fieldNumber ps
    let options ← optionsIn? ps
    some ⟨.group,
      ⟨n.text.toLower, number, .group n.text, some l, options, none, n.position⟩,
      messageOf n (ps.filter isOfBody)⟩
  | _ => none

/-! ## Numbers and names that are set aside -/

def range : List Piece → Option Piece
  | [⟨.integer, i⟩] => some ⟨.range, i, some i⟩
  | [⟨.integer, i⟩, ⟨.integer, j⟩] => some ⟨.range, i, some j⟩
  | _ => none

/-- A range up to the maximum. -/
def openRange : List Piece → Option Piece
  | [⟨.integer, i⟩] => some ⟨.range, i, none⟩
  | _ => none

def ranges (ps : List Piece) : Option Piece := do
  let ranges ← allAre? .range ps
  some ⟨.ranges, ranges⟩

def reservedNames (ps : List Piece) : Option Piece := do
  let literals ← allAre? .strings ps
  some ⟨.reservedNames, literals.map fun b => .ofBytes b.bytes⟩

def reserved (ps : List Piece) : Option Piece := do
  let ranges? ← atMostOne? .ranges ps
  let names? ← atMostOne? .reservedNames ps
  some ⟨.reserved, ranges?.getD [], names?.getD []⟩

def extensions (ps : List Piece) : Option Piece := do
  let ranges ← one? .ranges ps
  some ⟨.extensions, ranges⟩

/-! ## Enums -/

def enumValue : List Piece → Option Piece
  | ⟨.name, n⟩ :: ⟨.integer, i⟩ :: ps => do
    let options ← optionsIn? ps
    some ⟨.enumValue, n.text, i, options, n.position⟩
  | _ => none

def enum (ps : List Piece) : Option Piece := do
  let name ← first? .name ps
  let reserved := allOf .reserved ps
  some ⟨.enum, name.text, allOf .enumValue ps, allOf .option ps,
    reserved.flatMap ReservedDecl.ranges, reserved.flatMap ReservedDecl.names, name.position⟩

/-! ## Services -/

def stream (_ : List Piece) : Option Piece := some ⟨.stream, ()⟩

def rpcType (ps : List Piece) : Option Piece := do
  let type ← one? .ident ps
  some ⟨.rpcType, type.text, !(allOf .stream ps).isEmpty⟩

def method (ps : List Piece) : Option Piece := do
  let name ← first? .name ps
  match allOf .rpcType ps with
  | [input, output] =>
    some ⟨.method, name.text, input.name, output.name, input.streaming, output.streaming,
      allOf .option ps, name.position⟩
  | _ => none

def service (ps : List Piece) : Option Piece := do
  let name ← first? .name ps
  some ⟨.service, name.text, allOf .method ps, allOf .option ps, name.position⟩

/-! ## Files -/

/-- The modifier with a spelling. -/
def modifier (ps : List Piece) : Option Piece := do
  let t ← first? .token ps
  let m ← [ImportModifier.asPublic, ImportModifier.asWeak].find? fun m => m.name = t.text
  some ⟨.modifier, m⟩

def dependency (ps : List Piece) : Option Piece := do
  let path ← one? .strings ps
  let modifier ← atMostOne? .modifier ps
  some ⟨.dependency, .ofBytes path.bytes, modifier, path.position⟩

def package (ps : List Piece) : Option Piece := do
  let i ← first? .ident ps
  some ⟨.package, i⟩

def dialect (ps : List Piece) : Option Piece := do
  let b ← first? .strings ps
  let d ← Dialect.ofName? (.ofBytes b.bytes)
  some ⟨.dialect, d⟩

/-- A file, still without a name. It has one package at most. -/
def file (ps : List Piece) : Option Piece := do
  let package ← atMostOne? .package ps
  let dialect ← atMostOne? .dialect ps
  some ⟨.file, {
    name := ""
    dialect := dialect.getD .proto2
    package := package.map Ident.text
    imports := allOf .dependency ps
    messages := allOf .message ps
    enums := allOf .enum ps
    services := allOf .service ps
    extendBlocks := allOf .extend ps
    options := allOf .option ps }⟩

end Piece

end ProtoSchema
