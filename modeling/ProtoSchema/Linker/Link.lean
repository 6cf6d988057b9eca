import ProtoSchema.Linker.Default
import ProtoSchema.Linker.Resolve

/-!
# Linking

Linking resolves the types of all fields, then the messages that extensions belong to and the types
of those extensions, then the ends of all methods, and makes records of what it found. Everything
that cannot be resolved is noted and left without a link.
-/

namespace ProtoSchema

namespace Linker

/-! ## The types of fields -/

/-- Resolves the type reference of a field. A scalar keyword always means the scalar. -/
def resolveType (l : Linker) (f : FieldEntry) : Linker × FieldEntry :=
  let name := f.decl.typeName
  match FieldType.scalar? name with
  | some t => (l, { f with link := { f.link with type := t, typeName := name } })
  | none =>
    match l.resolve f.scope name f.file (some f.decl.typePosition) with
    | (l, none) => (l, { f with link := { f.link with typeName := name } })
    | (l, some d) =>
      match d.kind, f.decl.isGroup with
      | .message, group =>
        (l, { f with link := { f.link with
          type := if group then .group else .message
          typeName := d.fullName
          messageType := d.place } })
      | .enum, false =>
        (l, { f with link := { f.link with
          type := .enum
          typeName := d.fullName
          enumType := d.place } })
      | kind, _ =>
        (l.report f.file (some f.decl.position) (.notAType name kind),
          { f with link := { f.link with typeName := name } })

/-- Resolves the type references of some fields. -/
def resolveTypes (l : Linker) : List FieldEntry → Linker × List FieldEntry
  | [] => (l, [])
  | f :: fs =>
    let (l, f) := l.resolveType f
    let (l, fs) := l.resolveTypes fs
    (l, f :: fs)

/-- Resolves the type references of all fields of messages. -/
def linkFields (l : Linker) : Linker :=
  let (l, fields) := l.resolveTypes l.fields.toList
  { l with fields := fields.toArray }

/-! ## Extensions -/

/-- The extensions at some places. -/
def extensionsAt (l : Linker) (places : List Nat) : List FieldEntry :=
  places.filterMap fun place => (l.extensions[place]?).map (·.field)

/-- The full name of the field of a message, or of an extension attached to it, that has a
number. -/
def numberHolder? (l : Linker) (attached : List Nat) (message : Nat) (m : MessageEntry)
    (number : Nat) : Option String :=
  let own := m.fields.filterMap fun place => l.fields[place]?
  let added := (l.extensionsAt attached).filter (·.owner = some message)
  ((own ++ added).find? (·.decl.number = number)).map (·.fullName)

/-- The message that an extension belongs to, or why it belongs to none. -/
def extensionOwner (l : Linker) (attached : List Nat) (e : ExtensionEntry) (d : Definition) :
    Except LinkProblem Nat :=
  match d.kind, d.place.bind fun place => (l.messages[place]?).map (place, ·) with
  | .message, some (place, m) =>
    let number := e.field.decl.number
    if ¬ NumberRange.anyContains m.extensionRanges maxFieldNumber number then
      .error (.notAnExtensionNumber m.fullName number)
    else
      match l.numberHolder? attached place m number with
      | some holder => .error (.extensionNumberTaken number m.fullName holder)
      | none => .ok place
  | _, _ => .error (.notExtendable e.extendee)

/-- Gives an extension its owner. Extensions have their places behind all fields of messages. -/
def attach (l : Linker) (attached : List Nat) (place owner : Nat) : Linker :=
  let l := { l with extensions := l.extensions.modify place fun e =>
    { e with field := { e.field with owner := some owner } } }
  l.modifyMessage owner fun m =>
    { m with extensions := m.extensions ++ [l.fields.size + attached.length] }

/-- Attaches extensions to their messages, and gives the places of all that were attached;
`attached` are those before. -/
def attachExtensions (l : Linker) : (attached places : List Nat) → Linker × List Nat
  | attached, [] => (l, attached)
  | attached, place :: places =>
    match l.extensions[place]? with
    | none => l.attachExtensions attached places
    | some e =>
      let position := some e.field.decl.position
      match l.resolve e.field.scope e.extendee e.field.file position with
      | (l, none) => l.attachExtensions attached places
      | (l, some d) =>
        match l.extensionOwner attached e d with
        | .error p => (l.report e.field.file position p).attachExtensions attached places
        | .ok owner =>
          (l.attach attached place owner).attachExtensions (attached ++ [place]) places

/-- Resolves the type references of the extensions at some places. -/
def linkExtensions (l : Linker) : (places : List Nat) → Linker
  | [] => l
  | place :: places =>
    match l.extensions[place]? with
    | none => l.linkExtensions places
    | some e =>
      let (l, field) := l.resolveType e.field
      ({ l with extensions := l.extensions.modify place ({ · with field }) }).linkExtensions
        places

/-! ## Methods -/

/-- Resolves one end of a method to the place of a message. -/
def resolveMethodEnd (l : Linker) (m : MethodEntry) (type : String) : Linker × Option Nat :=
  match l.resolve m.service type m.file (some m.decl.position) with
  | (l, none) => (l, none)
  | (l, some d) =>
    if d.kind = .message then (l, d.place)
    else (l.report m.file (some m.decl.position) (.methodEndNotMessage m.fullName type), none)

/-- The records of some methods. -/
def linkMethods (l : Linker) : List MethodEntry → Linker × List MethodRecord
  | [] => (l, [])
  | m :: ms =>
    let (l, input) := l.resolveMethodEnd m m.decl.inputType
    let (l, output) := l.resolveMethodEnd m m.decl.outputType
    let (l, records) := l.linkMethods ms
    (l, ⟨m.decl.name, m.fullName, m.service, input, output, m.decl.clientStreaming,
      m.decl.serverStreaming⟩ :: records)

/-! ## Records -/

/-- The records of the values of an enum at a place. -/
def enumValueRecords (place : Nat) (e : EnumEntry) : List EnumValueRecord :=
  let scope := Dotted.enclosing e.fullName
  e.values.map fun v => ⟨v.name, Dotted.join scope v.name, v.number, place⟩

/-- The record of an enum whose first value has the given place. -/
def enumRecord (first : Nat) (e : EnumEntry) : EnumRecord :=
  let placed := e.values.zipIdx first
  ⟨e.name, e.fullName, e.file.name, e.parent, placed.map Prod.snd,
    .ofFirst (placed.map fun v => (v.1.number, v.2)),
    .ofLast (placed.map fun v => (v.1.name, v.2))⟩

/-- The records of all enums. -/
def enumRecords (l : Linker) : List EnumRecord :=
  l.enums.toList.zipIdx.map fun e => enumRecord (l.firstValuePlace e.2) e.1

/-- The records of some fields. -/
def fieldRecords (l : Linker) :
    List (FieldEntry × Option String) → Linker × Except LinkFailure (List FieldRecord)
  | [] => (l, .ok [])
  | (f, extensionScope) :: fs =>
    let label := f.decl.label.getD .optional
    match l.fieldDefault f label with
    | (l, .error e) => (l, .error e)
    | (l, .ok default) =>
      let (l, packed) := l.fieldPacked f label
      let (l, records) := l.fieldRecords fs
      (l, records.map (⟨f.decl.name, f.fullName, f.decl.number, f.link.type, f.link.typeName,
        label, packed, default, f.owner, f.link.messageType, f.link.enumType, f.decl.oneof,
        extensionScope⟩ :: ·))

/-- The record of a message. -/
def messageRecord (fields : Array FieldRecord) (m : MessageEntry) :
    Except LinkFailure MessageRecord :=
  let places := m.fields ++ m.extensions
  match places.mapM fun place => fields[place]? with
  | none => .error .danglingExtension
  | some records =>
    let byNumber := (records.map fun f => (f.number : Int)).zip places
    let byName := (records.map fun f => f.name).zip m.fields
    .ok ⟨m.name, m.fullName, m.file.name, m.parent, m.fields, m.extensions, m.messages, m.enums,
      .ofLast byNumber, .ofLast byName, m.isMapEntry⟩

/-- The index of full names. -/
def nameIndex (names : List String) : Index String := .ofLast names.zipIdx

/-- The tables of all records. -/
def tables (l : Linker) (fields : List FieldRecord) (methods : List MethodRecord) :
    Except LinkFailure Tables :=
  let enums := l.enumRecords
  (l.messages.toList.mapM (messageRecord fields.toArray)).map fun messages =>
    { messages := messages.toArray
      fields := fields.toArray
      enums := enums.toArray
      enumValues := (l.enums.toList.zipIdx.flatMap fun e => enumValueRecords e.2 e.1).toArray
      methods := methods.toArray
      messagesByName := nameIndex (messages.map (·.fullName))
      enumsByName := nameIndex (enums.map (·.fullName))
      methodsByName := nameIndex (methods.map (·.fullName)) }

/-- Links everything that has been declared. -/
def link (l : Linker) : Linker × Except LinkFailure Tables :=
  let l := l.linkFields
  let (l, attached) := l.attachExtensions [] (List.range l.extensions.size)
  let l := l.linkExtensions attached
  let (l, methods) := l.linkMethods l.methods.toList
  let fields := l.fields.toList.map fun f => (f, none)
  let extensions := (l.extensionsAt attached).map fun f => (f, some f.scope)
  match l.fieldRecords (fields ++ extensions) with
  | (l, .error e) => (l, .error e)
  | (l, .ok fields) => (l, l.tables fields methods)

end Linker

end ProtoSchema
