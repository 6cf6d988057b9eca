import ProtoSchema.Linker.Basic
import ProtoSchema.Name.Dotted

/-!
# Declaring files

Declaring a file enters its packages, messages, enums, extensions and services, in this order. A
declaration whose name is taken is dropped with everything inside it; a field or enum value that
breaks a rule of its message or enum is dropped alone. Each dropped declaration is noted.
-/

namespace ProtoSchema

/-! ## Rules for fields and enum values -/

/-- The names and numbers that the fields of a message must keep clear of: those it reserves, and
those of the fields before. -/
structure FieldRules where
  message : String
  reservedRanges : List NumberRange
  reservedNames : List Text
  taken : List (Nat × String)

/-- The numbers that no field may have. -/
def isImplementationNumber (n : Nat) : Bool := 19000 ≤ n ∧ n < 20000

/-- The first rule that a field breaks. -/
def FieldRules.problem? (rules : FieldRules) (f : FieldDecl) : Option LinkProblem :=
  if ¬ (1 ≤ f.number ∧ f.number ≤ maxFieldNumber) then
    some (.fieldNumberOutOfRange f.name f.number)
  else if isImplementationNumber f.number then some (.implementationFieldNumber f.name f.number)
  else if NumberRange.anyContains rules.reservedRanges maxFieldNumber f.number then
    some (.reservedFieldNumber f.name f.number)
  else if rules.reservedNames.contains (Text.ofString f.name) then
    some (.reservedFieldName f.name rules.message)
  else if rules.taken.any (·.2 = f.name) then some (.fieldNameTaken f.name rules.message)
  else
    (rules.taken.find? (·.1 = f.number)).map fun holder =>
      .fieldNumberTaken f.number rules.message holder.2

/-- The rules for the fields after one that was accepted. -/
def FieldRules.take (rules : FieldRules) (f : FieldDecl) : FieldRules :=
  { rules with taken := rules.taken ++ [(f.number, f.name)] }

/-- The bounds of the numbers of enum values. -/
def minEnumNumber : Int := -0x80000000

@[inherit_doc minEnumNumber]
def maxEnumNumber : Int := 0x7FFFFFFF

/-- The flag that a value spells. -/
def Value.flag? : Value → Option Bool
  | .ident "true" => some true
  | .ident "false" => some false
  | _ => none

/-- Whether an enum lets several of its values have one number. -/
def EnumDecl.allowsAlias (e : EnumDecl) : Bool :=
  e.options.any fun o => o.name == "allow_alias" && o.value.value.flag? == some true

/-- The first rule that an enum value breaks, where `accepted` are the values before it. -/
def EnumDecl.problem? (e : EnumDecl) (fullName : String) (accepted : List EnumValueDecl)
    (v : EnumValueDecl) : Option LinkProblem :=
  if accepted.any (·.name = v.name) then some (.enumValueTaken v.name fullName)
  else if ¬ (minEnumNumber ≤ v.number ∧ v.number ≤ maxEnumNumber) then
    some (.enumNumberOutOfRange v.name v.number)
  else if NumberRange.anyContains e.reservedRanges maxEnumNumber v.number then
    some (.reservedEnumNumber v.name v.number)
  else if e.reservedNames.contains (Text.ofString v.name) then
    some (.reservedEnumName v.name fullName)
  else if e.allowsAlias then none
  else
    (accepted.find? (·.number = v.number)).map fun holder =>
      .enumAlias v.name v.number holder.name fullName

namespace Linker

/-! ## Packages, enums and extensions -/

/-- Opens the package of a file and all packages around it. -/
def declarePackage (l : Linker) (file : FileScope) : Linker :=
  (Dotted.packages file.package).foldl
    (fun l name => (l.define file none ⟨.package, name, none, none⟩).1) l

/-- Accepts the values of an enum that keep the rules; `accepted` are those before. -/
def acceptValues (l : Linker) (file : FileScope) (e : EnumDecl) (fullName : String) :
    (accepted values : List EnumValueDecl) → Linker × List EnumValueDecl
  | accepted, [] => (l, accepted)
  | accepted, v :: vs =>
    match e.problem? fullName accepted v with
    | some p => (l.report file (some v.position) p).acceptValues file e fullName accepted vs
    | none => l.acceptValues file e fullName (accepted ++ [v]) vs

/-- Declares an enum. One without values is noted but kept. -/
def declareEnum (l : Linker) (file : FileScope) (scope : String) (parent : Option Nat)
    (e : EnumDecl) : Linker :=
  let fullName := Dotted.join scope e.name
  let place := l.enums.size
  match l.define file (some e.position) ⟨.enum, fullName, some file.name, some place⟩ with
  | (l, false) => l
  | (l, true) =>
    let (l, values) := l.acceptValues file e fullName [] e.values
    let l :=
      if values.isEmpty then l.report file (some e.position) (.emptyEnum fullName) else l
    let l := { l with enums := l.enums.push ⟨e.name, fullName, file, parent, values⟩ }
    l.modifyParent parent fun m => { m with enums := m.enums ++ [place] }

/-- Declares the extensions of an extend block. They get their owners when the files are linked. -/
def declareExtend (l : Linker) (file : FileScope) (scope : String) (e : ExtendDecl) : Linker :=
  let entry (f : FieldDecl) : ExtensionEntry :=
    ⟨⟨f, Dotted.join scope f.name, scope, file, none, .unresolved⟩, e.extendee⟩
  { l with extensions := l.extensions ++ (e.fields.map entry).toArray }

/-! ## Messages -/

/-- Adds a message to its arena and to the message it is nested in. -/
def addMessage (l : Linker) (m : MessageEntry) : Linker :=
  let place := l.messages.size
  ({ l with messages := l.messages.push m }).modifyParent m.parent fun outer =>
    { outer with messages := outer.messages ++ [place] }

/-- Adds a field to the message at place `owner`, whose full name is its scope. -/
def addField (l : Linker) (file : FileScope) (owner : Nat) (scope : String) (f : FieldDecl) :
    Linker :=
  let place := l.fields.size
  let entry : FieldEntry :=
    ⟨f, Dotted.join scope f.name, scope, file, some owner, .unresolved⟩
  ({ l with fields := l.fields.push entry }).modifyMessage owner fun m =>
    { m with fields := m.fields ++ [place] }

/-- The key of the entries of a map field. -/
def keyField (f : FieldDecl) (key : String) : FieldDecl :=
  ⟨"key", 1, .named key none, some .optional, [], none, f.position⟩

/-- The value of the entries of a map field. -/
def valueField (f : FieldDecl) (value : String) (position : Position) : FieldDecl :=
  ⟨"value", 2, .named value (some position), some .optional, [], none, f.position⟩

/-- Declares the entry message of a map field, nested in the message that holds the field, and says
whether that was possible. -/
def declareMapEntry (l : Linker) (file : FileScope) (owner : Nat) (scope : String) (f : FieldDecl)
    (key value : String) (valuePosition : Position) : Linker × Bool :=
  let name := MapEntry.name f.name
  let fullName := Dotted.join scope name
  let place := l.messages.size
  match l.define file (some f.position) ⟨.message, fullName, some file.name, some place⟩ with
  | (l, false) => (l, false)
  | (l, true) =>
    let l := l.addMessage ⟨name, fullName, file, some owner, true, [], [], [], [], []⟩
    let l := l.addField file place fullName (keyField f key)
    (l.addField file place fullName (valueField f value valuePosition), true)

/-- The field that a map field stands for: it repeats the entry message. -/
def mapField (f : FieldDecl) : FieldDecl :=
  ⟨f.name, f.number, .named (MapEntry.name f.name) none, some .repeated, f.options, none,
    f.position⟩

/-- Declares the fields of a message. A map field is dropped if its entry message cannot be
declared, but its name and number stay taken. -/
def declareFields (l : Linker) (file : FileScope) (owner : Nat) (scope : String)
    (rules : FieldRules) : List FieldDecl → Linker
  | [] => l
  | f :: fs =>
    match rules.problem? f with
    | some p => (l.report file (some f.position) p).declareFields file owner scope rules fs
    | none =>
      match f.shape with
      | .map key value valuePosition =>
        match l.declareMapEntry file owner scope f key value valuePosition with
        | (l, true) =>
          (l.addField file owner scope (mapField f)).declareFields file owner scope (rules.take f)
            fs
        | (l, false) => l.declareFields file owner scope (rules.take f) fs
      | .named .. | .group _ =>
        (l.addField file owner scope f).declareFields file owner scope (rules.take f) fs

mutual

/-- Declares a message: first what is nested in it, then its fields and its extensions. -/
def declareMessage (l : Linker) (file : FileScope) (scope : String) (parent : Option Nat) :
    MessageDecl → Linker
  | ⟨name, fields, messages, enums, extendBlocks, _, _, extensionRanges, reservedRanges,
      reservedNames, position⟩ =>
    let fullName := Dotted.join scope name
    let place := l.messages.size
    match l.define file (some position) ⟨.message, fullName, some file.name, some place⟩ with
    | (l, false) => l
    | (l, true) =>
      let l := l.addMessage ⟨name, fullName, file, parent, false, extensionRanges, [], [], [], []⟩
      let l := enums.foldl (fun l e => l.declareEnum file fullName (some place) e) l
      let l := l.declareMessages file fullName (some place) messages
      let l := l.declareFields file place fullName
        ⟨fullName, reservedRanges, reservedNames, []⟩ fields
      extendBlocks.foldl (fun l e => l.declareExtend file fullName e) l

/-- Declares several messages. -/
def declareMessages (l : Linker) (file : FileScope) (scope : String) (parent : Option Nat) :
    List MessageDecl → Linker
  | [] => l
  | m :: ms => (l.declareMessage file scope parent m).declareMessages file scope parent ms

end

/-! ## Services and files -/

/-- Declares a method of a service. -/
def declareMethod (l : Linker) (file : FileScope) (service : String) (m : MethodDecl) : Linker :=
  let fullName := Dotted.join service m.name
  let place := l.methods.size
  match l.define file (some m.position) ⟨.method, fullName, some file.name, some place⟩ with
  | (l, false) => l
  | (l, true) => { l with methods := l.methods.push ⟨m, fullName, service, file⟩ }

/-- Declares a service. -/
def declareService (l : Linker) (file : FileScope) (s : ServiceDecl) : Linker :=
  let fullName := Dotted.join file.package s.name
  match l.define file (some s.position) ⟨.service, fullName, some file.name, none⟩ with
  | (l, false) => l
  | (l, true) => s.methods.foldl (fun l m => l.declareMethod file fullName m) l

/-- Declares everything in a file. -/
def declare (l : Linker) (f : SchemaFile) : Linker :=
  let file := f.scope
  let l := l.addFile file
  let l := l.declarePackage file
  let l := l.declareMessages file file.package none f.messages
  let l := f.enums.foldl (fun l e => l.declareEnum file file.package none e) l
  let l := f.extendBlocks.foldl (fun l e => l.declareExtend file file.package e) l
  f.services.foldl (fun l s => l.declareService file s) l

end Linker

end ProtoSchema
