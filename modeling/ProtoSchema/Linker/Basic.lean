import ProtoSchema.Descriptor.Basic
import ProtoSchema.Problem.Report

/-!
# The linker's state

The linker collects the declarations of many files: what each full name stands for, and each
message, field, extension, enum and method in the order of its declaration. Problems are noted and
never stop it.
-/

namespace ProtoSchema

/-- What the linker has to know of a file: its name, its dialect, its package (empty if it has
none) and its imports. -/
structure FileScope where
  name : Text
  dialect : Dialect
  package : String
  imports : List ImportDecl
  deriving DecidableEq, Repr

/-- The scope of a schema file. -/
def SchemaFile.scope (f : SchemaFile) : FileScope :=
  ⟨f.name, f.dialect, f.package.getD "", f.imports⟩

/-- The names of the files that a file imports. -/
def FileScope.importNames (f : FileScope) : List Text := f.imports.map (·.path)

/-- What a full name stands for. A package belongs to no file; messages, enums and methods have a
place in their arena. -/
structure Definition where
  kind : DefinitionKind
  fullName : String
  file : Option Text
  place : Option Nat
  deriving DecidableEq, Repr

/-- What the type reference of a field has been found to mean. A field that is linked again keeps
what no longer can be found. -/
structure TypeLink where
  type : FieldType
  typeName : String
  messageType : Option Nat
  enumType : Option Nat
  deriving DecidableEq, Repr

/-- The link of a field whose type has not been looked up. -/
def TypeLink.unresolved : TypeLink := ⟨.unresolved, "", none, none⟩

/-- A declared field. Its type reference is looked up from `scope`. -/
structure FieldEntry where
  decl : FieldDecl
  fullName : String
  scope : String
  file : FileScope
  owner : Option Nat
  link : TypeLink

/-- A declared extension: a field whose owner is the message that `extendee` turns out to be. -/
structure ExtensionEntry where
  field : FieldEntry
  extendee : String

/-- A declared message, with the places of what belongs to it. -/
structure MessageEntry where
  name : String
  fullName : String
  file : FileScope
  parent : Option Nat
  isMapEntry : Bool
  extensionRanges : List NumberRange
  fields : List Nat
  extensions : List Nat
  messages : List Nat
  enums : List Nat
  deriving DecidableEq, Repr

/-- A declared enum, with those of its values that were accepted. -/
structure EnumEntry where
  name : String
  fullName : String
  file : FileScope
  parent : Option Nat
  values : List EnumValueDecl

/-- A declared method of a service. -/
structure MethodEntry where
  decl : MethodDecl
  fullName : String
  service : String
  file : FileScope

/-- The state of the linker. `visible` remembers, for each file from which a name has been looked
up, the files whose definitions may be used there. -/
structure Linker where
  files : List FileScope
  definitions : List Definition
  messages : Array MessageEntry
  fields : Array FieldEntry
  extensions : Array ExtensionEntry
  enums : Array EnumEntry
  methods : Array MethodEntry
  visible : List (Text × List Text)
  reports : List Report

namespace Linker

/-- A linker that knows no file. -/
def empty : Linker := ⟨[], [], #[], #[], #[], #[], #[], [], []⟩

instance : Inhabited Linker := ⟨empty⟩

/-- Notes a report. -/
def note (l : Linker) (r : Report) : Linker := { l with reports := l.reports ++ [r] }

/-- Notes a problem at a place of a file. -/
def report (l : Linker) (file : FileScope) (position : Option Position) (p : LinkProblem) :
    Linker :=
  l.note ⟨.link p, file.name, position⟩

/-- The file with a name. -/
def file? (l : Linker) (name : Text) : Option FileScope := l.files.find? (·.name = name)

/-- Adds a file; a file of the same name is replaced where it stands. -/
def addFile (l : Linker) (file : FileScope) : Linker :=
  { l with files :=
      if (l.file? file.name).isSome then
        l.files.map fun f => if f.name = file.name then file else f
      else l.files ++ [file] }

/-- What a full name stands for. -/
def definition? (l : Linker) (fullName : String) : Option Definition :=
  l.definitions.find? (·.fullName = fullName)

/-- Enters a definition and says whether that was possible. A full name that is taken stays as it
is; only a package may be opened again. -/
def define (l : Linker) (file : FileScope) (position : Option Position) (d : Definition) :
    Linker × Bool :=
  match l.definition? d.fullName with
  | none => ({ l with definitions := l.definitions ++ [d] }, true)
  | some old =>
    if old.kind = .package ∧ d.kind = .package then (l, true)
    else
      let owner := old.file.filter fun f => !f.isEmpty
      (l.report file position (.alreadyDefined d.fullName owner), false)

/-- Changes the message at a place. -/
def modifyMessage (l : Linker) (place : Nat) (f : MessageEntry → MessageEntry) : Linker :=
  { l with messages := l.messages.modify place f }

/-- Changes the message that something is nested in, if it is nested. -/
def modifyParent (l : Linker) (parent : Option Nat) (f : MessageEntry → MessageEntry) : Linker :=
  match parent with
  | some place => l.modifyMessage place f
  | none => l

end Linker

end ProtoSchema
