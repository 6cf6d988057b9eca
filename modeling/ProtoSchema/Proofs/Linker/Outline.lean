import ProtoSchema.Proofs.Linker.Step

/-!
# Outlines of files

The outline of a declaration is what it enters into a linker if nothing is wrong: one entry for
every message, field, extension, enum and method at any depth, and for each map field an entry
message with two fields, all in the order in which they are entered. Places are left out of it, so
that it does not depend on what has been declared before; of what something is nested in, it keeps
only whether it is nested. That suffices, since a full name tells the scope.
-/

namespace ProtoSchema

/-- A message without its places. -/
structure MessageSite where
  name : String
  fullName : String
  file : FileScope
  isNested : Bool
  isMapEntry : Bool
  extensionRanges : List NumberRange
  deriving DecidableEq

/-- An enum without its places. -/
structure EnumSite where
  name : String
  fullName : String
  file : FileScope
  isNested : Bool
  values : List EnumValueDecl

/-- A message without its places, with the fields that are declared in it. -/
structure MessageOutline extends MessageSite where
  fields : List FieldDecl

/-- What declarations enter into a linker, in order. Definitions and entries have no places, and
fields no owners. -/
@[ext]
structure Outline where
  definitions : List Definition
  messages : List MessageOutline
  fields : List FieldEntry
  extensions : List ExtensionEntry
  enums : List EnumSite
  methods : List MethodEntry

/-- The header of a message without its places. -/
def MessageHeader.site (m : MessageHeader) : MessageSite :=
  ⟨m.name, m.fullName, m.file, m.parent.isSome, m.isMapEntry, m.extensionRanges⟩

/-- An enum without its places. -/
def EnumEntry.site (e : EnumEntry) : EnumSite :=
  ⟨e.name, e.fullName, e.file, e.parent.isSome, e.values⟩

/-- A definition without its place. -/
def Definition.unplaced (d : Definition) : Definition := { d with place := none }

/-- A field without its owner. -/
def FieldEntry.unowned (f : FieldEntry) : FieldEntry := { f with owner := none }

namespace Outline

/-- The outline of nothing. -/
def empty : Outline := ⟨[], [], [], [], [], []⟩

/-- One outline after another. -/
def append (o o' : Outline) : Outline :=
  ⟨o.definitions ++ o'.definitions, o.messages ++ o'.messages, o.fields ++ o'.fields,
    o.extensions ++ o'.extensions, o.enums ++ o'.enums, o.methods ++ o'.methods⟩

instance : Append Outline := ⟨append⟩

/-- Several outlines after one another. -/
def flatten (os : List Outline) : Outline :=
  ⟨os.flatMap definitions, os.flatMap messages, os.flatMap fields, os.flatMap extensions,
    os.flatMap enums, os.flatMap methods⟩

@[simp] theorem append_definitions (o o' : Outline) :
    (o ++ o').definitions = o.definitions ++ o'.definitions := rfl

@[simp] theorem append_messages (o o' : Outline) :
    (o ++ o').messages = o.messages ++ o'.messages := rfl

@[simp] theorem append_fields (o o' : Outline) : (o ++ o').fields = o.fields ++ o'.fields := rfl

@[simp] theorem append_extensions (o o' : Outline) :
    (o ++ o').extensions = o.extensions ++ o'.extensions := rfl

@[simp] theorem append_enums (o o' : Outline) : (o ++ o').enums = o.enums ++ o'.enums := rfl

@[simp] theorem append_methods (o o' : Outline) :
    (o ++ o').methods = o.methods ++ o'.methods := rfl

theorem flatten_nil : flatten [] = empty := rfl

theorem flatten_cons (o : Outline) (os : List Outline) : flatten (o :: os) = o ++ flatten os := rfl

theorem empty_append (o : Outline) : empty ++ o = o := by
  ext1 <;> simp [empty]

theorem append_empty (o : Outline) : o ++ empty = o := by
  ext1 <;> simp [empty]

theorem append_assoc (o o' o'' : Outline) : o ++ o' ++ o'' = o ++ (o' ++ o'') := by
  ext1 <;> simp

theorem flatten_append (os os' : List Outline) :
    flatten (os ++ os') = flatten os ++ flatten os' := by
  induction os with
  | nil => rfl
  | cons o os ih => rw [List.cons_append, flatten_cons, flatten_cons, ih, append_assoc]

end Outline

/-! ## Fields and enums -/

/-- A field of a message, as it is entered; a map field repeats its entry message. -/
def FieldDecl.entered (f : FieldDecl) : FieldDecl :=
  match f.shape with
  | .map .. => Linker.mapField f
  | .named .. | .group _ => f

/-- The entry of a field in the scope of its message. -/
def FieldDecl.entry (file : FileScope) (scope : String) (f : FieldDecl) : FieldEntry :=
  ⟨f, Dotted.join scope f.name, scope, file, none, .unresolved⟩

/-- The outline of a message without what it holds. -/
def Outline.ofMessage (m : MessageOutline) : Outline :=
  { Outline.empty with
    definitions := [⟨.message, m.fullName, some m.file.name, none⟩]
    messages := [m] }

/-- The outline of a field alone. -/
def Outline.ofField (f : FieldEntry) : Outline := { Outline.empty with fields := [f] }

/-- The outline of the entry message of a map field. -/
def FieldDecl.mapOutline (file : FileScope) (scope : String) (f : FieldDecl) (key value : String)
    (position : Position) : Outline :=
  let name := MapEntry.name f.name
  let fullName := Dotted.join scope name
  let fields := [Linker.keyField f key, Linker.valueField f value position]
  Outline.ofMessage ⟨⟨name, fullName, file, true, true, []⟩, fields⟩ ++
    .ofField ((Linker.keyField f key).entry file fullName) ++
    .ofField ((Linker.valueField f value position).entry file fullName)

/-- The outline of a field of a message. -/
def FieldDecl.outline (file : FileScope) (scope : String) (f : FieldDecl) : Outline :=
  match f.shape with
  | .map key value position =>
    f.mapOutline file scope key value position ++
      .ofField ((Linker.mapField f).entry file scope)
  | .named .. | .group _ => .ofField (f.entry file scope)

/-- The outline of an enum. -/
def EnumDecl.outline (file : FileScope) (scope : String) (isNested : Bool) (e : EnumDecl) :
    Outline :=
  let fullName := Dotted.join scope e.name
  { Outline.empty with
    definitions := [⟨.enum, fullName, some file.name, none⟩]
    enums := [⟨e.name, fullName, file, isNested, e.values⟩] }

/-- The outline of an extend block. -/
def ExtendDecl.outline (file : FileScope) (scope : String) (e : ExtendDecl) : Outline :=
  { Outline.empty with extensions := e.fields.map (Linker.extensionEntry file scope e.extendee) }

/-! ## Messages -/

mutual

/-- The outline of a message: the message itself, its enums, the messages nested in it, its fields
and its extensions. -/
def MessageDecl.outline (file : FileScope) (scope : String) (isNested : Bool) :
    MessageDecl → Outline
  | ⟨name, fields, messages, enums, extendBlocks, _, _, extensionRanges, _, _, _⟩ =>
    let fullName := Dotted.join scope name
    let site : MessageSite := ⟨name, fullName, file, isNested, false, extensionRanges⟩
    Outline.ofMessage ⟨site, fields⟩ ++
      (.flatten (enums.map (EnumDecl.outline file fullName true)) ++
        (MessageDecl.outlineAll file fullName true messages ++
          (.flatten (fields.map (FieldDecl.outline file fullName)) ++
            .flatten (extendBlocks.map (ExtendDecl.outline file fullName)))))

/-- The outline of several messages. -/
def MessageDecl.outlineAll (file : FileScope) (scope : String) (isNested : Bool) :
    List MessageDecl → Outline
  | [] => Outline.empty
  | m :: ms => m.outline file scope isNested ++ MessageDecl.outlineAll file scope isNested ms

end

/-! ## Services and files -/

/-- The outline of a method of a service. -/
def MethodDecl.outline (file : FileScope) (service : String) (m : MethodDecl) : Outline :=
  let fullName := Dotted.join service m.name
  { Outline.empty with
    definitions := [⟨.method, fullName, some file.name, none⟩]
    methods := [⟨m, fullName, service, file⟩] }

/-- The outline of a service. -/
def ServiceDecl.outline (file : FileScope) (s : ServiceDecl) : Outline :=
  let fullName := Dotted.join file.package s.name
  { Outline.empty with definitions := [⟨.service, fullName, some file.name, none⟩] } ++
    .flatten (s.methods.map (MethodDecl.outline file fullName))

/-- The outline of the packages around a file. -/
def FileScope.packageOutline (file : FileScope) : Outline :=
  { Outline.empty with
    definitions := (Dotted.packages file.package).map fun name => ⟨.package, name, none, none⟩ }

/-- The outline of a file. -/
def SchemaFile.outline (f : SchemaFile) : Outline :=
  let file := f.scope
  file.packageOutline ++
    (MessageDecl.outlineAll file file.package false f.messages ++
      (.flatten (f.enums.map (EnumDecl.outline file file.package false)) ++
        (.flatten (f.extendBlocks.map (ExtendDecl.outline file file.package)) ++
          .flatten (f.services.map (ServiceDecl.outline file)))))

/-- The outline of several files, in turn. -/
def Outline.ofFiles (files : List SchemaFile) : Outline :=
  .flatten (files.map SchemaFile.outline)

/-! ## Rules inside declarations -/

/-- A field breaks no rule just if its number may be had and is not reserved, and if neither its name
nor its number is reserved or taken. -/
theorem FieldRules.problem?_eq_none_iff {rules : FieldRules} {f : FieldDecl} :
    rules.problem? f = none ↔ (1 ≤ f.number ∧ f.number ≤ maxFieldNumber) ∧
      isImplementationNumber f.number = false ∧
      NumberRange.anyContains rules.reservedRanges maxFieldNumber f.number = false ∧
      rules.reservedNames.contains (Text.ofString f.name) = false ∧
      f.name ∉ rules.taken.map (·.2) ∧ f.number ∉ rules.taken.map (·.1) := by
  have hnumber : f.number ∉ rules.taken.map (·.1) ↔ ∀ x ∈ rules.taken, x.1 ≠ f.number := by
    simp only [List.mem_map, not_exists, not_and]
  rw [hnumber]
  unfold problem?
  by_cases hrange : 1 ≤ f.number ∧ f.number ≤ maxFieldNumber
  · rw [if_neg (not_not_intro hrange)]
    split_ifs with himplementation hreserved hname htaken
    all_goals simp_all
  · rw [if_pos hrange]
    exact iff_of_false nofun fun h => hrange h.1

/-- A value breaks no rule just if its name is new, its number may be had, and neither is reserved,
and if the number is new unless the enum lets its values share one. -/
theorem EnumDecl.problem?_eq_none_iff {e : EnumDecl} {fullName : String}
    {accepted : List EnumValueDecl} {v : EnumValueDecl} :
    e.problem? fullName accepted v = none ↔ v.name ∉ accepted.map (·.name) ∧
      (minEnumNumber ≤ v.number ∧ v.number ≤ maxEnumNumber) ∧
      NumberRange.anyContains e.reservedRanges maxEnumNumber v.number = false ∧
      e.reservedNames.contains (Text.ofString v.name) = false ∧
      (e.allowsAlias = true ∨ v.number ∉ accepted.map (·.number)) := by
  unfold problem?
  by_cases hrange : minEnumNumber ≤ v.number ∧ v.number ≤ maxEnumNumber
  · rw [if_neg (not_not_intro hrange)]
    split_ifs with hname hreserved hreservedName halias
    all_goals simp_all
  · rw [if_pos hrange]
    split_ifs <;> exact iff_of_false nofun fun h => hrange h.2.1

/-- No value of an enum breaks a rule, where `accepted` are those before. -/
def EnumDecl.AcceptsAll (e : EnumDecl) (fullName : String) :
    (accepted values : List EnumValueDecl) → Prop
  | _, [] => True
  | accepted, v :: vs =>
    e.problem? fullName accepted v = none ∧ e.AcceptsAll fullName (accepted ++ [v]) vs

/-- An enum has values, and none breaks a rule. -/
def EnumDecl.Tidy (scope : String) (e : EnumDecl) : Prop :=
  e.AcceptsAll (Dotted.join scope e.name) [] e.values ∧ e.values ≠ []

/-- None of some fields breaks a rule. -/
def FieldRules.AcceptsAll (rules : FieldRules) : List FieldDecl → Prop
  | [] => True
  | f :: fs => rules.problem? f = none ∧ (rules.take f).AcceptsAll fs

mutual

/-- No enum value and no field breaks a rule, in a message and in all messages nested in it. -/
def MessageDecl.Tidy (scope : String) : MessageDecl → Prop
  | ⟨name, fields, messages, enums, _, _, _, _, reservedRanges, reservedNames, _⟩ =>
    let fullName := Dotted.join scope name
    (∀ e ∈ enums, e.Tidy fullName) ∧ MessageDecl.TidyAll fullName messages ∧
      FieldRules.AcceptsAll ⟨fullName, reservedRanges, reservedNames, []⟩ fields

/-- No enum value and no field breaks a rule in any of several messages. -/
def MessageDecl.TidyAll (scope : String) : List MessageDecl → Prop
  | [] => True
  | m :: ms => m.Tidy scope ∧ MessageDecl.TidyAll scope ms

end

/-- No enum value and no field of a file breaks a rule. -/
def SchemaFile.Tidy (f : SchemaFile) : Prop :=
  MessageDecl.TidyAll f.scope.package f.messages ∧ ∀ e ∈ f.enums, e.Tidy f.scope.package

end ProtoSchema
