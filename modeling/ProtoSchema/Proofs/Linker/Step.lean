import Mathlib.Data.List.Induction
import Mathlib.Data.List.Nodup
import Mathlib.Logic.Relation
import ProtoSchema.Linker.Files
import ProtoSchema.Proofs.Schema.Parsed

/-!
# The steps of declaring

Whatever a file declares, the linker changes in a few ways only: problems are noted, a definition
is entered together with the record it stands for, or a field or some extensions are added. `Step`
lists these changes with what is known where they happen, and `steps_declare` says that declaring a
file consists of them. What every step keeps is therefore kept by declaring, however the file is
nested and whatever is dropped from it (`ofFiles_induction`).
-/

namespace ProtoSchema

/-- The values of an enum that keep its rules, where `accepted` are those before. -/
def EnumDecl.accepted (e : EnumDecl) (fullName : String) :
    (accepted values : List EnumValueDecl) → List EnumValueDecl
  | accepted, [] => accepted
  | accepted, v :: vs =>
    match e.problem? fullName accepted v with
    | some _ => e.accepted fullName accepted vs
    | none => e.accepted fullName (accepted ++ [v]) vs

/-- What stays of a message from its declaration on; only the lists of what belongs to it grow. -/
structure MessageHeader where
  name : String
  fullName : String
  file : FileScope
  parent : Option Nat
  isMapEntry : Bool
  extensionRanges : List NumberRange
  deriving DecidableEq

/-- The header of a message. -/
def MessageEntry.header (m : MessageEntry) : MessageHeader :=
  ⟨m.name, m.fullName, m.file, m.parent, m.isMapEntry, m.extensionRanges⟩

/-- What a linker has collected, one list for each arena; the lists inside messages of what belongs
to them are left out. No entry is ever taken back. -/
structure Inventory where
  definitions : List Definition
  messages : List MessageHeader
  fields : List FieldEntry
  extensions : List ExtensionEntry
  enums : List EnumEntry
  methods : List MethodEntry

namespace Inventory

/-- The names that are directly inside `scope` belong to `parent`: a message of the file with that
full name, or the file itself with its package. -/
def Encloses (a : Inventory) (file : FileScope) (scope : String) : Option Nat → Prop
  | none => scope = file.package
  | some place => ∃ h, a.messages[place]? = some h ∧ h.fullName = scope ∧ h.file = file

end Inventory

namespace Linker

/-- The inventory of a linker. -/
def inventory (l : Linker) : Inventory :=
  ⟨l.definitions, l.messages.toList.map MessageEntry.header, l.fields.toList, l.extensions.toList,
    l.enums.toList, l.methods.toList⟩

/-! ## The changes -/

/-- Enters a definition whose name is free. -/
def enter (l : Linker) (d : Definition) : Linker := { l with definitions := l.definitions ++ [d] }

/-- Notes several reports. -/
def noteAll (l : Linker) (rs : List Report) : Linker := { l with reports := l.reports ++ rs }

/-- Enters a message that nothing belongs to yet. -/
def enterMessage (l : Linker) (file : FileScope) (scope : String) (parent : Option Nat)
    (name : String) (isMapEntry : Bool) (extensionRanges : List NumberRange) : Linker :=
  let fullName := Dotted.join scope name
  (l.enter ⟨.message, fullName, some file.name, some l.messages.size⟩).addMessage
    ⟨name, fullName, file, parent, isMapEntry, extensionRanges, [], [], [], []⟩

/-- Enters an enum with the values that keep its rules. -/
def enterEnum (l : Linker) (file : FileScope) (scope : String) (parent : Option Nat)
    (e : EnumDecl) : Linker :=
  let fullName := Dotted.join scope e.name
  let place := l.enums.size
  let entry : EnumEntry := ⟨e.name, fullName, file, parent, e.accepted fullName [] e.values⟩
  ({ l.enter ⟨.enum, fullName, some file.name, some place⟩ with
    enums := l.enums.push entry }).modifyParent parent fun m =>
      { m with enums := m.enums ++ [place] }

/-- Enters a method of a service. -/
def enterMethod (l : Linker) (file : FileScope) (service : String) (m : MethodDecl) : Linker :=
  let fullName := Dotted.join service m.name
  { l.enter ⟨.method, fullName, some file.name, some l.methods.size⟩ with
    methods := l.methods.push ⟨m, fullName, service, file⟩ }

/-- One change that declaring a file makes. The names of messages, other than full names, all
satisfy `named`. -/
inductive Step (named : String → Prop) (file : FileScope) : Linker → Linker → Prop
  | note (l : Linker) (rs : List Report) (hfile : ∀ r ∈ rs, r.file = file.name) :
    Step named file l (l.noteAll rs)
  | package (l : Linker) (name : String) (hnew : l.definition? name = none) :
    Step named file l (l.enter ⟨.package, name, none, none⟩)
  | message (l : Linker) (scope : String) (parent : Option Nat) (name : String)
    (isMapEntry : Bool) (extensionRanges : List NumberRange) (hname : named name)
    (hscope : l.inventory.Encloses file scope parent)
    (hnew : l.definition? (Dotted.join scope name) = none) :
    Step named file l (l.enterMessage file scope parent name isMapEntry extensionRanges)
  | enum (l : Linker) (scope : String) (parent : Option Nat) (e : EnumDecl)
    (hscope : l.inventory.Encloses file scope parent)
    (hnew : l.definition? (Dotted.join scope e.name) = none) :
    Step named file l (l.enterEnum file scope parent e)
  | field (l : Linker) (scope : String) (owner : Nat) (f : FieldDecl)
    (hscope : l.inventory.Encloses file scope (some owner)) :
    Step named file l (l.addField file owner scope f)
  | extend (l : Linker) (scope : String) (parent : Option Nat) (e : ExtendDecl)
    (hscope : l.inventory.Encloses file scope parent) :
    Step named file l (l.declareExtend file scope e)
  | service (l : Linker) (name : String) (hnew : l.definition? name = none) :
    Step named file l (l.enter ⟨.service, name, some file.name, none⟩)
  | method (l : Linker) (service : String) (m : MethodDecl)
    (hservice : ⟨.service, service, some file.name, none⟩ ∈ l.definitions)
    (hnew : l.definition? (Dotted.join service m.name) = none) :
    Step named file l (l.enterMethod file service m)

/-- Any number of changes. -/
abbrev Steps (named : String → Prop) (file : FileScope) : Linker → Linker → Prop :=
  Relation.ReflTransGen (Step named file)

/-! ## The operations as steps -/

variable {l l' : Linker} {file : FileScope} {scope : String} {parent : Option Nat}
variable {named : String → Prop}

/-- Entering a definition under a free name. -/
theorem define_of_free {position : Option Position} {d : Definition}
    (h : l.definition? d.fullName = none) : l.define file position d = (l.enter d, true) := by
  simp [define, h, enter]

/-- Under a name that is taken, nothing but a package that is opened again can be defined. -/
theorem define_of_taken (file : FileScope) (position : Option Position) {d old : Definition}
    (h : l.definition? d.fullName = some old)
    (hkind : ¬ (old.kind = .package ∧ d.kind = .package)) :
    ∃ p, l.define file position d = (l.report file position p, false) := by
  simp only [define, h, if_neg hkind]
  exact ⟨_, rfl⟩

/-- A package may be opened again. -/
theorem define_of_package {position : Option Position} {d old : Definition}
    (h : l.definition? d.fullName = some old) (hold : old.kind = .package)
    (hd : d.kind = .package) : l.define file position d = (l, true) := by
  simp [define, h, hold, hd]

/-- What can come of defining something that is no package. -/
theorem define_cases (l : Linker) (file : FileScope) (position : Option Position) {d : Definition}
    (hkind : d.kind ≠ .package) :
    (l.definition? d.fullName = none ∧ l.define file position d = (l.enter d, true)) ∨
      ((l.definition? d.fullName).isSome ∧
        ∃ p, l.define file position d = (l.report file position p, false)) := by
  cases h : l.definition? d.fullName with
  | none => exact .inl ⟨rfl, define_of_free h⟩
  | some old => exact .inr ⟨rfl, define_of_taken file position h fun hk => hkind hk.2⟩

theorem Step.report (l : Linker) (file : FileScope) (position : Option Position) (p : LinkProblem) :
    Step named file l (l.report file position p) := by
  refine Step.note l [⟨.link p, file.name, position⟩] ?_
  simp

/-- The values of an enum are accepted without touching anything but the reports. -/
theorem acceptValues_eq (l : Linker) (file : FileScope) (e : EnumDecl) (fullName : String)
    (accepted values : List EnumValueDecl) :
    ∃ rs : List Report, (∀ r ∈ rs, r.file = file.name) ∧
      l.acceptValues file e fullName accepted values =
        (l.noteAll rs, e.accepted fullName accepted values) := by
  induction values generalizing l accepted with
  | nil => exact ⟨[], by simp, by simp [acceptValues, EnumDecl.accepted, noteAll]⟩
  | cons v vs ih =>
    rw [acceptValues, EnumDecl.accepted]
    cases h : e.problem? fullName accepted v with
    | none => exact ih l (accepted ++ [v])
    | some p =>
      obtain ⟨rs, hrs, heq⟩ := ih (l.report file (some v.position) p) accepted
      refine ⟨⟨.link p, file.name, some v.position⟩ :: rs, ?_, ?_⟩
      · simpa using hrs
      · simp only [heq]
        simp [noteAll, Linker.report, note]

/-! ## What steps add to the inventory -/

@[simp] theorem length_messages_inventory (l : Linker) :
    l.inventory.messages.length = l.messages.size := by
  simp [inventory]

@[simp] theorem length_enums_inventory (l : Linker) : l.inventory.enums.length = l.enums.size := by
  simp [inventory]

@[simp] theorem length_fields_inventory (l : Linker) :
    l.inventory.fields.length = l.fields.size := by
  simp [inventory]

@[simp] theorem length_methods_inventory (l : Linker) :
    l.inventory.methods.length = l.methods.size := by
  simp [inventory]

theorem inventory_modifyMessage (l : Linker) (place : Nat) {f : MessageEntry → MessageEntry}
    (hf : ∀ m, (f m).header = m.header) : (l.modifyMessage place f).inventory = l.inventory := by
  have hmessages : (l.messages.modify place f).toList.map MessageEntry.header =
      l.messages.toList.map MessageEntry.header := by
    apply List.ext_getElem?
    intro i
    rw [Array.toList_modify, List.getElem?_map, List.getElem?_modify, List.getElem?_map]
    by_cases hi : place = i
    · cases l.messages.toList[i]? <;> simp [hi, hf]
    · simp [hi]
  simpa [inventory, modifyMessage] using hmessages

theorem inventory_modifyParent (l : Linker) (parent : Option Nat)
    {f : MessageEntry → MessageEntry} (hf : ∀ m, (f m).header = m.header) :
    (l.modifyParent parent f).inventory = l.inventory := by
  cases parent with
  | none => rfl
  | some place => exact inventory_modifyMessage l place hf

@[simp] theorem inventory_noteAll (l : Linker) (rs : List Report) :
    (l.noteAll rs).inventory = l.inventory := rfl

@[simp] theorem inventory_enter (l : Linker) (d : Definition) :
    (l.enter d).inventory =
      { l.inventory with definitions := l.inventory.definitions ++ [d] } := rfl

@[simp] theorem inventory_enterMessage (l : Linker) (file : FileScope) (scope : String)
    (parent : Option Nat) (name : String) (isMapEntry : Bool)
    (extensionRanges : List NumberRange) :
    (l.enterMessage file scope parent name isMapEntry extensionRanges).inventory =
      { l.inventory with
        definitions := l.inventory.definitions ++
          [⟨.message, Dotted.join scope name, some file.name, some l.messages.size⟩]
        messages := l.inventory.messages ++
          [⟨name, Dotted.join scope name, file, parent, isMapEntry, extensionRanges⟩] } := by
  unfold enterMessage addMessage
  rw [inventory_modifyParent]
  · simp [inventory, enter, MessageEntry.header]
  · intro m
    rfl

@[simp] theorem inventory_enterEnum (l : Linker) (file : FileScope) (scope : String)
    (parent : Option Nat) (e : EnumDecl) :
    (l.enterEnum file scope parent e).inventory =
      { l.inventory with
        definitions := l.inventory.definitions ++
          [⟨.enum, Dotted.join scope e.name, some file.name, some l.enums.size⟩]
        enums := l.inventory.enums ++ [⟨e.name, Dotted.join scope e.name, file, parent,
          e.accepted (Dotted.join scope e.name) [] e.values⟩] } := by
  unfold enterEnum
  rw [inventory_modifyParent]
  · simp [inventory, enter]
  · intro m
    rfl

@[simp] theorem inventory_addField (l : Linker) (file : FileScope) (owner : Nat) (scope : String)
    (f : FieldDecl) :
    (l.addField file owner scope f).inventory =
      { l.inventory with fields := l.inventory.fields ++
          [⟨f, Dotted.join scope f.name, scope, file, some owner, .unresolved⟩] } := by
  unfold addField
  rw [inventory_modifyMessage]
  · simp [inventory]
  · intro m
    rfl

/-- The entry of an extension that is not linked yet. -/
def extensionEntry (file : FileScope) (scope extendee : String) (f : FieldDecl) :
    ExtensionEntry :=
  ⟨⟨f, Dotted.join scope f.name, scope, file, none, .unresolved⟩, extendee⟩

@[simp] theorem inventory_declareExtend (l : Linker) (file : FileScope) (scope : String)
    (e : ExtendDecl) :
    (l.declareExtend file scope e).inventory =
      { l.inventory with
        extensions :=
          l.inventory.extensions ++ e.fields.map (extensionEntry file scope e.extendee) } := by
  simp [inventory, declareExtend, extensionEntry]

@[simp] theorem inventory_enterMethod (l : Linker) (file : FileScope) (service : String)
    (m : MethodDecl) :
    (l.enterMethod file service m).inventory =
      { l.inventory with
        definitions := l.inventory.definitions ++
          [⟨.method, Dotted.join service m.name, some file.name, some l.methods.size⟩]
        methods := l.inventory.methods ++ [⟨m, Dotted.join service m.name, service, file⟩] } := by
  simp [inventory, enterMethod, enter]

/-- A message keeps its name, file and place in whatever step. -/
theorem Step.encloses (hstep : Step named file l l') {file' : FileScope}
    (h : l.inventory.Encloses file' scope parent) : l'.inventory.Encloses file' scope parent := by
  cases parent with
  | none => exact h
  | some place =>
    obtain ⟨m, hm, hname, hfile⟩ := h
    -- messages are only ever added behind the others
    have hprefix : l.inventory.messages <+: l'.inventory.messages := by
      cases hstep <;> simp
    obtain ⟨added, hadded⟩ := hprefix
    have hlt : place < l.inventory.messages.length := (List.getElem?_eq_some_iff.mp hm).1
    refine ⟨m, ?_, hname, hfile⟩
    rw [← hadded, List.getElem?_append_left hlt, hm]

/-- A message keeps its name, file and place in any number of steps. -/
theorem Steps.encloses (hsteps : Steps named file l l') {file' : FileScope}
    (h : l.inventory.Encloses file' scope parent) : l'.inventory.Encloses file' scope parent := by
  induction hsteps with
  | refl => exact h
  | tail _ hstep ih => exact hstep.encloses ih

/-! ## Declaring consists of steps -/

theorem steps_foldl {α : Type} {step : Linker → α → Linker} {P : Linker → Prop}
    (hP : ∀ {l l'}, Steps named file l l' → P l → P l')
    (hstep : ∀ l a, P l → Steps named file l (step l a)) (l : Linker) (h : P l) (xs : List α) :
    Steps named file l (xs.foldl step l) := by
  induction xs generalizing l with
  | nil => exact .refl
  | cons x xs ih =>
    have hx := hstep l x h
    exact hx.trans (ih (step l x) (hP hx h))

theorem steps_declarePackage (l : Linker) (file : FileScope) :
    Steps named file l (l.declarePackage file) := by
  refine steps_foldl (P := fun _ => True) (fun _ _ => trivial) (fun l name _ => ?_) l trivial _
  cases h : l.definition? name with
  | none =>
    rw [define_of_free h]
    exact .single (.package l name h)
  | some old =>
    by_cases hkind : old.kind = .package
    · rw [define_of_package h hkind rfl]
    · obtain ⟨p, hp⟩ := define_of_taken (d := ⟨.package, name, none, none⟩) file none h
        fun hk => hkind hk.1
      rw [hp]
      exact .single (.report l file none p)

/-- Declaring an enum under a free name enters it and notes the problems of its values. -/
theorem declareEnum_of_free (file : FileScope) (parent : Option Nat) (e : EnumDecl)
    (h : l.definition? (Dotted.join scope e.name) = none) :
    ∃ rs : List Report, (∀ r ∈ rs, r.file = file.name) ∧
      l.declareEnum file scope parent e = (l.noteAll rs).enterEnum file scope parent e := by
  let fullName := Dotted.join scope e.name
  let d : Definition := ⟨.enum, fullName, some file.name, some l.enums.size⟩
  obtain ⟨rs, hrs, ha⟩ := acceptValues_eq (l.enter d) file e fullName [] e.values
  have hd : l.define file (some e.position) d = (l.enter d, true) := define_of_free h
  simp only [declareEnum, hd, ha, fullName, d]
  by_cases hempty : (e.accepted fullName [] e.values).isEmpty
  · refine ⟨rs ++ [⟨.link (.emptyEnum fullName), file.name, some e.position⟩], ?_, ?_⟩
    · simpa [or_imp, forall_and] using hrs
    · rw [if_pos hempty]
      cases parent <;> simp [enterEnum, noteAll, enter, report, note, modifyParent, modifyMessage,
        fullName]
  · refine ⟨rs, hrs, ?_⟩
    rw [if_neg hempty]
    cases parent <;> rfl

/-- Declaring an enum under a name that is taken is only a report. -/
theorem declareEnum_of_taken (file : FileScope) (parent : Option Nat) (e : EnumDecl)
    {old : Definition} (h : l.definition? (Dotted.join scope e.name) = some old) :
    ∃ p, l.declareEnum file scope parent e = l.report file (some e.position) p := by
  obtain ⟨p, hp⟩ := define_of_taken
    (d := ⟨.enum, Dotted.join scope e.name, some file.name, some l.enums.size⟩) file
    (some e.position) h (by simp)
  refine ⟨p, ?_⟩
  simp only [declareEnum, hp]

theorem steps_declareEnum (e : EnumDecl) (h : l.inventory.Encloses file scope parent) :
    Steps named file l (l.declareEnum file scope parent e) := by
  cases hnew : l.definition? (Dotted.join scope e.name) with
  | none =>
    obtain ⟨rs, hrs, heq⟩ := declareEnum_of_free file parent e hnew
    have hnote : Step named file l (l.noteAll rs) := .note l rs hrs
    rw [heq]
    exact .tail (.single hnote) (.enum _ scope parent e (hnote.encloses h) hnew)
  | some old =>
    obtain ⟨p, hp⟩ := declareEnum_of_taken file parent e hnew
    rw [hp]
    exact .single (.report l file _ p)

/-- The place and full name of a message that has just been entered enclose what is inside it. -/
theorem encloses_enterMessage (l : Linker) (file : FileScope) (scope : String)
    (parent : Option Nat) (name : String) (isMapEntry : Bool)
    (extensionRanges : List NumberRange) :
    (l.enterMessage file scope parent name isMapEntry extensionRanges).inventory.Encloses file
      (Dotted.join scope name) (some l.messages.size) := by
  refine ⟨⟨name, Dotted.join scope name, file, parent, isMapEntry, extensionRanges⟩, ?_, rfl, rfl⟩
  simp [inventory_enterMessage]

/-- The map entry of a field is entered with its two fields, or nothing but a report comes of it. -/
theorem declareMapEntry_cases (l : Linker) (file : FileScope) (owner : Nat) (scope : String)
    (f : FieldDecl) (key value : String) (position : Position) :
    let fullName := Dotted.join scope (MapEntry.name f.name)
    let place := l.messages.size
    (l.definition? fullName = none ∧
      l.declareMapEntry file owner scope f key value position =
        (((l.enterMessage file scope (some owner) (MapEntry.name f.name) true []).addField file
          place fullName (keyField f key)).addField file place fullName
            (valueField f value position),
          true)) ∨
      ((l.definition? fullName).isSome ∧
        ∃ p, l.declareMapEntry file owner scope f key value position =
          (l.report file (some f.position) p, false)) := by
  intro fullName place
  let d : Definition := ⟨.message, fullName, some file.name, some place⟩
  have hkind : d.kind ≠ .package := by simp [d]
  rcases define_cases l file (some f.position) hkind with ⟨hfree, hd⟩ | ⟨htaken, p, hd⟩
  · refine .inl ⟨hfree, ?_⟩
    simp only [declareMapEntry]
    rw [hd]
    rfl
  · refine .inr ⟨htaken, p, ?_⟩
    simp only [declareMapEntry]
    rw [hd]

theorem steps_declareMapEntry {owner : Nat} (f : FieldDecl) (key value : String)
    (position : Position) (hnamed : ∀ n, named (MapEntry.name n))
    (h : l.inventory.Encloses file scope (some owner)) :
    Steps named file l (l.declareMapEntry file owner scope f key value position).1 := by
  rcases declareMapEntry_cases l file owner scope f key value position with
    ⟨hfree, heq⟩ | ⟨-, p, heq⟩
  · have hinside := encloses_enterMessage l file scope (some owner) (MapEntry.name f.name) true []
    have hentry := Step.message l scope (some owner) (MapEntry.name f.name) true []
      (hnamed f.name) h hfree
    have hkey : Step named file _ _ := .field _ _ _ (keyField f key) hinside
    have hvalue : Step named file _ _ :=
      .field _ _ _ (valueField f value position) (hkey.encloses hinside)
    rw [heq]
    exact ((Relation.ReflTransGen.single hentry).tail hkey).tail hvalue
  · rw [heq]
    exact .single (.report l file _ p)

theorem steps_declareFields {owner : Nat} (rules : FieldRules) (fs : List FieldDecl)
    (hnamed : ∀ n, named (MapEntry.name n)) (h : l.inventory.Encloses file scope (some owner)) :
    Steps named file l (l.declareFields file owner scope rules fs) := by
  induction fs generalizing l rules with
  | nil => exact .refl
  | cons f fs ih =>
    -- a field that is refused is only a report; one that is a map may bring an entry before it
    have hplain : Steps named file l ((l.addField file owner scope f).declareFields file owner scope
        (rules.take f) fs) := by
      have hfield : Step named file l _ := .field l scope owner f h
      exact .head hfield (ih _ (hfield.encloses h))
    rw [declareFields.eq_def]
    simp only
    split
    · next p _ =>
      have hreport : Step named file l _ := .report l file (some f.position) p
      exact .head hreport (ih _ (hreport.encloses h))
    · split
      · next key value position _ =>
        have hentry := steps_declareMapEntry f key value position hnamed h
        split
        · next l' heq =>
          rw [heq] at hentry
          have hfield : Step named file l' _ :=
            .field l' scope owner (mapField f) (hentry.encloses h)
          exact hentry.trans (.head hfield (ih _ (hfield.encloses (hentry.encloses h))))
        · next l' heq =>
          rw [heq] at hentry
          exact hentry.trans (ih _ (hentry.encloses h))
      · exact hplain
      · exact hplain

theorem steps_declareExtends (blocks : List ExtendDecl)
    (h : l.inventory.Encloses file scope parent) :
    Steps named file l (blocks.foldl (fun l e => l.declareExtend file scope e) l) :=
  steps_foldl (P := fun l => l.inventory.Encloses file scope parent)
    (fun hsteps h => hsteps.encloses h) (fun l e h => .single (.extend l scope parent e h)) l h
    blocks

theorem steps_declareEnums (enums : List EnumDecl) (h : l.inventory.Encloses file scope parent) :
    Steps named file l (enums.foldl (fun l e => l.declareEnum file scope parent e) l) :=
  steps_foldl (P := fun l => l.inventory.Encloses file scope parent)
    (fun hsteps h => hsteps.encloses h) (fun _ e h => steps_declareEnum e h) l h enums

/-- Declares what a message holds, once the message itself has been entered. -/
def declareBody (l : Linker) (file : FileScope) (fullName : String) (place : Nat)
    (m : MessageDecl) : Linker :=
  let l := m.enums.foldl (fun l e => l.declareEnum file fullName (some place) e) l
  let l := l.declareMessages file fullName (some place) m.messages
  let l := l.declareFields file place fullName ⟨fullName, m.reservedRanges, m.reservedNames, []⟩
    m.fields
  m.extendBlocks.foldl (fun l e => l.declareExtend file fullName e) l

/-- A message is entered and its body declared, or nothing but a report comes of it. -/
theorem declareMessage_cases (l : Linker) (file : FileScope) (scope : String)
    (parent : Option Nat) (m : MessageDecl) :
    let fullName := Dotted.join scope m.name
    (l.definition? fullName = none ∧
      l.declareMessage file scope parent m =
        (l.enterMessage file scope parent m.name false m.extensionRanges).declareBody file fullName
          l.messages.size m) ∨
      ((l.definition? fullName).isSome ∧
        ∃ p, l.declareMessage file scope parent m = l.report file (some m.position) p) := by
  obtain ⟨name, fields, messages, enums, extendBlocks, oneofs, options, extensionRanges,
    reservedRanges, reservedNames, position⟩ := m
  intro fullName
  let d : Definition := ⟨.message, fullName, some file.name, some l.messages.size⟩
  have hkind : d.kind ≠ .package := by simp [d]
  rcases define_cases l file (some position) hkind with ⟨hfree, hd⟩ | ⟨htaken, p, hd⟩
  · refine .inl ⟨hfree, ?_⟩
    rw [declareMessage.eq_def]
    simp only
    rw [hd]
    rfl
  · refine .inr ⟨htaken, p, ?_⟩
    rw [declareMessage.eq_def]
    simp only
    rw [hd]

mutual

theorem steps_declareMessage (l : Linker) (file : FileScope) (scope : String)
    (parent : Option Nat) (hnamed : ∀ n, named (MapEntry.name n))
    (h : l.inventory.Encloses file scope parent) :
    (m : MessageDecl) → m.Forall (fun m => named m.name) →
      Steps named file l (l.declareMessage file scope parent m)
  | ⟨name, fields, messages, enums, extendBlocks, oneofs, options, extensionRanges,
      reservedRanges, reservedNames, position⟩, hnames => by
    rw [MessageDecl.Forall] at hnames
    rcases declareMessage_cases l file scope parent ⟨name, fields, messages, enums, extendBlocks,
      oneofs, options, extensionRanges, reservedRanges, reservedNames, position⟩ with
      ⟨hfree, heq⟩ | ⟨-, p, heq⟩
    · rw [heq]
      have hentry := Step.message l scope parent name false extensionRanges hnames.1 h hfree
      have hinside := encloses_enterMessage l file scope parent name false extensionRanges
      have henums : Steps named file _ _ := steps_declareEnums enums hinside
      have hmessages := steps_declareMessages _ file (Dotted.join scope name)
        (some l.messages.size) hnamed (henums.encloses hinside) messages hnames.2
      have hfields := steps_declareFields
        ⟨Dotted.join scope name, reservedRanges, reservedNames, []⟩ fields hnamed
        (hmessages.encloses (henums.encloses hinside))
      have hextends : Steps named file _ _ := steps_declareExtends extendBlocks
        (hfields.encloses (hmessages.encloses (henums.encloses hinside)))
      exact (((Relation.ReflTransGen.single hentry).trans henums).trans hmessages).trans
        (hfields.trans hextends)
    · rw [heq]
      exact .single (.report l file _ p)

theorem steps_declareMessages (l : Linker) (file : FileScope) (scope : String)
    (parent : Option Nat) (hnamed : ∀ n, named (MapEntry.name n))
    (h : l.inventory.Encloses file scope parent) :
    (ms : List MessageDecl) → MessageDecl.ForallIn (fun m => named m.name) ms →
      Steps named file l (l.declareMessages file scope parent ms)
  | [], _ => by
    rw [declareMessages]
  | m :: ms, hnames => by
    rw [declareMessages]
    rw [MessageDecl.ForallIn] at hnames
    have hm := steps_declareMessage l file scope parent hnamed h m hnames.1
    exact hm.trans (steps_declareMessages _ file scope parent hnamed (hm.encloses h) ms hnames.2)

end

/-- A method is entered, or nothing but a report comes of it. -/
theorem declareMethod_cases (l : Linker) (file : FileScope) (service : String) (m : MethodDecl) :
    (l.definition? (Dotted.join service m.name) = none ∧
      l.declareMethod file service m = l.enterMethod file service m) ∨
      ((l.definition? (Dotted.join service m.name)).isSome ∧
        ∃ p, l.declareMethod file service m = l.report file (some m.position) p) := by
  let d : Definition :=
    ⟨.method, Dotted.join service m.name, some file.name, some l.methods.size⟩
  have hkind : d.kind ≠ .package := by simp [d]
  rcases define_cases l file (some m.position) hkind with ⟨hfree, hd⟩ | ⟨htaken, p, hd⟩
  · refine .inl ⟨hfree, ?_⟩
    simp only [declareMethod]
    rw [hd]
    rfl
  · refine .inr ⟨htaken, p, ?_⟩
    simp only [declareMethod]
    rw [hd]

/-- A service is entered and its methods declared, or nothing but a report comes of it. -/
theorem declareService_cases (l : Linker) (file : FileScope) (s : ServiceDecl) :
    let fullName := Dotted.join file.package s.name
    (l.definition? fullName = none ∧
      l.declareService file s = s.methods.foldl (fun l m => l.declareMethod file fullName m)
        (l.enter ⟨.service, fullName, some file.name, none⟩)) ∨
      ((l.definition? fullName).isSome ∧
        ∃ p, l.declareService file s = l.report file (some s.position) p) := by
  intro fullName
  let d : Definition := ⟨.service, fullName, some file.name, none⟩
  have hkind : d.kind ≠ .package := by simp [d]
  rcases define_cases l file (some s.position) hkind with ⟨hfree, hd⟩ | ⟨htaken, p, hd⟩
  · refine .inl ⟨hfree, ?_⟩
    simp only [declareService]
    rw [hd]
  · refine .inr ⟨htaken, p, ?_⟩
    simp only [declareService]
    rw [hd]

/-- No step changes the files. -/
theorem Step.files_eq (hstep : Step named file l l') : l'.files = l.files := by
  cases hstep with
  | enum _ parent => cases parent <;> rfl
  | message _ parent => cases parent <;> rfl
  | note | field | extend | package | service | method => rfl

/-- Definitions are never taken back. -/
theorem Step.definitions_prefix (hstep : Step named file l l') :
    l.definitions <+: l'.definitions := by
  cases hstep with
  | enum _ parent => cases parent <;> exact ⟨_, rfl⟩
  | message _ parent => cases parent <;> exact ⟨_, rfl⟩
  | note | field | extend => exact List.prefix_rfl
  | package | service | method => exact ⟨_, rfl⟩

theorem Steps.mem_definitions (hsteps : Steps named file l l') {d : Definition}
    (h : d ∈ l.definitions) : d ∈ l'.definitions := by
  induction hsteps with
  | refl => exact h
  | tail _ hstep ih => exact hstep.definitions_prefix.subset ih

theorem steps_declareService (l : Linker) (file : FileScope) (s : ServiceDecl) :
    Steps named file l (l.declareService file s) := by
  rcases declareService_cases l file s with ⟨hfree, heq⟩ | ⟨-, p, heq⟩
  · let fullName := Dotted.join file.package s.name
    let d : Definition := ⟨.service, fullName, some file.name, none⟩
    have hmethods : Steps named file (l.enter d)
        (s.methods.foldl (fun l m => l.declareMethod file fullName m) (l.enter d)) := by
      refine steps_foldl (P := fun l => d ∈ l.definitions)
        (fun hsteps h => hsteps.mem_definitions h) (fun l m hd => ?_) _ (by simp [enter]) s.methods
      rcases declareMethod_cases l file fullName m with ⟨hfree, heq⟩ | ⟨-, p, heq⟩
      · rw [heq]
        exact .single (.method l fullName m hd hfree)
      · rw [heq]
        exact .single (.report l file _ p)
    rw [heq]
    exact .head (.service l fullName hfree) hmethods
  · rw [heq]
    exact .single (.report l file _ p)

/-- Declaring a file adds it to the files, and all else is done in steps. -/
theorem steps_declare (l : Linker) (f : SchemaFile) (hnamed : ∀ n, named (MapEntry.name n))
    (hnames : MessageDecl.ForallIn (fun m => named m.name) f.messages) :
    Steps named f.scope (l.addFile f.scope) (l.declare f) := by
  have hscope (l : Linker) : l.inventory.Encloses f.scope f.scope.package none := rfl
  refine (steps_declarePackage (l.addFile f.scope) f.scope).trans ?_
  refine (steps_declareMessages _ f.scope f.scope.package none hnamed (hscope _) f.messages
    hnames).trans ?_
  refine (steps_declareEnums f.enums (hscope _)).trans ?_
  refine (steps_declareExtends f.extendBlocks (hscope _)).trans ?_
  exact steps_foldl (P := fun _ => True) (fun _ _ => trivial)
    (fun l s _ => steps_declareService l f.scope s) _ trivial f.services

/-! ## What all steps keep -/

/-- The linker that some files were declared to in turn. -/
def ofFiles (files : List SchemaFile) : Linker := files.foldl declare empty

theorem ofFiles_append_singleton (files : List SchemaFile) (f : SchemaFile) :
    ofFiles (files ++ [f]) = (ofFiles files).declare f := by
  simp [ofFiles]

/-- A file of a new name is added behind the others. -/
theorem addFile_of_new {l : Linker} {file : FileScope} (h : l.file? file.name = none) :
    l.addFile file = { l with files := l.files ++ [file] } := by
  simp [addFile, h]

theorem file?_eq_none {l : Linker} {name : Text} :
    l.file? name = none ↔ name ∉ l.files.map (·.name) := by
  simp [file?]

/-- A file whose name differs from all others is new to a linker that knows just these. -/
theorem file?_eq_none_of_nodup {l : Linker} {files : List SchemaFile} {f : SchemaFile}
    (hl : l.files = files.map SchemaFile.scope) (h : ((files ++ [f]).map (·.name)).Nodup) :
    l.file? f.scope.name = none := by
  rw [List.map_append, List.nodup_append] at h
  rw [file?_eq_none, hl]
  intro hmem
  refine h.2.2 f.name ?_ f.name (by simp) rfl
  simpa [SchemaFile.scope] using hmem

theorem nodup_of_append_singleton {files : List SchemaFile} {f : SchemaFile}
    (h : ((files ++ [f]).map (·.name)).Nodup) : (files.map (·.name)).Nodup := by
  rw [List.map_append] at h
  exact h.of_append_left

/-- The files of a linker are those that were declared to it, if no two have one name. -/
theorem files_ofFiles {files : List SchemaFile} (h : (files.map (·.name)).Nodup) :
    (ofFiles files).files = files.map SchemaFile.scope := by
  induction files using List.reverseRecOn with
  | nil => rfl
  | append_singleton files f ih =>
    have hfiles := ih (nodup_of_append_singleton h)
    rw [ofFiles_append_singleton, files_declare, addFile_of_new (file?_eq_none_of_nodup hfiles h)]
    simp [hfiles]

theorem scope_mem_files {files : List SchemaFile} (hnames : (files.map (·.name)).Nodup)
    {f : SchemaFile} (hf : f ∈ files) : f.scope ∈ (ofFiles files).files :=
  files_ofFiles hnames ▸ List.mem_map_of_mem hf

/-- What is kept by adding a file and by every step is kept by declaring a file of a new name. -/
theorem declare_induction (named : String → Prop) {P : Linker → Prop}
    (hfile : ∀ l file, l.file? file.name = none → P l → P { l with files := l.files ++ [file] })
    (hstep : ∀ l l' file, file ∈ l.files → Step named file l l' → P l → P l')
    (hnamed : ∀ n, named (MapEntry.name n)) {l : Linker} {f : SchemaFile}
    (hnames : MessageDecl.ForallIn (fun m => named m.name) f.messages)
    (hnew : l.file? f.scope.name = none) (hl : P l) : P (l.declare f) := by
  have hsteps := steps_declare l f hnamed hnames
  have hstart := hfile _ _ hnew hl
  rw [addFile_of_new hnew] at hsteps
  generalize l.declare f = l' at hsteps ⊢
  -- no step changes the files, so the file being declared stays among them
  have hkeep : P l' ∧ f.scope ∈ l'.files := by
    induction hsteps with
    | refl => exact ⟨hstart, by simp⟩
    | tail _ hs ihs => exact ⟨hstep _ _ _ ihs.2 hs ihs.1, hs.files_eq ▸ ihs.2⟩
  exact hkeep.1

/-- What holds of a linker that knows nothing, and is kept by adding a file and by every step, holds
of a linker that files of different names were declared to. -/
theorem ofFiles_induction (named : String → Prop) {P : Linker → Prop} (hempty : P empty)
    (hfile : ∀ l file, l.file? file.name = none → P l → P { l with files := l.files ++ [file] })
    (hstep : ∀ l l' file, file ∈ l.files → Step named file l l' → P l → P l')
    (hnamed : ∀ n, named (MapEntry.name n)) {files : List SchemaFile}
    (hnames : ∀ f ∈ files, MessageDecl.ForallIn (fun m => named m.name) f.messages)
    (h : (files.map (·.name)).Nodup) : P (ofFiles files) := by
  induction files using List.reverseRecOn with
  | nil => exact hempty
  | append_singleton files f ih =>
    have hprev := nodup_of_append_singleton h
    have hnew := file?_eq_none_of_nodup (files_ofFiles hprev) h
    rw [ofFiles_append_singleton]
    exact declare_induction named hfile hstep hnamed (hnames f (by simp)) hnew
      (ih (fun g hg => hnames g (by simp [hg])) hprev)

end Linker

end ProtoSchema
