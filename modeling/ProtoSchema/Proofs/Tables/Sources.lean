import ProtoSchema.Proofs.Linker.Alongside
import ProtoSchema.Proofs.Tables.LoadOrder

/-!
# The declarations behind messages

The record of a message does not keep its whole declaration, but leads back to it: by its name among
the messages of its file, or of the message that it is nested in (`DeclaredAs`). However much is
dropped from the files on the way, every message that is no map entry has such a declaration, and
its fields keep the rules of that (`Sourced`).
-/

namespace ProtoSchema

/-! ## Ranges of numbers -/

/-- A range holds the numbers between its ends; one without an upper end goes on to the greatest
number that a field may have. -/
def NumberRange.Covers (r : NumberRange) (n : Nat) : Prop :=
  r.first ≤ n ∧ (n : Int) ≤ r.last.getD (2 ^ 29 - 1)

/-- The numbers that a message reserves. -/
def MessageDecl.ReservesNumber (d : MessageDecl) (n : Nat) : Prop :=
  ∃ r ∈ d.reservedRanges, r.Covers n

/-- The names that a message reserves. -/
def MessageDecl.ReservesName (d : MessageDecl) (name : String) : Prop :=
  Text.ofString name ∈ d.reservedNames

/-- The numbers that a message leaves to extensions. -/
def MessageDecl.OpensNumber (d : MessageDecl) (n : Nat) : Prop :=
  ∃ r ∈ d.extensionRanges, r.Covers n

/-- The numbers that any field may have. -/
def IsFieldNumber (n : Nat) : Prop :=
  (1 ≤ n ∧ n ≤ 2 ^ 29 - 1) ∧ ¬ (19000 ≤ n ∧ n ≤ 19999)

theorem NumberRange.anyContains_iff {ranges : List NumberRange} {n : Nat} :
    NumberRange.anyContains ranges maxFieldNumber n = true ↔ ∃ r ∈ ranges, r.Covers n := by
  simp only [anyContains, List.any_eq_true, decide_eq_true_eq]
  rfl

/-! ## Rules for fields -/

namespace FieldRules

variable {rules : FieldRules} {f : FieldDecl}

theorem isFieldNumber (h : rules.problem? f = none) : IsFieldNumber f.number := by
  obtain ⟨hrange, himplementation, -⟩ := problem?_eq_none_iff.mp h
  refine ⟨hrange, fun hbetween => ?_⟩
  simp only [isImplementationNumber, decide_eq_false_iff_not] at himplementation
  omega

theorem not_reservesNumber (h : rules.problem? f = none) :
    ¬ ∃ r ∈ rules.reservedRanges, r.Covers f.number := by
  obtain ⟨-, -, hreserved, -⟩ := problem?_eq_none_iff.mp h
  rw [← NumberRange.anyContains_iff, hreserved]
  exact Bool.false_ne_true

theorem not_reservesName (h : rules.problem? f = none) :
    Text.ofString f.name ∉ rules.reservedNames := by
  obtain ⟨-, -, -, hreserved, -⟩ := problem?_eq_none_iff.mp h
  simpa using hreserved

/-- A field that breaks no rule has a name of its own. -/
theorem name_notMem (h : rules.problem? f = none) : f.name ∉ rules.taken.map (·.2) :=
  (problem?_eq_none_iff.mp h).2.2.2.2.1

end FieldRules

/-! ## Sources of messages -/

/-- What leads from the record of a message to its declaration. -/
structure MessageSource where
  name : String
  file : Text
  parent : Option Nat
  isMapEntry : Bool
  deriving DecidableEq

@[inherit_doc MessageSource]
def MessageHeader.source (m : MessageHeader) : MessageSource :=
  ⟨m.name, m.file.name, m.parent, m.isMapEntry⟩

@[inherit_doc MessageSource]
def MessageRecord.source (m : MessageRecord) : MessageSource :=
  ⟨m.name, m.file, m.parent, m.isMapEntry⟩

/-- `d` is the declaration of the message at a place: the first of its name in its file, or in the
declaration of the message around it. Map entries have no declaration. -/
inductive DeclaredAs (files : List SchemaFile) (sources : List MessageSource) :
    Nat → MessageDecl → Prop
  | top {i : Nat} {s : MessageSource} {f : SchemaFile} {d : MessageDecl}
    (hs : sources[i]? = some s) (hentry : s.isMapEntry = false) (hparent : s.parent = none)
    (hf : f ∈ files) (hfile : f.name = s.file) (hd : f.messages.find? (·.name = s.name) = some d) :
    DeclaredAs files sources i d
  | nested {i outer : Nat} {s : MessageSource} {e d : MessageDecl}
    (hs : sources[i]? = some s) (hentry : s.isMapEntry = false) (hparent : s.parent = some outer)
    (he : DeclaredAs files sources outer e) (hd : e.messages.find? (·.name = s.name) = some d) :
    DeclaredAs files sources i d

namespace DeclaredAs

variable {files : List SchemaFile} {sources sources' : List MessageSource} {i : Nat}
variable {d d' : MessageDecl}

theorem not_mapEntry (h : DeclaredAs files sources i d) {s : MessageSource}
    (hs : sources[i]? = some s) : s.isMapEntry = false := by
  cases h with
  | top hs' hentry | nested hs' hentry => exact Option.some.inj (hs'.symm.trans hs) ▸ hentry

/-- A message has one declaration if no two files have one name. -/
theorem unique (hfiles : (files.map (·.name)).Nodup) (h : DeclaredAs files sources i d)
    (h' : DeclaredAs files sources i d') : d = d' := by
  induction h generalizing d' with
  | top hs _ hparent hf hfile hd =>
    cases h' with
    | top hs' _ _ hf' hfile' hd' =>
      obtain rfl := Option.some.inj (hs.symm.trans hs')
      obtain rfl := List.inj_on_of_nodup_map hfiles hf hf' (hfile.trans hfile'.symm)
      exact Option.some.inj (hd.symm.trans hd')
    | nested hs' _ hparent' =>
      obtain rfl := Option.some.inj (hs.symm.trans hs')
      exact absurd (hparent.symm.trans hparent') (by simp)
  | nested hs _ hparent _ hd ih =>
    cases h' with
    | top hs' _ hparent' =>
      obtain rfl := Option.some.inj (hs.symm.trans hs')
      exact absurd (hparent.symm.trans hparent') (by simp)
    | nested hs' _ hparent' he' hd' =>
      obtain rfl := Option.some.inj (hs.symm.trans hs')
      obtain rfl := Option.some.inj (hparent.symm.trans hparent')
      obtain rfl := ih he'
      exact Option.some.inj (hd.symm.trans hd')

/-- Messages that are added later do not change the declaration of one. -/
theorem mono (h : DeclaredAs files sources i d) (hinitial : sources <+: sources') :
    DeclaredAs files sources' i d := by
  have hget {i : Nat} {s : MessageSource} (hs : sources[i]? = some s) : sources'[i]? = some s := by
    obtain ⟨added, rfl⟩ := hinitial
    rw [List.getElem?_append_left (List.getElem?_eq_some_iff.mp hs).1, hs]
  induction h with
  | top hs hentry hparent hf hfile hd => exact .top (hget hs) hentry hparent hf hfile hd
  | nested hs hentry hparent _ hd ih => exact .nested (hget hs) hentry hparent ih hd

end DeclaredAs

/-- The messages that are declared in the message at place `parent`, or else in a file. -/
def DeclaredIn (files : List SchemaFile) (sources : List MessageSource) (file : FileScope) :
    Option Nat → List MessageDecl → Prop
  | none, ds => ∃ f ∈ files, f.name = file.name ∧ f.messages = ds
  | some outer, ds => ∃ e, DeclaredAs files sources outer e ∧ e.messages = ds

/-- The first message of a name is what a new message of this name is declared as. -/
theorem DeclaredIn.declaredAs {files : List SchemaFile} {sources : List MessageSource}
    {file : FileScope} {parent : Option Nat} {before behind : List MessageDecl} {d : MessageDecl}
    (h : DeclaredIn files sources file parent (before ++ d :: behind))
    (hbefore : ∀ e ∈ before, e.name ≠ d.name) :
    DeclaredAs files (sources ++ [⟨d.name, file.name, parent, false⟩]) sources.length d := by
  have hsource : (sources ++ [⟨d.name, file.name, parent, false⟩])[sources.length]? =
      some ⟨d.name, file.name, parent, false⟩ := by simp
  have hfind : (before ++ d :: behind).find? (·.name = d.name) = some d := by
    have hnone : before.find? (·.name = d.name) = none := by simpa using hbefore
    simp [List.find?_append, hnone]
  cases parent with
  | none =>
    obtain ⟨f, hf, hfile, hds⟩ := h
    exact .top hsource rfl rfl hf hfile (hds ▸ hfind)
  | some outer =>
    obtain ⟨e, he, hds⟩ := h
    exact .nested hsource rfl rfl (he.mono (List.prefix_append _ _)) (hds ▸ hfind)

namespace Linker

variable {files : List SchemaFile} {l l' l'' : Linker} {file : FileScope} {scope : String}
variable {parent : Option Nat} {owner n : Nat}

/-- Where the messages of a linker come from. -/
def sources (l : Linker) : List MessageSource := l.inventory.messages.map MessageHeader.source

/-! ## What declaring leaves alone -/

/-- Nothing becomes of messages and fields; further names may be defined. -/
structure Spares (l l' : Linker) : Prop where
  definitions : l.inventory.definitions <+: l'.inventory.definitions
  messages : l'.inventory.messages = l.inventory.messages
  fields : l'.inventory.fields = l.inventory.fields

namespace Spares

theorem of_eq (h : l'.inventory = l.inventory) : Spares l l' := by
  constructor <;> simp [h]

theorem refl (l : Linker) : Spares l l := of_eq rfl

theorem trans (h : Spares l l') (h' : Spares l' l'') : Spares l l'' :=
  ⟨h.definitions.trans h'.definitions, h'.messages.trans h.messages, h'.fields.trans h.fields⟩

theorem foldl {α : Type} {step : Linker → α → Linker} (h : ∀ l a, Spares l (step l a)) (l : Linker)
    (xs : List α) : Spares l (xs.foldl step l) := by
  induction xs generalizing l with
  | nil => exact refl l
  | cons x xs ih => exact (h l x).trans (ih (step l x))

end Spares

/-- Nothing becomes of enums either. -/
structure Idle (l l' : Linker) : Prop extends Spares l l' where
  enums : l'.inventory.enums = l.inventory.enums

namespace Idle

theorem of_eq (h : l'.inventory = l.inventory) : Idle l l' := ⟨.of_eq h, by rw [h]⟩

theorem refl (l : Linker) : Idle l l := of_eq rfl

theorem trans (h : Idle l l') (h' : Idle l' l'') : Idle l l'' :=
  ⟨h.toSpares.trans h'.toSpares, h'.enums.trans h.enums⟩

theorem foldl {α : Type} {step : Linker → α → Linker} (h : ∀ l a, Idle l (step l a)) (l : Linker)
    (xs : List α) : Idle l (xs.foldl step l) := by
  induction xs generalizing l with
  | nil => exact refl l
  | cons x xs ih => exact (h l x).trans (ih (step l x))

theorem enter (l : Linker) (d : Definition) : Idle l (l.enter d) :=
  ⟨⟨List.prefix_append _ _, rfl, rfl⟩, rfl⟩

end Idle

theorem spares_declareEnum (l : Linker) (file : FileScope) (scope : String) (parent : Option Nat)
    (e : EnumDecl) : Spares l (l.declareEnum file scope parent e) := by
  cases hfree : l.definition? (Dotted.join scope e.name) with
  | none =>
    obtain ⟨rs, -, heq⟩ := declareEnum_of_free file parent e hfree
    rw [heq]
    constructor <;> simp
  | some old =>
    obtain ⟨p, heq⟩ := declareEnum_of_taken file parent e hfree
    rw [heq]
    exact .of_eq rfl

theorem idle_report (l : Linker) (file : FileScope) (position : Option Position) (p : LinkProblem) :
    Idle l (l.report file position p) :=
  .of_eq rfl

theorem idle_declareExtend (l : Linker) (file : FileScope) (scope : String) (e : ExtendDecl) :
    Idle l (l.declareExtend file scope e) := by
  refine ⟨?_, by simp⟩
  constructor <;> simp

theorem idle_declarePackage (l : Linker) (file : FileScope) : Idle l (l.declarePackage file) := by
  refine .foldl (fun l name => ?_) l _
  cases hfree : l.definition? name with
  | none =>
    rw [define_of_free hfree]
    exact .enter l _
  | some old =>
    by_cases hkind : old.kind = .package
    · rw [define_of_package hfree hkind rfl]
      exact .refl l
    · obtain ⟨p, heq⟩ := define_of_taken (d := ⟨.package, name, none, none⟩) file none hfree
        fun h => hkind h.1
      rw [heq]
      exact idle_report ..

theorem idle_declareMethod (l : Linker) (file : FileScope) (service : String) (m : MethodDecl) :
    Idle l (l.declareMethod file service m) := by
  rcases declareMethod_cases l file service m with ⟨-, heq⟩ | ⟨-, p, heq⟩
  · rw [heq]
    refine ⟨?_, by simp⟩
    constructor <;> simp
  · rw [heq]
    exact idle_report ..

theorem idle_declareService (l : Linker) (file : FileScope) (s : ServiceDecl) :
    Idle l (l.declareService file s) := by
  rcases declareService_cases l file s with ⟨-, heq⟩ | ⟨-, p, heq⟩
  · rw [heq]
    exact (Idle.enter l _).trans (.foldl (fun l m => idle_declareMethod l file _ m) _ _)
  · rw [heq]
    exact idle_report ..

/-- All that declaring a file does before its messages. -/
theorem idle_start (l : Linker) (file : FileScope) :
    Idle l ((l.addFile file).declarePackage file) :=
  (show Idle l (l.addFile file) from .of_eq rfl).trans (idle_declarePackage _ _)

/-! ## What declaring adds -/

/-- Messages and fields are added behind the others, the fields to messages from place `n` on. -/
structure Grows (n : Nat) (l l' : Linker) : Prop where
  definitions : l.inventory.definitions <+: l'.inventory.definitions
  messages : l.inventory.messages <+: l'.inventory.messages
  fields : ∃ added, l'.inventory.fields = l.inventory.fields ++ added ∧
    ∀ f ∈ added, ∃ i, f.owner = some i ∧ n ≤ i

theorem Spares.grows (h : Spares l l') (n : Nat) : Grows n l l' :=
  ⟨h.definitions, h.messages ▸ List.prefix_rfl, [], by simp [h.fields], by simp⟩

namespace Grows

theorem trans (h : Grows n l l') (h' : Grows n l' l'') : Grows n l l'' := by
  obtain ⟨hdefinitions, hmessages, added, hfields, howner⟩ := h
  obtain ⟨hdefinitions', hmessages', added', hfields', howner'⟩ := h'
  refine ⟨hdefinitions.trans hdefinitions', hmessages.trans hmessages', added ++ added', ?_, ?_⟩
  · rw [hfields', hfields, List.append_assoc]
  · exact List.forall_mem_append.mpr ⟨howner, howner'⟩

theorem mono (h : Grows n l l') {k : Nat} (hk : k ≤ n) : Grows k l l' := by
  obtain ⟨hdefinitions, hmessages, added, hfields, howner⟩ := h
  refine ⟨hdefinitions, hmessages, added, hfields, fun f hf => ?_⟩
  obtain ⟨i, hi, hn⟩ := howner f hf
  exact ⟨i, hi, hk.trans hn⟩

theorem sources (h : Grows n l l') : l.sources <+: l'.sources := h.messages.map _

theorem size_le (h : Grows n l l') : l.messages.size ≤ l'.messages.size := by
  simpa using h.messages.length_le

/-- The messages before place `n` get no further fields. -/
theorem ownDecls_eq (h : Grows n l l') {i : Nat} (hi : i < n) : l'.ownDecls i = l.ownDecls i := by
  obtain ⟨-, -, added, hfields, howner⟩ := h
  have hnone : added.filter (·.owner = some i) = [] := by
    simp only [List.filter_eq_nil_iff, decide_eq_true_eq]
    intro f hf heq
    obtain ⟨j, hj, hn⟩ := howner f hf
    obtain rfl := Option.some.inj (hj.symm.trans heq)
    exact absurd hi (Nat.not_lt.mpr hn)
  rw [ownDecls, hfields, List.filter_append, hnone, List.append_nil, ownDecls]

/-- A name that is taken stays taken. -/
theorem isSome_definition? (h : Grows n l l') {name : String} (hname : (l.definition? name).isSome) :
    (l'.definition? name).isSome := by
  rw [Option.isSome_iff_ne_none, ne_eq, definition?_eq_none, not_not] at hname ⊢
  exact (h.definitions.map _).subset hname

theorem enterMessage (l : Linker) (file : FileScope) (scope : String) (parent : Option Nat)
    (name : String) (isMapEntry : Bool) (extensionRanges : List NumberRange) (n : Nat) :
    Grows n l (l.enterMessage file scope parent name isMapEntry extensionRanges) := by
  refine ⟨?_, ?_, [], ?_, ?_⟩ <;> simp

theorem addField (l : Linker) (file : FileScope) (scope : String) (f : FieldDecl)
    (h : n ≤ owner) : Grows n l (l.addField file owner scope f) := by
  refine ⟨?_, ?_, _, (congrArg Inventory.fields (inventory_addField ..) :), ?_⟩
  · simp
  · simp
  · simpa using h

end Grows

section

variable {before behind : List MessageDecl} {m : MessageDecl}

/-- A name is only free if none of the messages before has it. -/
theorem declaredAs_of_free
    (hbefore : ∀ e ∈ before, (l.definition? (Dotted.join scope e.name)).isSome)
    (hin : DeclaredIn files l.sources file parent (before ++ m :: behind))
    (hfree : l.definition? (Dotted.join scope m.name) = none) :
    DeclaredAs files (l.sources ++ [⟨m.name, file.name, parent, false⟩]) l.messages.size m := by
  have hlength : l.messages.size = l.sources.length := by simp [sources]
  rw [hlength]
  refine hin.declaredAs fun e he hname => ?_
  have hsome := hbefore e he
  rw [hname, hfree] at hsome
  exact absurd hsome (by simp)

/-- Behind a message whose name is taken by then, the messages before the next have their names
taken. -/
theorem Grows.next (hgrows : Grows n l l')
    (hbefore : ∀ e ∈ before, (l.definition? (Dotted.join scope e.name)).isSome)
    (hsome : (l'.definition? (Dotted.join scope m.name)).isSome)
    (hin : DeclaredIn files l.sources file parent (before ++ m :: behind)) :
    (∀ e ∈ before ++ [m], (l'.definition? (Dotted.join scope e.name)).isSome) ∧
      DeclaredIn files l'.sources file parent ((before ++ [m]) ++ behind) := by
  refine ⟨List.forall_mem_append.mpr
    ⟨fun e he => hgrows.isSome_definition? (hbefore e he), by simpa using hsome⟩, ?_⟩
  rw [List.append_assoc]
  cases parent with
  | none => exact hin
  | some outer =>
    obtain ⟨e, he, hds⟩ := hin
    exact ⟨e, he.mono hgrows.sources, hds⟩

end

/-! ## The invariant -/

/-- A field may stand in the message at place `i`: in a map entry, or in a message whose declaration
reserves neither its number nor its name. -/
def Permits (files : List SchemaFile) (sources : List MessageSource) (i : Nat) (f : FieldDecl) :
    Prop :=
  ∃ s, sources[i]? = some s ∧ (s.isMapEntry = false →
    ∃ d, DeclaredAs files sources i d ∧ ¬ d.ReservesNumber f.number ∧ ¬ d.ReservesName f.name)

/-- Every message that is no map entry is declared in the files, and the fields of each message keep
its rules. -/
structure Sourced (files : List SchemaFile) (l : Linker) : Prop where
  messages : ∀ i m, l.inventory.messages[i]? = some m → m.isMapEntry = false →
    ∃ d, DeclaredAs files l.sources i d ∧ d.extensionRanges = m.extensionRanges
  entries : ∀ m ∈ l.inventory.messages, m.isMapEntry = true → m.extensionRanges = []
  fields : ∀ f ∈ l.inventory.fields, IsFieldNumber f.decl.number ∧
    ∃ i, f.owner = some i ∧ Permits files l.sources i f.decl
  numbers : ∀ i, ((l.ownDecls i).map (·.number)).Nodup
  names : ∀ i, ((l.ownDecls i).map (·.name)).Nodup

theorem Permits.mono {sources sources' : List MessageSource} {i : Nat} {f : FieldDecl}
    (h : Permits files sources i f) (hinitial : sources <+: sources') :
    Permits files sources' i f := by
  obtain ⟨s, hs, hd⟩ := h
  refine ⟨s, ?_, fun hentry => ?_⟩
  · obtain ⟨added, rfl⟩ := hinitial
    rw [List.getElem?_append_left (List.getElem?_eq_some_iff.mp hs).1, hs]
  · obtain ⟨d, hdeclared, hfree⟩ := hd hentry
    exact ⟨d, hdeclared.mono hinitial, hfree⟩

namespace Sourced

theorem empty : Sourced files empty := by
  constructor <;> simp [Linker.empty, inventory, ownDecls]

theorem spare (h : Sourced files l) (hspares : Spares l l') : Sourced files l' := by
  have hsources : l'.sources = l.sources := congrArg (List.map _) hspares.messages
  have hown (i : Nat) : l'.ownDecls i = l.ownDecls i := by rw [ownDecls, ownDecls, hspares.fields]
  refine ⟨?_, ?_, ?_, ?_, ?_⟩
  · rw [hspares.messages, hsources]
    exact h.messages
  · rw [hspares.messages]
    exact h.entries
  · rw [hspares.fields, hsources]
    exact h.fields
  · intro i
    rw [hown]
    exact h.numbers i
  · intro i
    rw [hown]
    exact h.names i

/-- No field stands in a message that is not there yet. -/
theorem ownDecls_eq_nil (h : Sourced files l) {i : Nat} (hi : l.messages.size ≤ i) :
    l.ownDecls i = [] := by
  rw [ownDecls, List.map_eq_nil_iff, List.filter_eq_nil_iff]
  intro f hf howner
  obtain ⟨-, j, hj, s, hs, -⟩ := h.fields f hf
  obtain rfl := Option.some.inj (hj.symm.trans (of_decide_eq_true howner))
  have hlt : j < l.sources.length := (List.getElem?_eq_some_iff.mp hs).1
  rw [sources, List.length_map, length_messages_inventory] at hlt
  exact absurd hlt (Nat.not_lt.mpr hi)

theorem enterMessage (h : Sourced files l) {name : String} {isMapEntry : Bool}
    {extensionRanges : List NumberRange}
    (hdeclared : isMapEntry = false → ∃ d, DeclaredAs files
      (l.sources ++ [⟨name, file.name, parent, false⟩]) l.messages.size d ∧
        d.extensionRanges = extensionRanges)
    (hentry : isMapEntry = true → extensionRanges = []) :
    Sourced files (l.enterMessage file scope parent name isMapEntry extensionRanges) := by
  have hgrows := Grows.enterMessage l file scope parent name isMapEntry extensionRanges 0
  have hmessages := congrArg Inventory.messages
    (inventory_enterMessage l file scope parent name isMapEntry extensionRanges)
  have hfields := congrArg Inventory.fields
    (inventory_enterMessage l file scope parent name isMapEntry extensionRanges)
  simp only at hmessages hfields
  have hown (i : Nat) : (l.enterMessage file scope parent name isMapEntry
      extensionRanges).ownDecls i = l.ownDecls i := by rw [ownDecls, ownDecls, hfields]
  refine ⟨?_, ?_, ?_, ?_, ?_⟩
  · intro i m hm hplain
    rw [hmessages] at hm
    by_cases hlt : i < l.inventory.messages.length
    · rw [List.getElem?_append_left hlt] at hm
      obtain ⟨d, hd, hranges⟩ := h.messages i m hm hplain
      exact ⟨d, hd.mono hgrows.sources, hranges⟩
    · obtain ⟨hle, hlast⟩ := List.getElem?_eq_some_iff.mp hm
      have hi : i = l.messages.size := by
        simp only [List.length_append, List.length_singleton, length_messages_inventory] at hle hlt
        omega
      subst hi
      rw [← length_messages_inventory, List.getElem?_concat_length, Option.some.injEq] at hm
      subst hm
      obtain ⟨d, hd, hranges⟩ := hdeclared hplain
      refine ⟨d, ?_, hranges⟩
      have hsources : (l.enterMessage file scope parent name isMapEntry extensionRanges).sources =
          l.sources ++ [⟨name, file.name, parent, false⟩] := by
        rw [sources, hmessages, List.map_append]
        simp [MessageHeader.source, show isMapEntry = false from hplain, sources]
      rwa [hsources]
  · rw [hmessages]
    exact List.forall_mem_append.mpr ⟨h.entries, by simpa using hentry⟩
  · rw [hfields]
    intro f hf
    obtain ⟨hnumber, i, hi, hpermits⟩ := h.fields f hf
    exact ⟨hnumber, i, hi, hpermits.mono hgrows.sources⟩
  · intro i
    rw [hown]
    exact h.numbers i
  · intro i
    rw [hown]
    exact h.names i

end Sourced

theorem ownDecls_addField (l : Linker) (file : FileScope) (owner : Nat) (scope : String)
    (f : FieldDecl) (i : Nat) : (l.addField file owner scope f).ownDecls i =
      if i = owner then l.ownDecls i ++ [f] else l.ownDecls i := by
  by_cases h : i = owner
  · simp [ownDecls, inventory_addField, h]
  · simp [ownDecls, inventory_addField, h, Ne.symm h]

theorem Sourced.addField (h : Sourced files l) {f : FieldDecl} (hnumber : IsFieldNumber f.number)
    (hpermits : Permits files l.sources owner f)
    (hnew : f.number ∉ (l.ownDecls owner).map (·.number))
    (hname : f.name ∉ (l.ownDecls owner).map (·.name)) :
    Sourced files (l.addField file owner scope f) := by
  have hmessages : (l.addField file owner scope f).inventory.messages = l.inventory.messages := by
    rw [inventory_addField]
  have hsources : (l.addField file owner scope f).sources = l.sources :=
    congrArg (List.map _) hmessages
  refine ⟨?_, ?_, ?_, ?_, ?_⟩
  · rw [hmessages, hsources]
    exact h.messages
  · rw [hmessages]
    exact h.entries
  · rw [hsources, inventory_addField]
    exact List.forall_mem_append.mpr ⟨h.fields, by simpa using ⟨hnumber, hpermits⟩⟩
  · intro i
    rw [ownDecls_addField]
    split
    · next hi =>
      subst hi
      exact nodup_map_append_singleton (h.numbers i) hnew
    · exact h.numbers i
  · intro i
    rw [ownDecls_addField]
    split
    · next hi =>
      subst hi
      exact nodup_map_append_singleton (h.names i) hname
    · exact h.names i

/-! ## The fields of a message -/

/-- The rules for the fields of the message at a place are those of its declaration, and know all
the fields that it has so far. -/
structure RulesOf (files : List SchemaFile) (l : Linker) (owner : Nat) (rules : FieldRules) :
    Prop where
  declared : ∃ d, DeclaredAs files l.sources owner d ∧ rules.reservedRanges = d.reservedRanges ∧
    rules.reservedNames = d.reservedNames
  taken : ∀ f ∈ l.ownDecls owner, (f.number, f.name) ∈ rules.taken

namespace RulesOf

variable {rules : FieldRules} {f : FieldDecl}

theorem lt_size (h : RulesOf files l owner rules) : owner < l.messages.size := by
  obtain ⟨d, hd, -⟩ := h.declared
  have hlt : owner < l.sources.length := by
    cases hd with
    | top hs | nested hs => exact (List.getElem?_eq_some_iff.mp hs).1
  simpa [sources] using hlt

theorem permits (h : RulesOf files l owner rules) (hproblem : rules.problem? f = none) :
    Permits files l.sources owner f := by
  obtain ⟨d, hd, hranges, hnames⟩ := h.declared
  have hsource : ∃ s, l.sources[owner]? = some s := by
    cases hd with
    | top hs | nested hs => exact ⟨_, hs⟩
  obtain ⟨s, hs⟩ := hsource
  refine ⟨s, hs, fun _ => ⟨d, hd, ?_, ?_⟩⟩
  · rw [MessageDecl.ReservesNumber, ← hranges]
    exact FieldRules.not_reservesNumber hproblem
  · rw [MessageDecl.ReservesName, ← hnames]
    exact FieldRules.not_reservesName hproblem

/-- What is added to other messages leaves the rules as they are. -/
theorem grow (h : RulesOf files l owner rules) (hgrows : Grows n l l') (howner : owner < n) :
    RulesOf files l' owner rules := by
  obtain ⟨d, hd, hrules⟩ := h.declared
  exact ⟨⟨d, hd.mono hgrows.sources, hrules⟩, hgrows.ownDecls_eq howner ▸ h.taken⟩

/-- A name and number that become known may belong to a field or not. -/
theorem take (h : RulesOf files l owner rules) (f : FieldDecl) :
    RulesOf files l owner (rules.take f) :=
  ⟨h.declared, fun g hg => List.mem_append_left _ (h.taken g hg)⟩

/-- A field that breaks no rule can be added, also in another shape. -/
theorem addField (h : RulesOf files l owner rules) (file : FileScope) (scope : String)
    (hl : Sourced files l) (hproblem : rules.problem? f = none) {g : FieldDecl}
    (hnumber : g.number = f.number) (hname : g.name = f.name) :
    Sourced files (l.addField file owner scope g) ∧
      RulesOf files (l.addField file owner scope g) owner (rules.take f) := by
  have hgrows := Grows.addField l file scope g (le_refl owner)
  constructor
  · refine hl.addField (hnumber ▸ FieldRules.isFieldNumber hproblem) ?_ ?_ ?_
    · have hpermits := h.permits hproblem
      rwa [Permits, ← hnumber, ← hname] at hpermits
    · rw [hnumber]
      intro hmem
      obtain ⟨other, hother, heq⟩ := List.mem_map.mp hmem
      exact FieldRules.number_notMem hproblem
        (List.mem_map.mpr ⟨_, h.taken other hother, heq⟩)
    · rw [hname]
      intro hmem
      obtain ⟨other, hother, heq⟩ := List.mem_map.mp hmem
      exact FieldRules.name_notMem hproblem (List.mem_map.mpr ⟨_, h.taken other hother, heq⟩)
  · obtain ⟨d, hd, hrules⟩ := h.declared
    refine ⟨⟨d, hd.mono hgrows.sources, hrules⟩, ?_⟩
    rw [ownDecls_addField, if_pos rfl]
    refine List.forall_mem_append.mpr ⟨fun other hother => ?_, ?_⟩
    · exact List.mem_append_left _ (h.taken other hother)
    · simp [FieldRules.take, hnumber, hname]

end RulesOf

/-- The entry message of a map field keeps the rules: it has one field of each of two names and
numbers. -/
theorem Sourced.declareMapEntry (h : Sourced files l) (file : FileScope) (owner : Nat)
    (scope : String) (f : FieldDecl) (key value : String) (position : Position) :
    let result := (l.declareMapEntry file owner scope f key value position).1
    Sourced files result ∧ Grows l.messages.size l result := by
  intro result
  rcases declareMapEntry_cases l file owner scope f key value position with
    ⟨-, heq⟩ | ⟨-, p, heq⟩
  · let entry := l.enterMessage file scope (some owner) (MapEntry.name f.name) true []
    let fullName := Dotted.join scope (MapEntry.name f.name)
    have hentry : Sourced files entry := h.enterMessage (by simp) fun _ => rfl
    have hentryGrows := Grows.enterMessage l file scope (some owner) (MapEntry.name f.name) true []
      l.messages.size
    have hsource : entry.sources[l.messages.size]? =
        some ⟨MapEntry.name f.name, file.name, some owner, true⟩ := by
      have hlength : l.messages.size = l.sources.length := by simp [sources]
      rw [hlength]
      simp [entry, sources, MessageHeader.source]
    have hpermits (g : FieldDecl) : Permits files entry.sources l.messages.size g :=
      ⟨_, hsource, fun hplain => absurd hplain (by simp)⟩
    have hnone : entry.ownDecls l.messages.size = [] := by
      have hfields : entry.inventory.fields = l.inventory.fields := by simp [entry]
      rw [ownDecls, hfields]
      exact h.ownDecls_eq_nil (le_refl _)
    have hkey : Sourced files (entry.addField file l.messages.size fullName (keyField f key)) := by
      refine hentry.addField ?_ (hpermits _) ?_ ?_
      · simp [IsFieldNumber, keyField]
      · simp [hnone]
      · simp [hnone]
    have hvalue : Sourced files ((entry.addField file l.messages.size fullName
        (keyField f key)).addField file l.messages.size fullName
          (valueField f value position)) := by
      refine hkey.addField ?_ ?_ ?_ ?_
      · simp [IsFieldNumber, valueField]
      · exact (hpermits _).mono (Grows.addField entry file fullName _ (le_refl _)).sources
      · simp [ownDecls_addField, hnone, keyField, valueField]
      · simp [ownDecls_addField, hnone, keyField, valueField]
    have hresult : result = (entry.addField file l.messages.size fullName
        (keyField f key)).addField file l.messages.size fullName (valueField f value position) :=
      congrArg Prod.fst heq
    rw [hresult]
    exact ⟨hvalue, (hentryGrows.trans (.addField _ _ _ _ (le_refl _))).trans
      (.addField _ _ _ _ (le_refl _))⟩
  · have hresult : result = l.report file (some f.position) p := congrArg Prod.fst heq
    have hspares : Spares l result := .of_eq (hresult ▸ rfl)
    exact ⟨h.spare hspares, hspares.grows _⟩

theorem Sourced.declareFields {rules : FieldRules} (h : Sourced files l) (file : FileScope)
    (scope : String) (hrules : RulesOf files l owner rules) (fs : List FieldDecl) :
    Sourced files (l.declareFields file owner scope rules fs) ∧
      Grows owner l (l.declareFields file owner scope rules fs) := by
  induction fs generalizing l rules with
  | nil => exact ⟨h, (Spares.refl l).grows owner⟩
  | cons f fs ih =>
    rw [declareFields_cons]
    unfold declareField
    cases hproblem : rules.problem? f with
    | some p =>
      have hspares : Spares l (l.report file (some f.position) p) := .of_eq rfl
      have hgrows := hspares.grows owner
      obtain ⟨hrest, hrestGrows⟩ := ih (h.spare hspares)
        (hrules.grow (hspares.grows l.messages.size) hrules.lt_size)
      exact ⟨hrest, hgrows.trans hrestGrows⟩
    | none =>
      have hplain : Sourced files ((l.addField file owner scope f).declareFields file owner scope
            (rules.take f) fs) ∧
          Grows owner l ((l.addField file owner scope f).declareFields file owner scope
            (rules.take f) fs) := by
        obtain ⟨hfield, hrules'⟩ := hrules.addField file scope h hproblem rfl rfl
        obtain ⟨hrest, hrestGrows⟩ := ih hfield hrules'
        exact ⟨hrest, (Grows.addField l file scope f (le_refl owner)).trans hrestGrows⟩
      cases hshape : f.shape with
      | named | group => exact hplain
      | map key value position =>
        obtain ⟨hentry, hentryGrows⟩ := h.declareMapEntry file owner scope f key value position
        rcases hresult : l.declareMapEntry file owner scope f key value position with
          ⟨l', done⟩
        rw [hresult] at hentry hentryGrows
        simp only [hresult]
        have hrules' := hrules.grow hentryGrows hrules.lt_size
        have hgrows := hentryGrows.mono hrules.lt_size.le
        cases done with
        | false =>
          obtain ⟨hrest, hrestGrows⟩ := ih hentry (hrules'.take f)
          exact ⟨hrest, hgrows.trans hrestGrows⟩
        | true =>
          obtain ⟨hfield, hrules''⟩ := hrules'.addField (g := mapField f) file scope hentry
            hproblem rfl rfl
          obtain ⟨hrest, hrestGrows⟩ := ih hfield hrules''
          exact ⟨hrest, (hgrows.trans (.addField _ _ _ _ (le_refl owner))).trans hrestGrows⟩

/-! ## Messages and files -/

/-- What a message holds is declared behind it: its enums, the messages nested in it, and its fields,
which keep the rules of its declaration. -/
theorem Sourced.declareBody {place : Nat} {m : MessageDecl} (h : Sourced files l)
    (file : FileScope) (fullName : String) (hm : DeclaredAs files l.sources place m)
    (hplace : place < l.messages.size) (hnone : l.ownDecls place = [])
    (hnested : ∀ l', Sourced files l' → DeclaredAs files l'.sources place m →
      Sourced files (l'.declareMessages file fullName (some place) m.messages) ∧
        Grows l'.messages.size l' (l'.declareMessages file fullName (some place) m.messages)) :
    Sourced files (l.declareBody file fullName place m) ∧
      Grows place l (l.declareBody file fullName place m) := by
  let l₁ := m.enums.foldl (fun l e => l.declareEnum file fullName (some place) e) l
  let l₂ := l₁.declareMessages file fullName (some place) m.messages
  let rules : FieldRules := ⟨fullName, m.reservedRanges, m.reservedNames, []⟩
  have henums : Spares l l₁ := .foldl (fun l e => spares_declareEnum l file _ _ e) l m.enums
  have hgrows₁ : Grows l.messages.size l l₁ := henums.grows _
  obtain ⟨h₂, hgrows⟩ := hnested l₁ (h.spare henums) (hm.mono hgrows₁.sources)
  have hgrows₂ : Grows l.messages.size l l₂ := hgrows₁.trans (hgrows.mono hgrows₁.size_le)
  have hrules : RulesOf files l₂ place rules := by
    refine ⟨⟨m, hm.mono hgrows₂.sources, rfl, rfl⟩, ?_⟩
    rw [hgrows₂.ownDecls_eq hplace, hnone]
    simp
  obtain ⟨h₃, hgrows₃⟩ := h₂.declareFields file fullName hrules m.fields
  have hextends : Spares (l₂.declareFields file place fullName rules m.fields)
      (l.declareBody file fullName place m) :=
    (Idle.foldl (fun l e => idle_declareExtend l file _ e) _ m.extendBlocks).toSpares
  exact ⟨h₃.spare hextends,
    ((hgrows₂.mono hplace.le).trans hgrows₃).trans (hextends.grows _)⟩

mutual

theorem Sourced.declareMessage (l : Linker) (h : Sourced files l) (file : FileScope)
    (scope : String) (parent : Option Nat) : (m : MessageDecl) →
      (l.definition? (Dotted.join scope m.name) = none → DeclaredAs files
        (l.sources ++ [⟨m.name, file.name, parent, false⟩]) l.messages.size m) →
      Sourced files (l.declareMessage file scope parent m) ∧
        Grows l.messages.size l (l.declareMessage file scope parent m) ∧
          ((l.declareMessage file scope parent m).definition?
            (Dotted.join scope m.name)).isSome
  | ⟨name, fields, messages, enums, extendBlocks, oneofs, options, extensionRanges,
      reservedRanges, reservedNames, position⟩, hdeclared => by
    let m : MessageDecl := ⟨name, fields, messages, enums, extendBlocks, oneofs, options,
      extensionRanges, reservedRanges, reservedNames, position⟩
    rcases declareMessage_cases l file scope parent m with ⟨hfree, heq⟩ | ⟨htaken, p, heq⟩
    · rw [heq]
      let entered := l.enterMessage file scope parent name false extensionRanges
      have hgrows : Grows l.messages.size l entered := .enterMessage ..
      have hentered : Sourced files entered :=
        h.enterMessage (fun _ => ⟨m, hdeclared hfree, rfl⟩) (by simp)
      have hsources : entered.sources = l.sources ++ [⟨name, file.name, parent, false⟩] := by
        simp [entered, sources, MessageHeader.source]
      have hm : DeclaredAs files entered.sources l.messages.size m := hsources ▸ hdeclared hfree
      have hsize : l.messages.size < entered.messages.size := by
        have hlength := congrArg List.length hsources
        simp only [sources, List.length_map, length_messages_inventory, List.length_append,
          List.length_singleton] at hlength
        omega
      have hnone : entered.ownDecls l.messages.size = [] := by
        have hfields : entered.inventory.fields = l.inventory.fields := by simp [entered]
        rw [ownDecls, hfields]
        exact h.ownDecls_eq_nil (le_refl _)
      obtain ⟨hbody, hbodyGrows⟩ := hentered.declareBody file (Dotted.join scope name) hm
        hsize hnone fun l' hl' hm' =>
          Sourced.declareMessages l' hl' file _ _ [] messages (by simp) ⟨m, hm', rfl⟩
      refine ⟨hbody, hgrows.trans hbodyGrows, hbodyGrows.isSome_definition? ?_⟩
      rw [Option.isSome_iff_ne_none, ne_eq, definition?_eq_none, not_not]
      simp [entered]
    · rw [heq]
      have hspares : Spares l (l.report file (some position) p) := .of_eq rfl
      exact ⟨h.spare hspares, hspares.grows _, htaken⟩

theorem Sourced.declareMessages (l : Linker) (h : Sourced files l) (file : FileScope)
    (scope : String) (parent : Option Nat) (before : List MessageDecl) :
    (ms : List MessageDecl) →
      (∀ m ∈ before, (l.definition? (Dotted.join scope m.name)).isSome) →
      DeclaredIn files l.sources file parent (before ++ ms) →
      Sourced files (l.declareMessages file scope parent ms) ∧
        Grows l.messages.size l (l.declareMessages file scope parent ms)
  | [], _, _ => by
    rw [Linker.declareMessages]
    exact ⟨h, (Spares.refl l).grows _⟩
  | m :: ms, hbefore, hin => by
    rw [Linker.declareMessages]
    obtain ⟨hm, hgrows, hsome⟩ := Sourced.declareMessage l h file scope parent m
      (declaredAs_of_free hbefore hin)
    obtain ⟨hbefore', hin'⟩ := hgrows.next hbefore hsome hin
    obtain ⟨hms, hgrows'⟩ := Sourced.declareMessages (l.declareMessage file scope parent m) hm file
      scope parent (before ++ [m]) ms hbefore' hin'
    exact ⟨hms, hgrows.trans (hgrows'.mono hgrows.size_le)⟩

end

/-- Declaring one of the files keeps the messages and fields sourced. -/
theorem Sourced.declare (h : Sourced files l) {f : SchemaFile} (hf : f ∈ files) :
    Sourced files (l.declare f) := by
  have hstart := (idle_start l f.scope).toSpares
  obtain ⟨hmessages, -⟩ := Sourced.declareMessages _ (h.spare hstart) f.scope f.scope.package none
    [] f.messages (by simp) ⟨f, hf, rfl, rfl⟩
  have henums := Spares.foldl (fun l e => spares_declareEnum l f.scope f.scope.package none e)
    (((l.addFile f.scope).declarePackage f.scope).declareMessages f.scope f.scope.package none
      f.messages) f.enums
  have hextends := henums.trans (Idle.foldl
    (fun l e => idle_declareExtend l f.scope f.scope.package e) _ f.extendBlocks).toSpares
  exact hmessages.spare (hextends.trans
    (Idle.foldl (fun l s => idle_declareService l f.scope s) _ f.services).toSpares)

/-- After any files were declared, the messages have their declarations among them. -/
theorem sourced_ofFiles (files : List SchemaFile) : Sourced files (ofFiles files) := by
  have hsublist : ∀ fs ⊆ files, Sourced files (ofFiles fs) := by
    intro fs
    induction fs using List.reverseRecOn with
    | nil => exact fun _ => .empty
    | append_singleton fs f ih =>
      intro hfs
      rw [ofFiles_append_singleton]
      exact (ih fun g hg => hfs (by simp [hg])).declare (hfs (by simp))
  exact hsublist files (List.Subset.refl files)

end Linker

end ProtoSchema
