import ProtoSchema.Proofs.Linker.Hidden
import ProtoSchema.Proofs.Schema.Fields
import ProtoSchema.Proofs.Schema.Worded

/-!
# How full names are spelled

In a file whose package has no point in front, every full name is a word inside a scope, which is the
outermost one or a path. The name of a map entry alone need not be a word, since it may start with a
digit. So no full name has a point in front (`Definition.Spelled.not_isPointed`).
-/

namespace ProtoSchema

open Dotted

/-- A definition is a package, or has a name inside a scope. -/
def Definition.Spelled (d : Definition) : Prop :=
  d.kind = .package ∨ ∃ scope name, IsScope scope ∧ IsPart name ∧ d.fullName = join scope name

theorem Definition.Spelled.not_isPointed {d : Definition} (h : d.Spelled)
    (hkind : d.kind ≠ .package) : ¬ IsPointed d.fullName := by
  obtain ⟨scope, name, hscope, hname, hfull⟩ := h.resolve_left hkind
  rw [hfull]
  refine not_isPointed_join ?_ hname.not_isPointed
  rcases hscope with rfl | hscope
  · simp [IsPointed]
  · exact hscope.not_isPointed

/-- What is referred to by words has a full name of words. -/
theorem Definition.Spelled.isPath {d : Definition} (h : d.Spelled) (hkind : d.kind ≠ .package)
    {scope ref : String} (href : IsReference ref) (hd : d.fullName ∈ candidates scope ref) :
    IsPath d.fullName := by
  rcases href with href | ⟨path, hpath, rfl⟩
  · obtain ⟨outer, name, houter, hname, hfull⟩ := h.resolve_left hkind
    have hlast := lastPart_of_mem_candidates href.not_isPointed hd
    rw [hfull, lastPart_join, hname.lastPart] at hlast
    rw [hfull]
    exact houter.join (hlast ▸ href.isWord_lastPart)
  · rw [candidates_of_point, List.mem_singleton] at hd
    rwa [hd]

/-- A field has a word as its name, as the oneof has that it is in. -/
structure FieldEntry.Spelled (f : FieldEntry) : Prop where
  name : IsWord f.decl.name
  fullName : IsDotted f.fullName
  oneof : ∀ o ∈ f.decl.oneof, IsWord o

/-- A message has just the key and the value of a map. -/
def MessageOutline.IsEntry (m : MessageOutline) : Prop :=
  ∃ f key value position, m.fields = [Linker.keyField f key, Linker.valueField f value position] ∧
    FieldType.isMapKeyName key = true ∧ IsReference value

/-- What is entered under a name of its own, inside a scope. -/
structure Outline.Spelled (o : Outline) : Prop where
  definitions : ∀ d ∈ o.definitions, d.Spelled
  messages : ∀ m ∈ o.messages, m.isMapEntry = false → IsWord m.name ∧ IsPath m.fullName
  entries : ∀ m ∈ o.messages, m.isMapEntry = true → m.IsEntry
  enums : ∀ e ∈ o.enums, (IsWord e.name ∧ IsPath e.fullName) ∧ ∀ v ∈ e.values, IsWord v.name
  fields : ∀ f ∈ o.fields, f.Spelled
  extensions : ∀ e ∈ o.extensions, e.field.Spelled

section

variable {o o' : Outline} {file : FileScope} {scope : String}

theorem Outline.Spelled.append (h : o.Spelled) (h' : o'.Spelled) : (o ++ o').Spelled :=
  ⟨List.forall_mem_append.mpr ⟨h.definitions, h'.definitions⟩,
    List.forall_mem_append.mpr ⟨h.messages, h'.messages⟩,
    List.forall_mem_append.mpr ⟨h.entries, h'.entries⟩,
    List.forall_mem_append.mpr ⟨h.enums, h'.enums⟩,
    List.forall_mem_append.mpr ⟨h.fields, h'.fields⟩,
    List.forall_mem_append.mpr ⟨h.extensions, h'.extensions⟩⟩

theorem Outline.Spelled.flatten {α : Type} {outline : α → Outline} {xs : List α}
    (h : ∀ x ∈ xs, (outline x).Spelled) : (Outline.flatten (xs.map outline)).Spelled := by
  induction xs with
  | nil => constructor <;> simp [Outline.flatten]
  | cons x xs ih =>
    rw [List.forall_mem_cons] at h
    exact h.1.append (ih h.2)

/-- An outline that holds nothing but definitions. -/
theorem Outline.Spelled.of_definitions (h : ∀ d ∈ o.definitions, d.Spelled)
    (hmessages : o.messages = []) (henums : o.enums = []) (hfields : o.fields = [])
    (hextensions : o.extensions = []) : o.Spelled :=
  ⟨h, by simp [hmessages], by simp [hmessages], by simp [henums], by simp [hfields],
    by simp [hextensions]⟩

theorem spelled_in {kind : DefinitionKind} {file? : Option Text} (hscope : IsScope scope)
    {name : String} (hname : IsWord name) :
    (⟨kind, join scope name, file?, none⟩ : Definition).Spelled :=
  .inr ⟨scope, name, hscope, hname.isPart, rfl⟩

theorem Outline.spelled_ofField {f : FieldEntry} (h : f.Spelled) : (Outline.ofField f).Spelled := by
  constructor <;> simp [Outline.ofField, Outline.empty, h]

theorem FieldDecl.entry_spelled (hscope : IsDotted scope) {f : FieldDecl} (hname : IsWord f.name)
    (honeof : ∀ o ∈ f.oneof, IsWord o) : (f.entry file scope).Spelled :=
  ⟨hname, hscope.join hname.isPart.isDotted, honeof⟩

theorem FieldDecl.outline_spelled (hscope : IsScope scope) {f : FieldDecl} (h : f.Worded)
    {dialect : Dialect} (hproblem : f.problem? dialect = none) : (f.outline file scope).Spelled := by
  unfold FieldDecl.outline
  split
  · next key value position hshape =>
    have hpart := MapEntry.isPart_name h.name
    have hentry : (Outline.ofMessage ⟨⟨MapEntry.name f.name, join scope (MapEntry.name f.name), file,
        true, true, []⟩, [Linker.keyField f key, Linker.valueField f value position]⟩).Spelled := by
      have hkey : FieldType.isMapKeyName key = true := by
        simpa [FieldDecl.problem?, hshape] using hproblem
      have hvalue : IsReference value := by
        have hworded := h.shape
        rw [hshape] at hworded
        exact hworded.2
      constructor <;> simp only [Outline.ofMessage, Outline.empty]
      · exact List.forall_mem_singleton.mpr (.inr ⟨scope, _, hscope, hpart, rfl⟩)
      · simp
      · exact List.forall_mem_singleton.mpr fun _ => ⟨f, key, value, position, rfl, hkey, hvalue⟩
      all_goals simp
    have hwords : IsWord "key" ∧ IsWord "value" := by decide +kernel
    have hinside := hscope.isDotted.join hpart.isDotted
    refine ((hentry.append (Outline.spelled_ofField ?_)).append
      (Outline.spelled_ofField ?_)).append (Outline.spelled_ofField ?_)
    · exact FieldDecl.entry_spelled hinside hwords.1 (by simp [Linker.keyField])
    · exact FieldDecl.entry_spelled hinside hwords.2 (by simp [Linker.valueField])
    · exact FieldDecl.entry_spelled hscope.isDotted h.name (by simp [Linker.mapField])
  · exact Outline.spelled_ofField (FieldDecl.entry_spelled hscope.isDotted h.name h.oneof)
  · exact Outline.spelled_ofField (FieldDecl.entry_spelled hscope.isDotted h.name h.oneof)

theorem EnumDecl.outline_spelled (hscope : IsScope scope) (isNested : Bool) {e : EnumDecl}
    (h : e.Worded) : (e.outline file scope isNested).Spelled := by
  constructor <;> simp only [EnumDecl.outline, Outline.empty, List.forall_mem_singleton]
  · exact spelled_in hscope h.name
  · simp
  · simp
  · exact ⟨⟨h.name, hscope.join h.name⟩, h.values⟩
  all_goals simp

theorem ExtendDecl.outline_spelled (hscope : IsScope scope) {e : ExtendDecl} (h : e.Worded) :
    (e.outline file scope).Spelled := by
  constructor <;> simp only [ExtendDecl.outline, Outline.empty]
  · simp
  · simp
  · simp
  · simp
  · simp
  · intro x hx
    obtain ⟨f, hf, rfl⟩ := List.mem_map.mp hx
    exact FieldDecl.entry_spelled hscope.isDotted (h f hf).name (h f hf).oneof

mutual

theorem MessageDecl.outline_spelled {scope : String} {dialect : Dialect} (hscope : IsScope scope)
    (isNested : Bool) : (m : MessageDecl) → m.Forall MessageDecl.Worded →
      m.Forall (MessageDecl.ForallFields fun f => f.problem? dialect = none) →
      (m.outline file scope isNested).Spelled
  | ⟨name, fields, messages, enums, extendBlocks, _, _, extensionRanges, _, _, _⟩, h, hrules => by
    rw [MessageDecl.Forall] at h hrules
    obtain ⟨⟨hname, hfields, henums, hextends⟩, hmessages⟩ := h
    obtain ⟨⟨hfieldRules, -⟩, hmessageRules⟩ := hrules
    have hpath : IsPath (join scope name) := hscope.join hname
    have hown : (Outline.ofMessage ⟨⟨name, join scope name, file, isNested, false,
        extensionRanges⟩, fields⟩).Spelled := by
      constructor <;> simp only [Outline.ofMessage, Outline.empty]
      · exact List.forall_mem_singleton.mpr (spelled_in hscope hname)
      · exact List.forall_mem_singleton.mpr fun _ => ⟨hname, hpath⟩
      all_goals simp
    rw [MessageDecl.outline]
    refine hown.append (.append ?_ (.append ?_ (.append ?_ ?_)))
    · exact .flatten fun e he => EnumDecl.outline_spelled (.inr hpath) true (henums e he)
    · exact MessageDecl.outlineAll_spelled (.inr hpath) true messages hmessages hmessageRules
    · exact .flatten fun f hf =>
        FieldDecl.outline_spelled (.inr hpath) (hfields f hf) (hfieldRules f hf)
    · exact .flatten fun e he => ExtendDecl.outline_spelled (.inr hpath) (hextends e he)

theorem MessageDecl.outlineAll_spelled {scope : String} {dialect : Dialect} (hscope : IsScope scope)
    (isNested : Bool) : (ms : List MessageDecl) → MessageDecl.ForallIn MessageDecl.Worded ms →
      MessageDecl.ForallIn (MessageDecl.ForallFields fun f => f.problem? dialect = none) ms →
      (MessageDecl.outlineAll file scope isNested ms).Spelled
  | [], _, _ => by
    rw [MessageDecl.outlineAll]
    exact .of_definitions (by simp [Outline.empty]) rfl rfl rfl rfl
  | m :: ms, h, hrules => by
    rw [MessageDecl.ForallIn] at h hrules
    rw [MessageDecl.outlineAll]
    exact (MessageDecl.outline_spelled hscope isNested m h.1 hrules.1).append
      (MessageDecl.outlineAll_spelled hscope isNested ms h.2 hrules.2)

end

theorem ServiceDecl.outline_spelled (hscope : IsScope file.package) {s : ServiceDecl}
    (h : s.Worded) : (s.outline file).Spelled := by
  have hinside : IsScope (join file.package s.name) := .inr (hscope.join h.name)
  refine .append (.of_definitions ?_ rfl rfl rfl rfl)
    (.flatten fun m hm => .of_definitions ?_ rfl rfl rfl rfl)
  · exact List.forall_mem_singleton.mpr (spelled_in hscope h.name)
  · exact List.forall_mem_singleton.mpr (spelled_in hinside (h.methods m hm))

theorem FileScope.packageOutline_spelled (file : FileScope) : file.packageOutline.Spelled := by
  refine .of_definitions (fun d hd => ?_) rfl rfl rfl rfl
  obtain ⟨name, -, rfl⟩ := List.mem_map.mp hd
  exact .inl rfl

/-- The package of a file is the outermost scope or a path, unless it has a point in front. -/
theorem SchemaFile.Worded.isScope {f : SchemaFile} (h : f.Worded)
    (hpoint : ¬ IsPointed f.scope.package) : IsScope f.scope.package := by
  cases hpackage : f.package with
  | none => exact .inl (by simp [SchemaFile.scope, hpackage])
  | some p =>
    have hp : f.scope.package = p := by simp [SchemaFile.scope, hpackage]
    rw [hp] at hpoint ⊢
    exact .inr ((h.package p hpackage).isPath hpoint)

theorem SchemaFile.outline_spelled {f : SchemaFile} (h : f.Worded)
    (hrules : f.ForallFields fun x => x.problem? f.dialect = none)
    (hpoint : ¬ IsPointed f.scope.package) : f.outline.Spelled := by
  have hscope := h.isScope hpoint
  refine .append f.scope.packageOutline_spelled (.append ?_ (.append ?_ (.append ?_ ?_)))
  · exact MessageDecl.outlineAll_spelled hscope false f.messages h.messages hrules.1
  · exact .flatten fun e he => EnumDecl.outline_spelled hscope false (h.enums e he)
  · exact .flatten fun e he => ExtendDecl.outline_spelled hscope (h.extendBlocks e he)
  · exact .flatten fun s hs => ServiceDecl.outline_spelled hscope (h.services s hs)

end

/-- What a text declares is spelled as names inside scopes, unless its package has a point in
front. -/
theorem SchemaFile.outline_spelled_of_parse {f : SchemaFile} {name : Text} {text : List Char}
    (h : SchemaFile.parse name text = .ok f) (hpoint : ¬ IsPointed f.scope.package) :
    f.outline.Spelled :=
  SchemaFile.outline_spelled (worded_of_parse h) (problem?_of_parse h) hpoint

/-- Whatever is defined has the name that its file gives it. -/
theorem Linker.spelled_of_mem {files : List SchemaFile} (h : ∀ f ∈ files, f.outline.Spelled)
    {d : Definition} (hd : d ∈ (ofFiles files).definitions) : d.Spelled := by
  obtain ⟨f, hf, hin⟩ := exists_outline_of_mem hd
  exact (h f hf).definitions d.unplaced hin

end ProtoSchema
