import ProtoSchema.Proofs.Schema.Parsed

/-!
# Fields and their faults

A file keeps the rules of its dialect if all its fields do, at any depth and in all extend blocks
(`SchemaFile.fault?_eq_none_iff`). Every field has the place of the word that names it, and so has
the fault of a file (`Tree.isOfField_of_fault?`).
-/

namespace ProtoSchema

/-! ## All fields of a file -/

/-- `P` holds of the fields of a message and of those in its extend blocks. -/
def MessageDecl.ForallFields (P : FieldDecl → Prop) (m : MessageDecl) : Prop :=
  (∀ f ∈ m.fields, P f) ∧ ∀ e ∈ m.extendBlocks, ∀ f ∈ e.fields, P f

/-- `P` holds of all fields of a file, at any depth. -/
def SchemaFile.ForallFields (P : FieldDecl → Prop) (f : SchemaFile) : Prop :=
  MessageDecl.ForallIn (MessageDecl.ForallFields P) f.messages ∧
    ∀ e ∈ f.extendBlocks, ∀ x ∈ e.fields, P x

theorem FieldDecl.fault?_eq_none_iff {dialect : Dialect} {f : FieldDecl} :
    f.fault? dialect = none ↔ f.problem? dialect = none := by
  rw [fault?, Option.map_eq_none_iff]

theorem ExtendDecl.fault?_eq_none_iff {dialect : Dialect} {blocks : List ExtendDecl} :
    fault? dialect blocks = none ↔
      ∀ e ∈ blocks, ∀ f ∈ e.fields, f.problem? dialect = none := by
  simp only [fault?, List.findSome?_eq_none_iff, List.mem_flatMap, FieldDecl.fault?_eq_none_iff]
  exact ⟨fun h e he f hf => h f ⟨e, he, hf⟩, fun h f ⟨e, he, hf⟩ => h e he f hf⟩

mutual

/-- A message has no fault if none of its fields has a problem, at any depth. -/
theorem MessageDecl.fault?_eq_none_iff {dialect : Dialect} : (m : MessageDecl) →
    (m.fault? dialect = none ↔
      m.Forall (MessageDecl.ForallFields fun f => f.problem? dialect = none))
  | ⟨_, _, messages, _, _, _, _, _, _, _, _⟩ => by
    have hmessages : MessageDecl.firstFault? dialect messages = none ↔ _ :=
      MessageDecl.firstFault?_eq_none_iff messages
    rw [MessageDecl.fault?, MessageDecl.Forall, ForallFields]
    simp only [Option.orElse_eq_orElse, Option.orElse_eq_or, Option.or_eq_none_iff,
      List.findSome?_eq_none_iff, FieldDecl.fault?_eq_none_iff, ExtendDecl.fault?_eq_none_iff,
      hmessages, and_assoc]

theorem MessageDecl.firstFault?_eq_none_iff {dialect : Dialect} : (ms : List MessageDecl) →
    (MessageDecl.firstFault? dialect ms = none ↔
      MessageDecl.ForallIn (MessageDecl.ForallFields fun f => f.problem? dialect = none) ms)
  | [] => by simp [MessageDecl.firstFault?, MessageDecl.ForallIn]
  | m :: ms => by
    have hm : m.fault? dialect = none ↔ _ := MessageDecl.fault?_eq_none_iff m
    have hms : MessageDecl.firstFault? dialect ms = none ↔ _ :=
      MessageDecl.firstFault?_eq_none_iff ms
    rw [MessageDecl.firstFault?, MessageDecl.ForallIn]
    simp only [Option.orElse_eq_orElse, Option.orElse_eq_or, Option.or_eq_none_iff, hm, hms]

end

/-- A file keeps the rules of its dialect if all its fields do. -/
theorem SchemaFile.fault?_eq_none_iff {f : SchemaFile} :
    f.fault? = none ↔ f.ForallFields fun x => x.problem? f.dialect = none := by
  rw [fault?, ForallFields]
  simp only [Option.orElse_eq_orElse, Option.orElse_eq_or, Option.or_eq_none_iff,
    MessageDecl.firstFault?_eq_none_iff, ExtendDecl.fault?_eq_none_iff]

/-- Whatever file a text stands for keeps the rules of its dialect. -/
theorem SchemaFile.problem?_of_parse {name : Text} {text : List Char} {f : SchemaFile}
    (h : SchemaFile.parse name text = .ok f) :
    f.ForallFields fun x => x.problem? f.dialect = none := by
  obtain ⟨tree, file, htree, hvalue, rfl⟩ := exists_tree_of_parse h
  have hfault : file.fault? = none := by
    cases hfault : file.fault? with
    | none => rfl
    | some fault => simp [parse, htree, hvalue, hfault, bind, Except.bind] at h
  exact fault?_eq_none_iff.mp hfault

/-! ## Faults are those of fields -/

section

variable {P : FieldDecl → Prop} {dialect : Dialect} {fault : Fault}

theorem ExtendDecl.exists_of_fault? {blocks : List ExtendDecl}
    (h : fault? dialect blocks = some fault) (hP : ∀ e ∈ blocks, ∀ f ∈ e.fields, P f) :
    ∃ f, P f ∧ f.fault? dialect = some fault := by
  obtain ⟨f, hf, hfault⟩ := List.exists_of_findSome?_eq_some h
  obtain ⟨e, he, hf⟩ := List.mem_flatMap.mp hf
  exact ⟨f, hP e he f hf, hfault⟩

mutual

/-- The fault of a message is that of one of its fields, at any depth. -/
theorem MessageDecl.exists_of_fault? : (m : MessageDecl) → m.fault? dialect = some fault →
    m.Forall (MessageDecl.ForallFields P) → ∃ f, P f ∧ f.fault? dialect = some fault
  | ⟨_, _, messages, _, _, _, _, _, _, _, _⟩, h, hP => by
    rw [MessageDecl.fault?] at h
    rw [MessageDecl.Forall] at hP
    simp only [Option.orElse_eq_orElse, Option.orElse_eq_or, Option.or_eq_some_iff] at h
    rcases h with h | ⟨-, h | ⟨-, h⟩⟩
    · obtain ⟨f, hf, hfault⟩ := List.exists_of_findSome?_eq_some h
      exact ⟨f, hP.1.1 f hf, hfault⟩
    · exact ExtendDecl.exists_of_fault? h hP.1.2
    · exact MessageDecl.exists_of_firstFault? messages h hP.2

theorem MessageDecl.exists_of_firstFault? : (ms : List MessageDecl) →
    MessageDecl.firstFault? dialect ms = some fault →
      MessageDecl.ForallIn (MessageDecl.ForallFields P) ms →
        ∃ f, P f ∧ f.fault? dialect = some fault
  | [], h, _ => by
    rw [MessageDecl.firstFault?] at h
    cases h
  | m :: ms, h, hP => by
    rw [MessageDecl.firstFault?] at h
    rw [MessageDecl.ForallIn] at hP
    simp only [Option.orElse_eq_orElse, Option.orElse_eq_or, Option.or_eq_some_iff] at h
    rcases h with h | ⟨-, h⟩
    · exact MessageDecl.exists_of_fault? m h hP.1
    · exact MessageDecl.exists_of_firstFault? ms h hP.2

end

/-- The fault of a file is that of one of its fields. -/
theorem SchemaFile.exists_of_fault? {f : SchemaFile} (h : f.fault? = some fault)
    (hP : f.ForallFields P) : ∃ x, P x ∧ x.fault? f.dialect = some fault := by
  rw [fault?] at h
  simp only [Option.orElse_eq_orElse, Option.orElse_eq_or, Option.or_eq_some_iff] at h
  rcases h with h | ⟨-, h⟩
  · exact MessageDecl.exists_of_firstFault? f.messages h hP.1
  · exact ExtendDecl.exists_of_fault? h hP.2

end

/-! ## Fields of items -/

section

variable {P : FieldDecl → Prop}

/-- `P` holds of the field of a group and of all fields in its message. -/
def GroupDecl.ForallFields (P : FieldDecl → Prop) (g : GroupDecl) : Prop :=
  P g.field ∧ g.body.Forall (MessageDecl.ForallFields P)

/-- `P` holds of the members of a oneof. -/
def OneofDecl.ForallFields (P : FieldDecl → Prop) (o : OneofDecl) : Prop := ∀ f ∈ o.fields, P f

/-- `P` holds of all fields in an item of a message. -/
def MessageItem.ForallFields (P : FieldDecl → Prop) : MessageItem → Prop
  | .field f => P f
  | .group g => g.ForallFields P
  | .oneof o => o.ForallFields P
  | .message m => m.Forall (MessageDecl.ForallFields P)
  | .extend e => ∀ f ∈ e.fields, P f
  | .enum _ | .extensions _ | .reserved _ | .option _ | .empty => True

/-- `P` holds of all fields in an item of a file. -/
def TopItem.ForallFields (P : FieldDecl → Prop) : TopItem → Prop
  | .message m => m.Forall (MessageDecl.ForallFields P)
  | .extend e => ∀ f ∈ e.fields, P f
  | .dependency _ | .package _ | .option _ | .enum _ | .service _ | .empty => True

namespace MessageItem.ForallFields

variable {i : MessageItem} (h : i.ForallFields P)
include h

theorem fields : ∀ f ∈ i.fields, P f := by
  intro f hf
  cases i with
  | field g =>
    obtain rfl := List.mem_singleton.mp hf
    exact h
  | group g =>
    obtain rfl := List.mem_singleton.mp hf
    exact h.1
  | oneof o => exact h f hf
  | message | enum | extend | extensions | reserved | option | empty => cases hf

theorem message : ∀ m ∈ i.message?, m.Forall (MessageDecl.ForallFields P) := by
  intro m hm
  cases i with
  | group g =>
    obtain rfl := Option.some.inj hm
    exact h.2
  | message m' =>
    obtain rfl := Option.some.inj hm
    exact h
  | field | oneof | enum | extend | extensions | reserved | option | empty => cases hm

theorem extend : ∀ e ∈ i.extend?, ∀ f ∈ e.fields, P f := by
  intro e he
  cases i with
  | extend e' =>
    obtain rfl := Option.some.inj he
    exact h
  | field | group | oneof | message | enum | extensions | reserved | option | empty => cases he

end MessageItem.ForallFields

/-- The fields of a message are those of its items. -/
theorem MessageDecl.forallFields_ofItems {name : Ident} {items : List MessageItem}
    (h : ∀ i ∈ items, i.ForallFields P) :
    (MessageDecl.ofItems name items).Forall (MessageDecl.ForallFields P) := by
  rw [MessageDecl.ofItems, MessageDecl.Forall]
  refine ⟨⟨fun f hf => ?_, fun e he => ?_⟩, MessageDecl.forallIn_iff.mpr fun m hm => ?_⟩
  · obtain ⟨i, hi, hf⟩ := List.mem_flatMap.mp hf
    exact (h i hi).fields f hf
  · obtain ⟨i, hi, he⟩ := List.mem_filterMap.mp he
    exact (h i hi).extend e he
  · obtain ⟨i, hi, hm⟩ := List.mem_filterMap.mp hm
    exact (h i hi).message m hm

/-- The fields of a file are those of its items. -/
theorem SchemaFile.forallFields_ofItems {dialect : Dialect} {items : List TopItem} {f : SchemaFile}
    (hf : SchemaFile.ofItems dialect items = .ok f) (h : ∀ i ∈ items, i.ForallFields P) :
    f.ForallFields P := by
  unfold SchemaFile.ofItems at hf
  split at hf
  · cases hf
  · obtain rfl := Except.ok.inj hf
    refine ⟨MessageDecl.forallIn_iff.mpr fun m hm => ?_, fun e he => ?_⟩
    · obtain ⟨i, hi, hm⟩ := List.mem_filterMap.mp hm
      have hitem := h i hi
      cases i with
      | message m' =>
        obtain rfl := Option.some.inj hm
        exact hitem
      | dependency | package | option | enum | service | extend | empty => cases hm
    · obtain ⟨i, hi, he⟩ := List.mem_filterMap.mp he
      have hitem := h i hi
      cases i with
      | extend e' =>
        obtain rfl := Option.some.inj he
        exact hitem
      | dependency | package | option | message | enum | service | empty => cases he

end

/-! ## Words that name fields -/

/-- A field stands where one of some tokens names it. A group has the name of its message, in lower
case. -/
def FieldDecl.IsNamedIn (tokens : List Token) (f : FieldDecl) : Prop :=
  ∃ t ∈ tokens, t.position = f.position ∧
    match f.shape with
    | .group type => type = t.text ∧ f.name = t.text.toLower
    | .named .. | .map .. => f.name = t.text

/-- One of some tokens spells a name. -/
def Ident.IsIn (tokens : List Token) (i : Ident) : Prop :=
  ∃ t ∈ tokens, t.position = i.position ∧ i.text = t.text

section

variable {tokens : List Token}

theorem FieldDecl.isNamedIn_plain {label : Option Label} {type name : Ident} {number : Nat}
    {options : List OptionDecl} (h : name.IsIn tokens) :
    (FieldDecl.plain label type name number options).IsNamedIn tokens := h

theorem FieldDecl.isNamedIn_ofMap {key value name : Ident} {number : Nat}
    {options : List OptionDecl} (h : name.IsIn tokens) :
    (FieldDecl.ofMap key value name number options).IsNamedIn tokens := h

theorem GroupDecl.isNamedIn_ofItems {label : Label} {name : Ident} {number : Nat}
    {options : List OptionDecl} {items : List MessageItem} (h : name.IsIn tokens)
    (hitems : ∀ i ∈ items, i.ForallFields (FieldDecl.IsNamedIn tokens)) :
    (GroupDecl.ofItems label name number options items).ForallFields
      (FieldDecl.IsNamedIn tokens) := by
  obtain ⟨t, ht, hposition, htext⟩ := h
  exact ⟨⟨t, ht, hposition, htext, congrArg String.toLower htext⟩,
    MessageDecl.forallFields_ofItems hitems⟩

theorem OneofDecl.isNamedIn_ofFields {name : Ident} {fs : List FieldDecl}
    (h : ∀ f ∈ fs, f.IsNamedIn tokens) :
    (OneofDecl.ofFields name fs).ForallFields (FieldDecl.IsNamedIn tokens) := by
  intro f hf
  obtain ⟨g, hg, rfl⟩ := List.mem_map.mp hf
  exact h g hg

end

/-- The fields in whatever a nonterminal stands for are named in some tokens. -/
def Nonterminal.Names (tokens : List Token) : (n : Nonterminal) → n.Value → Prop
  | .name => Ident.IsIn tokens
  | .fieldDecl | .oneofField | .mapFieldDecl => FieldDecl.IsNamedIn tokens
  | .oneofItem | .oneofItems | .extendItem | .extendItems => fun fs => ∀ f ∈ fs, f.IsNamedIn tokens
  | .groupDecl => GroupDecl.ForallFields (FieldDecl.IsNamedIn tokens)
  | .oneofDecl => OneofDecl.ForallFields (FieldDecl.IsNamedIn tokens)
  | .extendDecl => fun e => ∀ f ∈ e.fields, f.IsNamedIn tokens
  | .messageDecl => fun m => m.Forall (MessageDecl.ForallFields (FieldDecl.IsNamedIn tokens))
  | .messageItem => MessageItem.ForallFields (FieldDecl.IsNamedIn tokens)
  | .messageItems => fun is => ∀ i ∈ is, i.ForallFields (FieldDecl.IsNamedIn tokens)
  | .topItem => TopItem.ForallFields (FieldDecl.IsNamedIn tokens)
  | .topItems => fun is => ∀ i ∈ is, i.ForallFields (FieldDecl.IsNamedIn tokens)
  | .schemaFile => SchemaFile.ForallFields (FieldDecl.IsNamedIn tokens)
  | _ => fun _ => True

/-- A rule names the fields that it makes. -/
abbrev Rule.Names (tokens : List Token) {n : Nonterminal} (r : Rule n) : Prop :=
  Action.Yields (fun _ t => t ∈ tokens) (Nonterminal.Names tokens) (n.Names tokens) r.symbols r.action

theorem Rule.names_of_mem {tokens : List Token} {n : Nonterminal} :
    ∀ r ∈ rules n, r.Names tokens := by
  cases n with
  | name =>
    refine List.forall_iff_forall_mem.mp fun t ht i hi => ?_
    obtain rfl := Except.ok.inj hi
    exact ⟨t, ht, rfl, rfl⟩
  | fieldDecl | oneofField | oneofItem | oneofItems | extendItem | extendItems
  | mapFieldDecl | groupDecl | oneofDecl | extendDecl | messageDecl =>
    simp +contextual [rules, Rule.Names, Action.Yields, Symbol.Satisfies, Nonterminal.Names,
      FieldDecl.isNamedIn_plain, FieldDecl.isNamedIn_ofMap, GroupDecl.isNamedIn_ofItems,
      OneofDecl.isNamedIn_ofFields, MessageDecl.forallFields_ofItems, or_imp, forall_and]
  | messageItem | messageItems =>
    simp +contextual [rules, Rule.Names, Action.Yields, Symbol.Satisfies, Nonterminal.Names,
      MessageItem.ForallFields, or_imp, forall_and]
  | topItem | topItems =>
    simp +contextual [rules, Rule.Names, Action.Yields, Symbol.Satisfies, Nonterminal.Names,
      TopItem.ForallFields, or_imp, forall_and]
  | schemaFile =>
    refine List.forall_iff_forall_mem.mp ⟨?_, ?_, ?_, ?_⟩
    · exact fun d _ items hitems f hf => SchemaFile.forallFields_ofItems hf hitems
    · exact fun d _ f hf => SchemaFile.forallFields_ofItems hf (List.forall_mem_nil _)
    · exact fun items hitems f hf => SchemaFile.forallFields_ofItems hf hitems
    · exact fun f hf => SchemaFile.forallFields_ofItems hf (List.forall_mem_nil _)
  -- no other part of a file has fields
  | _ => exact fun r _ => Action.yields_of_all (fun _ => trivial) r.symbols r.action

/-- Every field of a file is named by one of its tokens. -/
theorem Tree.forallFields_isNamedIn {tree : Tree (.nonterminal .schemaFile)} {f : SchemaFile}
    (h : tree.value = .ok f) : f.ForallFields (FieldDecl.IsNamedIn tree.tokens) :=
  Tree.satisfies_value (fun _ => Rule.names_of_mem _ (List.getElem_mem _)) tree (fun _ ht => ht) f h

/-- What a problem of a field calls the field. -/
def SourceProblem.fieldName? : SourceProblem → Option String
  | badMapKey field _ | missingLabel field | requiredField field => some field
  | groupField group => some group
  | _ => none

/-- A fault of a field at the token that names it; a group may be named in lower case. -/
def Fault.IsOfField (tokens : List Token) (fault : Fault) : Prop :=
  ∃ t ∈ tokens, t.position = fault.position ∧
    (fault.problem.fieldName? = some t.text ∨ fault.problem.fieldName? = some t.text.toLower)

theorem FieldDecl.name_eq_of_isNamedIn {f : FieldDecl} {t : Token}
    (h : match f.shape with
      | .group type => type = t.text ∧ f.name = t.text.toLower
      | .named .. | .map .. => f.name = t.text) : f.name = t.text ∨ f.name = t.text.toLower := by
  split at h
  · exact .inr h.2
  · exact .inl h
  · exact .inl h

/-- The fault of a field lies where the field is named. -/
theorem FieldDecl.isOfField_of_fault? {tokens : List Token} {dialect : Dialect} {f : FieldDecl}
    {fault : Fault} (hf : f.IsNamedIn tokens) (h : f.fault? dialect = some fault) :
    fault.IsOfField tokens := by
  obtain ⟨p, hp, rfl⟩ := Option.map_eq_some_iff.mp h
  obtain ⟨t, ht, hposition, hname⟩ := hf
  refine ⟨t, ht, hposition, ?_⟩
  have hfield := FieldDecl.name_eq_of_isNamedIn hname
  revert hp
  fun_cases problem? dialect f with
  | case2 key | case4 | case6 =>
    rintro ⟨⟩
    simpa only [SourceProblem.fieldName?, Option.some.injEq] using hfield
  | case7 _ _ type hshape =>
    rintro ⟨⟩
    rw [hshape] at hname
    exact .inl (congrArg some hname.1)
  | _ => exact nofun

/-- The fault of a file lies where the field is named that breaks a rule. -/
theorem Tree.isOfField_of_fault? {tree : Tree (.nonterminal .schemaFile)} {f : SchemaFile}
    {fault : Fault} (hf : tree.value = .ok f) (h : f.fault? = some fault) :
    fault.IsOfField tree.tokens := by
  obtain ⟨x, hx, hfault⟩ := SchemaFile.exists_of_fault? h (forallFields_isNamedIn hf)
  exact FieldDecl.isOfField_of_fault? hx hfault

/-!
## Fields in the two dialects

In the older dialect every field has a label, other than maps and the members of oneofs; in the newer
one no field is required and none is a group. The rules that a file is held to
(`FieldDecl.problem?`) pass over the members of oneofs, but the grammar gives these neither a label
nor the body of a group (`FieldDecl.Bare`). So all fields of a file keep to its dialect
(`SchemaFile.keepsTo_of_parse`).
-/

/-- A field has what its dialect asks for. -/
structure FieldDecl.KeepsTo (dialect : Dialect) (f : FieldDecl) : Prop where
  labelled : dialect = .proto2 → f.isMap = false → f.oneof = none → f.label.isSome
  optional : dialect = .proto3 → f.label ≠ some .required
  plain : dialect = .proto3 → f.isGroup = false

/-! ### What the grammar gives to fields -/

/-- A field without a label that is no group. -/
def FieldDecl.Bare (f : FieldDecl) : Prop := f.label = none ∧ f.isGroup = false

/-- Maps and the members of oneofs are bare. -/
def FieldDecl.BareInside (f : FieldDecl) : Prop := f.isMap ∨ f.oneof.isSome → f.Bare

theorem FieldDecl.bareInside_plain (label : Option Label) (type name : Ident) (number : Nat)
    (options : List OptionDecl) : (FieldDecl.plain label type name number options).BareInside :=
  fun h => absurd h (by simp [plain, isMap])

theorem FieldDecl.bareInside_ofMap (key value name : Ident) (number : Nat)
    (options : List OptionDecl) : (FieldDecl.ofMap key value name number options).BareInside :=
  fun _ => ⟨rfl, rfl⟩

theorem FieldDecl.bare_plain (type name : Ident) (number : Nat) (options : List OptionDecl) :
    (FieldDecl.plain none type name number options).Bare := ⟨rfl, rfl⟩

theorem GroupDecl.bareInside_ofItems {label : Label} {name : Ident} {number : Nat}
    {options : List OptionDecl} {items : List MessageItem}
    (h : ∀ i ∈ items, i.ForallFields FieldDecl.BareInside) :
    (GroupDecl.ofItems label name number options items).ForallFields FieldDecl.BareInside :=
  ⟨fun h => absurd h (by simp [ofItems, FieldDecl.isMap]), MessageDecl.forallFields_ofItems h⟩

theorem OneofDecl.bareInside_ofFields {name : Ident} {fs : List FieldDecl}
    (h : ∀ f ∈ fs, f.Bare) : (OneofDecl.ofFields name fs).ForallFields FieldDecl.BareInside := by
  intro f hf _
  obtain ⟨g, hg, rfl⟩ := List.mem_map.mp hf
  exact h g hg

/-- The fields in whatever a nonterminal stands for are bare where they have to be. -/
def Nonterminal.Bares : (n : Nonterminal) → n.Value → Prop
  | .oneofField => FieldDecl.Bare
  | .oneofItem | .oneofItems => fun fs => ∀ f ∈ fs, f.Bare
  | .fieldDecl | .mapFieldDecl => FieldDecl.BareInside
  | .extendItem | .extendItems => fun fs => ∀ f ∈ fs, f.BareInside
  | .groupDecl => GroupDecl.ForallFields FieldDecl.BareInside
  | .oneofDecl => OneofDecl.ForallFields FieldDecl.BareInside
  | .extendDecl => fun e => ∀ f ∈ e.fields, f.BareInside
  | .messageDecl => fun m => m.Forall (MessageDecl.ForallFields FieldDecl.BareInside)
  | .messageItem => MessageItem.ForallFields FieldDecl.BareInside
  | .messageItems => fun is => ∀ i ∈ is, i.ForallFields FieldDecl.BareInside
  | .topItem => TopItem.ForallFields FieldDecl.BareInside
  | .topItems => fun is => ∀ i ∈ is, i.ForallFields FieldDecl.BareInside
  | .schemaFile => SchemaFile.ForallFields FieldDecl.BareInside
  | _ => fun _ => True

/-- A rule leaves the fields bare that have to be. -/
abbrev Rule.Bares {n : Nonterminal} (r : Rule n) : Prop :=
  Action.Yields (fun _ _ => True) Nonterminal.Bares n.Bares r.symbols r.action

theorem Rule.bares_of_mem {n : Nonterminal} : ∀ r ∈ rules n, r.Bares := by
  cases n with
  | fieldDecl | mapFieldDecl | oneofField | oneofItem | oneofItems | extendItem | extendItems
  | groupDecl | oneofDecl | extendDecl | messageDecl =>
    simp +contextual [rules, Rule.Bares, Action.Yields, Symbol.Satisfies, Nonterminal.Bares,
      FieldDecl.bareInside_plain, FieldDecl.bareInside_ofMap, FieldDecl.bare_plain,
      GroupDecl.bareInside_ofItems, OneofDecl.bareInside_ofFields,
      MessageDecl.forallFields_ofItems, or_imp, forall_and]
  | messageItem | messageItems =>
    simp +contextual [rules, Rule.Bares, Action.Yields, Symbol.Satisfies, Nonterminal.Bares,
      MessageItem.ForallFields, or_imp, forall_and]
  | topItem | topItems =>
    simp +contextual [rules, Rule.Bares, Action.Yields, Symbol.Satisfies, Nonterminal.Bares,
      TopItem.ForallFields, or_imp, forall_and]
  | schemaFile =>
    refine List.forall_iff_forall_mem.mp ⟨?_, ?_, ?_, ?_⟩
    · exact fun d _ items hitems f hf => SchemaFile.forallFields_ofItems hf hitems
    · exact fun d _ f hf => SchemaFile.forallFields_ofItems hf (List.forall_mem_nil _)
    · exact fun items hitems f hf => SchemaFile.forallFields_ofItems hf hitems
    · exact fun f hf => SchemaFile.forallFields_ofItems hf (List.forall_mem_nil _)
  -- no other part of a file has fields
  | _ => exact fun r _ => Action.yields_of_all (fun _ => trivial) r.symbols r.action

theorem SchemaFile.bareInside_of_parse {name : Text} {text : List Char} {f : SchemaFile}
    (h : SchemaFile.parse name text = .ok f) : f.ForallFields FieldDecl.BareInside := by
  obtain ⟨tree, file, -, hvalue, rfl⟩ := exists_tree_of_parse h
  exact Tree.satisfies_value (fun _ => Rule.bares_of_mem _ (List.getElem_mem _)) tree
    (fun _ _ => trivial) file hvalue

/-! ### What the dialects ask for -/

/-- A field that breaks no rule of its dialect, and is bare where it has to be, keeps to the
dialect. -/
theorem FieldDecl.keepsTo_of_problem? {dialect : Dialect} {f : FieldDecl}
    (hproblem : f.problem? dialect = none) (hbare : f.BareInside) : f.KeepsTo dialect := by
  by_cases hinside : f.isMap ∨ f.oneof.isSome
  · obtain ⟨hlabel, hgroup⟩ := hbare hinside
    refine ⟨fun _ hmap honeof => ?_, fun _ => by simp [hlabel], fun _ => hgroup⟩
    simp [hmap, honeof] at hinside
  · obtain ⟨hmap, honeof⟩ := not_or.mp hinside
    unfold problem? at hproblem
    split at hproblem
    · next hshape => simp [isMap, hshape] at hmap
    · rw [if_neg honeof] at hproblem
      cases dialect with
      | proto2 =>
        have hlabel : f.label ≠ none := by simpa using hproblem
        exact ⟨fun _ _ _ => Option.isSome_iff_ne_none.mpr hlabel, nofun, nofun⟩
      | proto3 =>
        have hlabel : f.label ≠ some .required := by
          intro hlabel
          simp [hlabel] at hproblem
        refine ⟨nofun, fun _ => hlabel, fun _ => ?_⟩
        simp only [if_neg hlabel] at hproblem
        unfold isGroup
        split
        · next hshape => simp [hshape] at hproblem
        · rfl

mutual

/-- Two properties that all messages have, at every depth, they have together. -/
theorem MessageDecl.Forall.and {P Q : MessageDecl → Prop} :
    (m : MessageDecl) → m.Forall P → m.Forall Q → m.Forall fun m => P m ∧ Q m
  | ⟨_, _, messages, _, _, _, _, _, _, _, _⟩, hP, hQ => by
    rw [MessageDecl.Forall] at hP hQ ⊢
    exact ⟨⟨hP.1, hQ.1⟩, MessageDecl.ForallIn.and messages hP.2 hQ.2⟩

theorem MessageDecl.ForallIn.and {P Q : MessageDecl → Prop} :
    (ms : List MessageDecl) → MessageDecl.ForallIn P ms → MessageDecl.ForallIn Q ms →
      MessageDecl.ForallIn (fun m => P m ∧ Q m) ms
  | [], _, _ => by
    rw [MessageDecl.ForallIn]
    trivial
  | m :: ms, hP, hQ => by
    rw [MessageDecl.ForallIn] at hP hQ ⊢
    exact ⟨MessageDecl.Forall.and m hP.1 hQ.1, MessageDecl.ForallIn.and ms hP.2 hQ.2⟩

end

/-- The fields of a file that was read keep to its dialect, at any depth. -/
theorem SchemaFile.keepsTo_of_parse {name : Text} {text : List Char} {f : SchemaFile}
    (h : SchemaFile.parse name text = .ok f) : f.ForallFields (FieldDecl.KeepsTo f.dialect) := by
  have hproblem := problem?_of_parse h
  have hbare := bareInside_of_parse h
  refine ⟨?_, fun e he x hx =>
    FieldDecl.keepsTo_of_problem? (hproblem.2 e he x hx) (hbare.2 e he x hx)⟩
  refine MessageDecl.ForallIn.imp (fun m hm => ?_) f.messages
    (MessageDecl.ForallIn.and f.messages hproblem.1 hbare.1)
  obtain ⟨⟨hfields, hextends⟩, ⟨hfields', hextends'⟩⟩ := hm
  exact ⟨fun x hx => FieldDecl.keepsTo_of_problem? (hfields x hx) (hfields' x hx),
    fun e he x hx => FieldDecl.keepsTo_of_problem? (hextends e he x hx) (hextends' e he x hx)⟩

end ProtoSchema
