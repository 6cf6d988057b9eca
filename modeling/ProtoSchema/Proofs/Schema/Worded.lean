import ProtoSchema.Proofs.Name.Words
import ProtoSchema.Proofs.Schema.Parsed

/-!
# Names of parsed files

Whatever a text names is named by a word, and whatever it refers to is referred to by words with
points between them, behind one point at most. Each rule of the grammar keeps this
(`Rule.spells_of_mem`), and so it holds of the file that a text stands for
(`SchemaFile.worded_of_parse`).
-/

namespace ProtoSchema

open Dotted

/-! ## Declarations -/

/-- The types that a field refers to are written as references. -/
def FieldShape.Worded : FieldShape → Prop
  | .named type _ => IsReference type
  | .group type => IsWord type
  | .map key value _ => IsReference key ∧ IsReference value

/-- A field is named by a word, as is the oneof that it is in, and refers to types. -/
structure FieldDecl.Worded (f : FieldDecl) : Prop where
  name : IsWord f.name
  shape : f.shape.Worded
  oneof : ∀ o ∈ f.oneof, IsWord o

/-- An enum and its values are named by words. -/
structure EnumDecl.Worded (e : EnumDecl) : Prop where
  name : IsWord e.name
  values : ∀ v ∈ e.values, IsWord v.name

/-- A service and its methods are named by words. -/
structure ServiceDecl.Worded (s : ServiceDecl) : Prop where
  name : IsWord s.name
  methods : ∀ m ∈ s.methods, IsWord m.name

/-- Extensions are named by words. -/
def ExtendDecl.Worded (e : ExtendDecl) : Prop := ∀ f ∈ e.fields, f.Worded

/-- A message is named by a word, and so is what it declares itself. -/
structure MessageDecl.Worded (m : MessageDecl) : Prop where
  name : IsWord m.name
  fields : ∀ f ∈ m.fields, f.Worded
  enums : ∀ e ∈ m.enums, e.Worded
  extendBlocks : ∀ e ∈ m.extendBlocks, e.Worded

/-- All that a file declares is named by words. -/
structure SchemaFile.Worded (f : SchemaFile) : Prop where
  package : ∀ p ∈ f.package, IsReference p
  messages : MessageDecl.ForallIn MessageDecl.Worded f.messages
  enums : ∀ e ∈ f.enums, e.Worded
  extendBlocks : ∀ e ∈ f.extendBlocks, e.Worded
  services : ∀ s ∈ f.services, s.Worded

/-! ## Items -/

/-- A group is named by a word, and so is what it declares. -/
structure GroupDecl.Worded (g : GroupDecl) : Prop where
  field : g.field.Worded
  body : g.body.Forall MessageDecl.Worded

/-- The members of a oneof are named by words. -/
def OneofDecl.Worded (o : OneofDecl) : Prop := ∀ f ∈ o.fields, f.Worded

/-- What an item of a message declares is named by words. -/
def MessageItem.Worded : MessageItem → Prop
  | .field f => f.Worded
  | .group g => g.Worded
  | .oneof o => o.Worded
  | .message m => m.Forall MessageDecl.Worded
  | .enum e => e.Worded
  | .extend e => e.Worded
  | .extensions _ | .reserved _ | .option _ | .empty => True

/-- What an item of an enum declares is named by a word. -/
def EnumItem.Worded : EnumItem → Prop
  | .value v => IsWord v.name
  | .option _ | .reserved _ | .empty => True

/-- What an item of a service declares is named by a word. -/
def ServiceItem.Worded : ServiceItem → Prop
  | .method m => IsWord m.name
  | .option _ | .empty => True

/-- What an item of a file declares is named by words. -/
def TopItem.Worded : TopItem → Prop
  | .package p => IsReference p.text
  | .message m => m.Forall MessageDecl.Worded
  | .enum e => e.Worded
  | .service s => s.Worded
  | .extend e => e.Worded
  | .dependency _ | .option _ | .empty => True

namespace MessageItem.Worded

variable {i : MessageItem} (h : i.Worded)
include h

theorem fields : ∀ f ∈ i.fields, f.Worded := by
  intro f hf
  cases i with
  | field g =>
    obtain rfl := List.mem_singleton.mp hf
    exact h
  | group g =>
    obtain rfl := List.mem_singleton.mp hf
    exact h.field
  | oneof o => exact h f hf
  | message | enum | extend | extensions | reserved | option | empty => cases hf

theorem message : ∀ m ∈ i.message?, m.Forall MessageDecl.Worded := by
  intro m hm
  cases i with
  | group g =>
    obtain rfl := Option.some.inj hm
    exact h.body
  | message m' =>
    obtain rfl := Option.some.inj hm
    exact h
  | field | oneof | enum | extend | extensions | reserved | option | empty => cases hm

theorem enum : ∀ e ∈ i.enum?, e.Worded := by
  intro e he
  cases i with
  | enum e' =>
    obtain rfl := Option.some.inj he
    exact h
  | field | group | oneof | message | extend | extensions | reserved | option | empty => cases he

theorem extend : ∀ e ∈ i.extend?, e.Worded := by
  intro e he
  cases i with
  | extend e' =>
    obtain rfl := Option.some.inj he
    exact h
  | field | group | oneof | message | enum | extensions | reserved | option | empty => cases he

end MessageItem.Worded

theorem EnumItem.Worded.value {i : EnumItem} (h : i.Worded) : ∀ v ∈ i.value?, IsWord v.name := by
  intro v hv
  cases i with
  | value v' =>
    obtain rfl := Option.some.inj hv
    exact h
  | option | reserved | empty => cases hv

theorem ServiceItem.Worded.method {i : ServiceItem} (h : i.Worded) :
    ∀ m ∈ i.method?, IsWord m.name := by
  intro m hm
  cases i with
  | method m' =>
    obtain rfl := Option.some.inj hm
    exact h
  | option | empty => cases hm

namespace TopItem.Worded

variable {i : TopItem} (h : i.Worded)
include h

theorem package : ∀ p ∈ i.package?, IsReference p.text := by
  intro p hp
  cases i with
  | package p' =>
    obtain rfl := Option.some.inj hp
    exact h
  | dependency | option | message | enum | service | extend | empty => cases hp

theorem message : ∀ m ∈ i.message?, m.Forall MessageDecl.Worded := by
  intro m hm
  cases i with
  | message m' =>
    obtain rfl := Option.some.inj hm
    exact h
  | dependency | package | option | enum | service | extend | empty => cases hm

theorem enum : ∀ e ∈ i.enum?, e.Worded := by
  intro e he
  cases i with
  | enum e' =>
    obtain rfl := Option.some.inj he
    exact h
  | dependency | package | option | message | service | extend | empty => cases he

theorem service : ∀ s ∈ i.service?, s.Worded := by
  intro s hs
  cases i with
  | service s' =>
    obtain rfl := Option.some.inj hs
    exact h
  | dependency | package | option | message | enum | extend | empty => cases hs

theorem extend : ∀ e ∈ i.extend?, e.Worded := by
  intro e he
  cases i with
  | extend e' =>
    obtain rfl := Option.some.inj he
    exact h
  | dependency | package | option | message | enum | service | empty => cases he

end TopItem.Worded

/-! ## Assembly -/

theorem Token.isWord_ident {t : Token} (h : t.lexeme ∈ Lexeme.names) : IsWord t.ident.text := by
  change t.ident.text.toList ∈ Lexeme.names
  rwa [Token.ident, Token.text, String.toList_ofList]

theorem Token.isWord_ident_of_keyword {t : Token} {k : Keyword}
    (h : t.lexeme ∈ (Terminal.keyword k).language) : IsWord t.ident.text :=
  t.isWord_ident (Set.mem_singleton_iff.mp h ▸ k.spelling_mem_names)

theorem Ident.isPath_join {i : Ident} {is : List Ident} (h : IsWord i.text)
    (hs : ∀ j ∈ is, IsWord j.text) : IsPath (Ident.join i is).text := by
  refine ⟨(i :: is).map Ident.text, by simp, ?_, rfl⟩
  simpa using ⟨h, hs⟩

theorem Ident.isReference_join {i : Ident} {is : List Ident} (h : IsWord i.text)
    (hs : ∀ j ∈ is, IsWord j.text) : IsReference (Ident.join i is).text :=
  .inl (isPath_join h hs)

theorem Ident.isReference_absolute {i : Ident} (h : IsPath i.text) : IsReference i.absolute.text :=
  .inr ⟨i.text, h, rfl⟩

theorem Ident.isReference_absolute_join {i : Ident} {is : List Ident} (h : IsWord i.text)
    (hs : ∀ j ∈ is, IsWord j.text) : IsReference (Ident.join i is).absolute.text :=
  isReference_absolute (isPath_join h hs)

theorem Dotted.IsWord.isReference {name : String} (h : IsWord name) : IsReference name :=
  .inl h.isPath

theorem FieldDecl.worded_plain {label : Option Label} {type name : Ident} {number : Nat}
    {options : List OptionDecl} (htype : IsReference type.text) (hname : IsWord name.text) :
    (FieldDecl.plain label type name number options).Worded :=
  ⟨hname, htype, nofun⟩

theorem FieldDecl.worded_ofMap {key value name : Ident} {number : Nat} {options : List OptionDecl}
    (hkey : IsReference key.text) (hvalue : IsReference value.text) (hname : IsWord name.text) :
    (FieldDecl.ofMap key value name number options).Worded :=
  ⟨hname, ⟨hkey, hvalue⟩, nofun⟩

theorem OneofDecl.worded_ofFields {name : Ident} {fs : List FieldDecl} (hname : IsWord name.text)
    (h : ∀ f ∈ fs, f.Worded) : (OneofDecl.ofFields name fs).Worded := by
  intro f hf
  obtain ⟨g, hg, rfl⟩ := List.mem_map.mp hf
  exact ⟨(h g hg).name, (h g hg).shape, by simpa using hname⟩

theorem MessageDecl.worded_ofItems {name : Ident} {items : List MessageItem}
    (hname : IsWord name.text) (hitems : ∀ i ∈ items, i.Worded) :
    (MessageDecl.ofItems name items).Forall MessageDecl.Worded := by
  rw [MessageDecl.ofItems, MessageDecl.Forall]
  refine ⟨⟨hname, ?_, ?_, ?_⟩, MessageDecl.forallIn_iff.mpr ?_⟩
  · intro f hf
    obtain ⟨i, hi, hf⟩ := List.mem_flatMap.mp hf
    exact (hitems i hi).fields f hf
  · intro e he
    obtain ⟨i, hi, he⟩ := List.mem_filterMap.mp he
    exact (hitems i hi).enum e he
  · intro e he
    obtain ⟨i, hi, he⟩ := List.mem_filterMap.mp he
    exact (hitems i hi).extend e he
  · intro m hm
    obtain ⟨i, hi, hm⟩ := List.mem_filterMap.mp hm
    exact (hitems i hi).message m hm

theorem GroupDecl.worded_ofItems {label : Label} {name : Ident} {number : Nat}
    {options : List OptionDecl} {items : List MessageItem} (hname : IsWord name.text)
    (hitems : ∀ i ∈ items, i.Worded) :
    (GroupDecl.ofItems label name number options items).Worded :=
  ⟨⟨hname.toLower, hname, nofun⟩, MessageDecl.worded_ofItems hname hitems⟩

theorem EnumDecl.worded_ofItems {name : Ident} {items : List EnumItem} (hname : IsWord name.text)
    (hitems : ∀ i ∈ items, i.Worded) : (EnumDecl.ofItems name items).Worded := by
  refine ⟨hname, fun v hv => ?_⟩
  obtain ⟨i, hi, hv⟩ := List.mem_filterMap.mp hv
  exact (hitems i hi).value v hv

theorem ServiceDecl.worded_ofItems {name : Ident} {items : List ServiceItem}
    (hname : IsWord name.text) (hitems : ∀ i ∈ items, i.Worded) :
    (ServiceDecl.ofItems name items).Worded := by
  refine ⟨hname, fun m hm => ?_⟩
  obtain ⟨i, hi, hm⟩ := List.mem_filterMap.mp hm
  exact (hitems i hi).method m hm

theorem SchemaFile.worded_ofItems {dialect : Dialect} {items : List TopItem} {f : SchemaFile}
    (hitems : ∀ i ∈ items, i.Worded) (h : SchemaFile.ofItems dialect items = .ok f) :
    f.Worded := by
  unfold SchemaFile.ofItems at h
  split at h
  · cases h
  · obtain rfl := Except.ok.inj h
    refine ⟨fun p hp => ?_, MessageDecl.forallIn_iff.mpr fun m hm => ?_, fun e he => ?_,
      fun e he => ?_, fun s hs => ?_⟩
    · obtain ⟨i, hi, rfl⟩ := Option.map_eq_some_iff.mp hp
      obtain ⟨item, hitem, hi⟩ := List.mem_filterMap.mp (List.mem_of_mem_head? hi)
      exact (hitems item hitem).package i hi
    · obtain ⟨i, hi, hm⟩ := List.mem_filterMap.mp hm
      exact (hitems i hi).message m hm
    · obtain ⟨i, hi, he⟩ := List.mem_filterMap.mp he
      exact (hitems i hi).enum e he
    · obtain ⟨i, hi, he⟩ := List.mem_filterMap.mp he
      exact (hitems i hi).extend e he
    · obtain ⟨i, hi, hs⟩ := List.mem_filterMap.mp hs
      exact (hitems i hi).service s hs

/-! ## Rules -/

/-- Whatever a nonterminal stands for is named by words. -/
def Nonterminal.Words : (n : Nonterminal) → n.Value → Prop
  | .name | .enumValueName => fun i => IsWord i.text
  | .moreNames => fun is => ∀ i ∈ is, IsWord i.text
  | .fullIdent | .packageStmt => fun i => IsReference i.text
  | .fieldDecl | .oneofField | .mapFieldDecl => FieldDecl.Worded
  | .oneofItem | .oneofItems | .extendItem | .extendItems => fun fs => ∀ f ∈ fs, f.Worded
  | .oneofDecl => OneofDecl.Worded
  | .extendDecl => ExtendDecl.Worded
  | .groupDecl => GroupDecl.Worded
  | .enumValue => fun v => IsWord v.name
  | .enumItem => EnumItem.Worded
  | .enumItems => fun is => ∀ i ∈ is, i.Worded
  | .enumDecl => EnumDecl.Worded
  | .rpcDecl => fun m => IsWord m.name
  | .serviceItem => ServiceItem.Worded
  | .serviceItems => fun is => ∀ i ∈ is, i.Worded
  | .serviceDecl => ServiceDecl.Worded
  | .messageDecl => fun m => m.Forall MessageDecl.Worded
  | .messageItem => MessageItem.Worded
  | .messageItems => fun is => ∀ i ∈ is, i.Worded
  | .topItem => TopItem.Worded
  | .topItems => fun is => ∀ i ∈ is, i.Worded
  | .schemaFile => SchemaFile.Worded
  | _ => fun _ => True

/-- A rule makes names of words. -/
abbrev Rule.Spells {n : Nonterminal} (r : Rule n) : Prop :=
  Action.Yields (fun k t => t.lexeme ∈ k.language) Nonterminal.Words n.Words r.symbols r.action

theorem Rule.spells_of_mem {n : Nonterminal} : ∀ r ∈ rules n, r.Spells := by
  cases n with
  | name =>
    refine List.forall_iff_forall_mem.mp fun t ht i hi => ?_
    obtain rfl := Except.ok.inj hi
    exact t.isWord_ident ht
  | enumValueName =>
    refine List.forall_iff_forall_mem.mp ⟨?_, ?_, ?_⟩ <;> intro t ht i hi <;>
      obtain rfl := Except.ok.inj hi
    · exact t.isWord_ident ht
    · exact Token.isWord_ident_of_keyword ht
    · exact Token.isWord_ident_of_keyword ht
  | moreNames | packageStmt | fullIdent =>
    simp +contextual [rules, Rule.Spells, Action.Yields, Symbol.Satisfies, Nonterminal.Words,
      Ident.isReference_join, Ident.isReference_absolute_join, Ident.isReference_absolute,
      IsWord.isPath, IsWord.isReference, or_imp, forall_and]
  | fieldDecl | oneofField | oneofItem | oneofItems | mapFieldDecl | groupDecl | oneofDecl
  | messageDecl | enumDecl | serviceDecl =>
    simp +contextual [rules, Rule.Spells, Action.Yields, Symbol.Satisfies, Nonterminal.Words,
      FieldDecl.worded_plain, FieldDecl.worded_ofMap, GroupDecl.worded_ofItems,
      OneofDecl.worded_ofFields, MessageDecl.worded_ofItems, EnumDecl.worded_ofItems,
      ServiceDecl.worded_ofItems, or_imp, forall_and]
  | extendItem | extendItems | extendDecl =>
    simp +contextual [rules, Rule.Spells, Action.Yields, Symbol.Satisfies, Nonterminal.Words,
      ExtendDecl.Worded, or_imp, forall_and]
  | enumValue | enumItem | enumItems =>
    simp +contextual [rules, Rule.Spells, Action.Yields, Symbol.Satisfies, Nonterminal.Words,
      EnumValueDecl.ofIdent, EnumItem.Worded, or_imp, forall_and]
  | rpcDecl | serviceItem | serviceItems =>
    simp +contextual [rules, Rule.Spells, Action.Yields, Symbol.Satisfies, Nonterminal.Words,
      MethodDecl.ofEnds, ServiceItem.Worded, or_imp, forall_and]
  | messageItem | messageItems =>
    simp +contextual [rules, Rule.Spells, Action.Yields, Symbol.Satisfies, Nonterminal.Words,
      MessageItem.Worded, or_imp, forall_and]
  | topItem | topItems =>
    simp +contextual [rules, Rule.Spells, Action.Yields, Symbol.Satisfies, Nonterminal.Words,
      TopItem.Worded, or_imp, forall_and]
  | schemaFile =>
    intro r hr
    simp only [rules, List.mem_cons, List.not_mem_nil, or_false] at hr
    rcases hr with rfl | rfl | rfl | rfl
    · exact fun d _ items hitems f hf => SchemaFile.worded_ofItems hitems hf
    · exact fun d _ f hf => SchemaFile.worded_ofItems (List.forall_mem_nil _) hf
    · exact fun items hitems f hf => SchemaFile.worded_ofItems hitems hf
    · exact fun f hf => SchemaFile.worded_ofItems (List.forall_mem_nil _) hf
  | _ => exact fun r _ => Action.yields_of_all (fun _ => trivial) r.symbols r.action

/-- All that a text declares is named by words. -/
theorem SchemaFile.worded_of_parse {name : Text} {text : List Char} {f : SchemaFile}
    (h : SchemaFile.parse name text = .ok f) : f.Worded := by
  obtain ⟨tree, file, htree, hvalue, rfl⟩ := exists_tree_of_parse h
  have hfile : file.Worded :=
    Tree.satisfies_value (fun r => Rule.spells_of_mem _ (List.getElem_mem _)) tree
      (layout_of_derive htree).mem_language file hvalue
  exact ⟨hfile.package, hfile.messages, hfile.enums, hfile.extendBlocks, hfile.services⟩

end ProtoSchema
