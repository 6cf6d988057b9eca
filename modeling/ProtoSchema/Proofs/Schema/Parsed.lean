import ProtoSchema.Proofs.Grammar.Derivation
import ProtoSchema.Schema.Basic
import ProtoSchema.Schema.Parse

/-!
# Parsed files are grammatical

Each rule of the grammar keeps what the grammar promises of the parts of a file
(`Nonterminal.Promise`), so that whatever file a text stands for is grammatical
(`SchemaFile.grammatical_of_parse`).
-/

namespace ProtoSchema

/-!
## What the grammar promises

A schema file that comes from a text is more than any tree of declarations: its messages have names,
its maps have no labels and are in no oneof, and it has no extensions that are maps. This is stated
here for trees as they are, and holds of every text that can be read.
-/

/-! ### Messages at any depth -/

mutual

/-- `P` holds of a message and of all messages nested in it. -/
def MessageDecl.Forall (P : MessageDecl → Prop) : MessageDecl → Prop
  | ⟨name, fields, messages, enums, extendBlocks, oneofs, options, extensionRanges,
      reservedRanges, reservedNames, position⟩ =>
    P ⟨name, fields, messages, enums, extendBlocks, oneofs, options, extensionRanges,
      reservedRanges, reservedNames, position⟩ ∧ MessageDecl.ForallIn P messages

/-- `P` holds of some messages and of all messages nested in them. -/
def MessageDecl.ForallIn (P : MessageDecl → Prop) : List MessageDecl → Prop
  | [] => True
  | m :: ms => m.Forall P ∧ MessageDecl.ForallIn P ms

end

mutual

theorem MessageDecl.Forall.imp {P Q : MessageDecl → Prop} (h : ∀ m, P m → Q m) :
    (m : MessageDecl) → m.Forall P → m.Forall Q
  | ⟨_, _, messages, _, _, _, _, _, _, _, _⟩, hm => by
    rw [MessageDecl.Forall] at hm ⊢
    exact ⟨h _ hm.1, MessageDecl.ForallIn.imp h messages hm.2⟩

theorem MessageDecl.ForallIn.imp {P Q : MessageDecl → Prop} (h : ∀ m, P m → Q m) :
    (ms : List MessageDecl) → MessageDecl.ForallIn P ms → MessageDecl.ForallIn Q ms
  | [], _ => by
    rw [MessageDecl.ForallIn]
    trivial
  | m :: ms, hms => by
    rw [MessageDecl.ForallIn] at hms ⊢
    exact ⟨MessageDecl.Forall.imp h m hms.1, MessageDecl.ForallIn.imp h ms hms.2⟩

end

mutual

theorem MessageDecl.forall_of_all {P : MessageDecl → Prop} (h : ∀ m, P m) :
    (m : MessageDecl) → m.Forall P
  | ⟨_, _, messages, _, _, _, _, _, _, _, _⟩ => by
    rw [MessageDecl.Forall]
    exact ⟨h _, MessageDecl.forallIn_of_all h messages⟩

theorem MessageDecl.forallIn_of_all {P : MessageDecl → Prop} (h : ∀ m, P m) :
    (ms : List MessageDecl) → MessageDecl.ForallIn P ms
  | [] => by
    rw [MessageDecl.ForallIn]
    trivial
  | m :: ms => by
    rw [MessageDecl.ForallIn]
    exact ⟨MessageDecl.forall_of_all h m, MessageDecl.forallIn_of_all h ms⟩

end

mutual

/-- Whether `P` holds at every depth can be decided where `P` can. -/
instance MessageDecl.decidableForall {P : MessageDecl → Prop} [DecidablePred P] :
    (m : MessageDecl) → Decidable (m.Forall P)
  | ⟨_, _, messages, _, _, _, _, _, _, _, _⟩ =>
    haveI := MessageDecl.decidableForallIn (P := P) messages
    decidable_of_iff (P _ ∧ MessageDecl.ForallIn P messages) (by rw [MessageDecl.Forall])

@[inherit_doc MessageDecl.decidableForall]
instance MessageDecl.decidableForallIn {P : MessageDecl → Prop} [DecidablePred P] :
    (ms : List MessageDecl) → Decidable (MessageDecl.ForallIn P ms)
  | [] => .isTrue (by rw [MessageDecl.ForallIn]; trivial)
  | m :: ms =>
    haveI := MessageDecl.decidableForall (P := P) m
    haveI := MessageDecl.decidableForallIn (P := P) ms
    decidable_of_iff (m.Forall P ∧ MessageDecl.ForallIn P ms) (by rw [MessageDecl.ForallIn])

end

/-! ### Grammatical files -/

/-- Whether a field is a map. -/
def FieldDecl.isMap (f : FieldDecl) : Bool :=
  match f.shape with
  | .map .. => true
  | .named .. | .group _ => false

/-- What the grammar promises of a message, apart from the messages nested in it. -/
structure MessageDecl.Grammatical (m : MessageDecl) : Prop where
  name : m.name ≠ ""
  maps : ∀ f ∈ m.fields, f.isMap → f.label = none ∧ f.oneof = none
  extensions : ∀ e ∈ m.extendBlocks, ∀ f ∈ e.fields, f.isMap = false

instance (m : MessageDecl) : Decidable m.Grammatical :=
  decidable_of_iff (m.name ≠ "" ∧ (∀ f ∈ m.fields, f.isMap → f.label = none ∧ f.oneof = none) ∧
      ∀ e ∈ m.extendBlocks, ∀ f ∈ e.fields, f.isMap = false)
    ⟨fun h => ⟨h.1, h.2.1, h.2.2⟩, fun h => ⟨h.name, h.maps, h.extensions⟩⟩

/-- What the grammar promises of a file. -/
structure SchemaFile.Grammatical (f : SchemaFile) : Prop where
  messages : MessageDecl.ForallIn MessageDecl.Grammatical f.messages
  extensions : ∀ e ∈ f.extendBlocks, ∀ x ∈ e.fields, x.isMap = false

instance (f : SchemaFile) : Decidable f.Grammatical :=
  decidable_of_iff (MessageDecl.ForallIn MessageDecl.Grammatical f.messages ∧
      ∀ e ∈ f.extendBlocks, ∀ x ∈ e.fields, x.isMap = false)
    ⟨fun h => ⟨h.1, h.2⟩, fun h => ⟨h.messages, h.extensions⟩⟩

/-! ## Items -/

/-- What the grammar promises of a group. -/
def GroupDecl.Grammatical (g : GroupDecl) : Prop :=
  g.field.isMap = false ∧ g.body.Forall MessageDecl.Grammatical

/-- What the grammar promises of a oneof. -/
def OneofDecl.Grammatical (o : OneofDecl) : Prop := ∀ f ∈ o.fields, f.isMap = false

/-- What the grammar promises of an item of a message. -/
def MessageItem.Grammatical : MessageItem → Prop
  | .field f => f.isMap → f.label = none ∧ f.oneof = none
  | .group g => g.Grammatical
  | .oneof o => o.Grammatical
  | .message m => m.Forall MessageDecl.Grammatical
  | .extend e => ∀ f ∈ e.fields, f.isMap = false
  | .enum _ | .extensions _ | .reserved _ | .option _ | .empty => True

/-- What the grammar promises of an item of a file. -/
def TopItem.Grammatical : TopItem → Prop
  | .message m => m.Forall MessageDecl.Grammatical
  | .extend e => ∀ f ∈ e.fields, f.isMap = false
  | .dependency _ | .package _ | .option _ | .enum _ | .service _ | .empty => True

namespace MessageItem

variable {i : MessageItem} (h : i.Grammatical)
include h

theorem Grammatical.fields : ∀ f ∈ i.fields, f.isMap → f.label = none ∧ f.oneof = none := by
  intro f hf hmap
  cases i with
  | field g =>
    obtain rfl := List.mem_singleton.mp hf
    exact h hmap
  | group g =>
    obtain rfl := List.mem_singleton.mp hf
    exact absurd hmap (by simp [h.1])
  | oneof o => exact absurd hmap (by simp [h f hf])
  | message | enum | extend | extensions | reserved | option | empty => cases hf

theorem Grammatical.message : ∀ m ∈ i.message?, m.Forall MessageDecl.Grammatical := by
  rintro m hm
  cases i with
  | group g =>
    obtain rfl := Option.some.inj hm
    exact h.2
  | message m' =>
    obtain rfl := Option.some.inj hm
    exact h
  | field | oneof | enum | extend | extensions | reserved | option | empty => cases hm

theorem Grammatical.extend : ∀ e ∈ i.extend?, ∀ f ∈ e.fields, f.isMap = false := by
  rintro e he
  cases i with
  | extend e' =>
    obtain rfl := Option.some.inj he
    exact h
  | field | group | oneof | message | enum | extensions | reserved | option | empty => cases he

end MessageItem

namespace TopItem

variable {i : TopItem} (h : i.Grammatical)
include h

theorem Grammatical.message : ∀ m ∈ i.message?, m.Forall MessageDecl.Grammatical := by
  rintro m hm
  cases i with
  | message m' =>
    obtain rfl := Option.some.inj hm
    exact h
  | dependency | package | option | enum | service | extend | empty => cases hm

theorem Grammatical.extend : ∀ e ∈ i.extend?, ∀ f ∈ e.fields, f.isMap = false := by
  rintro e he
  cases i with
  | extend e' =>
    obtain rfl := Option.some.inj he
    exact h
  | dependency | package | option | message | enum | service | empty => cases he

end TopItem

/-! ## Assembly -/

theorem Token.text_ident_ne_empty {t : Token} (h : t.lexeme ≠ []) : t.ident.text ≠ "" := by
  intro htext
  have hlist := congrArg String.toList htext
  exact h (by simpa [Token.ident, Token.text] using hlist)

@[simp] theorem FieldDecl.isMap_plain (label : Option Label) (type name : Ident) (number : Nat)
    (options : List OptionDecl) :
    (FieldDecl.plain label type name number options).isMap = false := rfl

/-- A map has no label and is in no oneof. -/
theorem FieldDecl.ofMap_label_oneof (key value name : Ident) (number : Nat)
    (options : List OptionDecl) :
    (FieldDecl.ofMap key value name number options).label = none ∧
      (FieldDecl.ofMap key value name number options).oneof = none := ⟨rfl, rfl⟩

theorem OneofDecl.grammatical_ofFields {name : Ident} {fs : List FieldDecl}
    (h : ∀ f ∈ fs, f.isMap = false) : (OneofDecl.ofFields name fs).Grammatical := by
  intro f hf
  obtain ⟨g, hg, rfl⟩ := List.mem_map.mp hf
  exact h g hg

/-- The messages of a list are so at every depth if each of them is. -/
theorem MessageDecl.forallIn_iff {P : MessageDecl → Prop} {ms : List MessageDecl} :
    MessageDecl.ForallIn P ms ↔ ∀ m ∈ ms, m.Forall P := by
  induction ms with
  | nil => simp [MessageDecl.ForallIn]
  | cons m ms ih => simp [MessageDecl.ForallIn, ih]

/-- A message that is put together of grammatical items is grammatical. -/
theorem MessageDecl.forall_ofItems {name : Ident} {items : List MessageItem}
    (hname : name.text ≠ "") (hitems : ∀ i ∈ items, i.Grammatical) :
    (MessageDecl.ofItems name items).Forall MessageDecl.Grammatical := by
  rw [MessageDecl.ofItems, MessageDecl.Forall]
  refine ⟨⟨hname, ?_, ?_⟩, MessageDecl.forallIn_iff.mpr ?_⟩
  · intro f hf
    obtain ⟨i, hi, hf⟩ := List.mem_flatMap.mp hf
    exact (hitems i hi).fields f hf
  · intro e he
    obtain ⟨i, hi, he⟩ := List.mem_filterMap.mp he
    exact (hitems i hi).extend e he
  · intro m hm
    obtain ⟨i, hi, hm⟩ := List.mem_filterMap.mp hm
    exact (hitems i hi).message m hm

theorem GroupDecl.grammatical_ofItems {label : Label} {name : Ident} {number : Nat}
    {options : List OptionDecl} {items : List MessageItem} (hname : name.text ≠ "")
    (hitems : ∀ i ∈ items, i.Grammatical) :
    (GroupDecl.ofItems label name number options items).Grammatical :=
  ⟨rfl, MessageDecl.forall_ofItems hname hitems⟩

/-- A file that is put together of grammatical items is grammatical. -/
theorem SchemaFile.grammatical_ofItems {dialect : Dialect} {items : List TopItem}
    {f : SchemaFile} (hitems : ∀ i ∈ items, i.Grammatical)
    (h : SchemaFile.ofItems dialect items = .ok f) : f.Grammatical := by
  unfold SchemaFile.ofItems at h
  split at h
  · cases h
  · obtain rfl := Except.ok.inj h
    refine ⟨MessageDecl.forallIn_iff.mpr ?_, ?_⟩
    · intro m hm
      obtain ⟨i, hi, hm⟩ := List.mem_filterMap.mp hm
      exact (hitems i hi).message m hm
    · intro e he
      obtain ⟨i, hi, he⟩ := List.mem_filterMap.mp he
      exact (hitems i hi).extend e he

/-! ## Rules -/

/-- What the grammar promises of whatever a nonterminal stands for. -/
def Nonterminal.Promise : (n : Nonterminal) → n.Value → Prop
  | .name => fun i => i.text ≠ ""
  | .fieldDecl | .oneofField => fun f => f.isMap = false
  | .oneofItem | .oneofItems | .extendItem | .extendItems => fun fs => ∀ f ∈ fs, f.isMap = false
  | .mapFieldDecl => fun f => f.label = none ∧ f.oneof = none
  | .groupDecl => GroupDecl.Grammatical
  | .oneofDecl => OneofDecl.Grammatical
  | .extendDecl => fun e => ∀ f ∈ e.fields, f.isMap = false
  | .messageDecl => fun m => m.Forall MessageDecl.Grammatical
  | .messageItem => MessageItem.Grammatical
  | .messageItems => fun is => ∀ i ∈ is, i.Grammatical
  | .topItem => TopItem.Grammatical
  | .topItems => fun is => ∀ i ∈ is, i.Grammatical
  | .schemaFile => SchemaFile.Grammatical
  | _ => fun _ => True

/-- A rule keeps what the grammar promises. -/
abbrev Rule.Keeps {n : Nonterminal} (r : Rule n) : Prop :=
  Action.Yields (fun _ t => t.lexeme ≠ []) Nonterminal.Promise n.Promise r.symbols r.action

theorem Rule.keeps_of_mem {n : Nonterminal} : ∀ r ∈ rules n, r.Keeps := by
  cases n with
  | name | fieldDecl | oneofField | oneofItem | oneofItems | extendItem | extendItems
  | mapFieldDecl | groupDecl | oneofDecl | extendDecl | messageDecl =>
    simp +contextual [rules, Rule.Keeps, Action.Yields, Symbol.Satisfies, Nonterminal.Promise,
      Token.text_ident_ne_empty, FieldDecl.ofMap_label_oneof, GroupDecl.grammatical_ofItems,
      OneofDecl.grammatical_ofFields, MessageDecl.forall_ofItems, or_imp, forall_and]
  | messageItem | messageItems =>
    simp +contextual [rules, Rule.Keeps, Action.Yields, Symbol.Satisfies, Nonterminal.Promise,
      MessageItem.Grammatical, or_imp, forall_and]
  | topItem | topItems =>
    simp +contextual [rules, Rule.Keeps, Action.Yields, Symbol.Satisfies, Nonterminal.Promise,
      TopItem.Grammatical, or_imp, forall_and]
  | schemaFile =>
    intro r hr
    simp only [rules, List.mem_cons, List.not_mem_nil, or_false] at hr
    rcases hr with rfl | rfl | rfl | rfl
    · exact fun d _ items hitems f hf => SchemaFile.grammatical_ofItems hitems hf
    · exact fun d _ f hf => SchemaFile.grammatical_ofItems (List.forall_mem_nil _) hf
    · exact fun items hitems f hf => SchemaFile.grammatical_ofItems hitems hf
    · exact fun f hf => SchemaFile.grammatical_ofItems (List.forall_mem_nil _) hf
  -- of all other parts of a file nothing is promised
  | _ => exact fun r _ => Action.yields_of_all (fun _ => trivial) r.symbols r.action

/-- A parsed file is what a tree of its text stands for, under its own name. -/
theorem SchemaFile.exists_tree_of_parse {name : Text} {text : List Char} {f : SchemaFile}
    (h : SchemaFile.parse name text = .ok f) :
    ∃ tree file, derive text = .ok tree ∧ tree.value = .ok file ∧ f = { file with name } := by
  unfold SchemaFile.parse at h
  cases htree : derive text with
  | error e =>
    rw [htree] at h
    cases h
  | ok tree =>
    rw [htree] at h
    cases hvalue : tree.value with
    | error e =>
      simp only [bind, Except.bind, hvalue] at h
      cases h
    | ok file =>
      simp only [bind, Except.bind, hvalue] at h
      split at h
      · cases h
      · exact ⟨tree, file, rfl, hvalue, (Except.ok.inj h).symm⟩

/-- Whatever file a text stands for is grammatical. -/
theorem SchemaFile.grammatical_of_parse {name : Text} {text : List Char} {f : SchemaFile}
    (h : SchemaFile.parse name text = .ok f) : f.Grammatical := by
  obtain ⟨tree, file, htree, hvalue, rfl⟩ := exists_tree_of_parse h
  have hfile : file.Grammatical :=
    Tree.satisfies_value (fun r => Rule.keeps_of_mem _ (List.getElem_mem _)) tree
      (layout_of_derive htree).lexeme_ne_nil file hvalue
  exact ⟨hfile.messages, hfile.extensions⟩

end ProtoSchema
