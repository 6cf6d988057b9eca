import ProtoSchema.Proofs.Grammar.Namings
import ProtoSchema.Proofs.Schema.Fields

/-!
# Renamed declarations

What a file declares once a single name in it has been replaced (`SchemaFile.Renamed`): everything
else stays as it is. The name of a group is also that of its field, in lower case, and the name of a
oneof marks its members.

Each rule of the grammar carries the change of one part over to the whole (`Rule.carries_of_mem`).
No rule of a dialect is about names (`SchemaFile.Renamed.fault?`).
-/

namespace ProtoSchema

/-! ## Changes in one place -/

/-- Two lists differ in one place, where their members are related. -/
def OneChanged {α : Type} (R : α → α → Prop) (as bs : List α) : Prop :=
  ∃ before a b behind, as = before ++ a :: behind ∧ bs = before ++ b :: behind ∧ R a b

namespace OneChanged

variable {α : Type} {R : α → α → Prop} {as bs : List α}

theorem singleton {a b : α} (h : R a b) : OneChanged R [a] [b] := ⟨[], a, b, [], rfl, rfl, h⟩

theorem append_left (h : OneChanged R as bs) (cs : List α) :
    OneChanged R (cs ++ as) (cs ++ bs) := by
  obtain ⟨before, a, b, behind, rfl, rfl, hab⟩ := h
  exact ⟨cs ++ before, a, b, behind, by simp, by simp, hab⟩

theorem append_right (h : OneChanged R as bs) (cs : List α) :
    OneChanged R (as ++ cs) (bs ++ cs) := by
  obtain ⟨before, a, b, behind, rfl, rfl, hab⟩ := h
  exact ⟨before, a, b, behind ++ cs, by simp, by simp, hab⟩

/-- What holds of all members and stays true in the place that differs holds of all others. -/
theorem forall_mem {P : α → Prop} (h : OneChanged R as bs) (hR : ∀ a b, R a b → P a → P b)
    (has : ∀ a ∈ as, P a) : ∀ b ∈ bs, P b := by
  obtain ⟨before, a, b, behind, rfl, rfl, hab⟩ := h
  rw [List.forall_mem_append, List.forall_mem_cons] at has ⊢
  exact ⟨has.1, hR a b hab has.2.1, has.2.2⟩

end OneChanged

section

variable (n : Nonterminal) (old : Ident) (new : String)

/-! ## Declarations -/

/-- How a field is declared. -/
def FieldDecl.kind (f : FieldDecl) : Nonterminal :=
  match f.shape with
  | .map .. => .mapFieldDecl
  | .group _ => .groupDecl
  | .named .. => if f.oneof.isSome then .oneofField else .fieldDecl

/-- A field that is no group under another name. -/
structure FieldDecl.Renamed (f f' : FieldDecl) : Prop where
  kind : f.kind = n
  name : f.name = old.text
  position : f.position = old.position
  eq : f' = { f with name := new }

/-- The field of a group under another name, which is spelled in lower case. -/
structure FieldDecl.Regrouped (f f' : FieldDecl) : Prop where
  shape : f.shape = .group old.text
  name : f.name = old.text.toLower
  position : f.position = old.position
  eq : f' = { f with name := new.toLower, shape := .group new }

/-- A value of an enum under another name. -/
structure EnumValueDecl.Renamed (v v' : EnumValueDecl) : Prop where
  name : v.name = old.text
  position : v.position = old.position
  eq : v' = { v with name := new }

/-- An enum, where it has another name or one of its values has. -/
inductive EnumDecl.Renamed : EnumDecl → EnumDecl → Prop
  | own {e : EnumDecl} (hn : n = .enumDecl) (hname : e.name = old.text)
      (hposition : e.position = old.position) : Renamed e { e with name := new }
  | value {e : EnumDecl} {vs : List EnumValueDecl} (hn : n = .enumValue)
      (h : OneChanged (EnumValueDecl.Renamed old new) e.values vs) :
      Renamed e { e with values := vs }

/-- An extend block, where one of its fields has another name. -/
inductive ExtendDecl.Renamed : ExtendDecl → ExtendDecl → Prop
  | field {e : ExtendDecl} {fs : List FieldDecl}
      (h : OneChanged (FieldDecl.Renamed n old new) e.fields fs) : Renamed e { e with fields := fs }

/-- The message of a group under another name. -/
structure MessageDecl.Regrouped (m m' : MessageDecl) : Prop where
  name : m.name = old.text
  position : m.position = old.position
  eq : m' = { m with name := new }

/-- A message, where it has another name or something that is declared in it has. -/
inductive MessageDecl.Renamed : MessageDecl → MessageDecl → Prop
  | own {m : MessageDecl} (hn : n = .messageDecl) (hname : m.name = old.text)
      (hposition : m.position = old.position) : Renamed m { m with name := new }
  | field {m : MessageDecl} {fs : List FieldDecl}
      (h : OneChanged (FieldDecl.Renamed n old new) m.fields fs) : Renamed m { m with fields := fs }
  | group {m : MessageDecl} {fs : List FieldDecl} {ms : List MessageDecl} (hn : n = .groupDecl)
      (hfield : OneChanged (FieldDecl.Regrouped old new) m.fields fs)
      (hmessage : OneChanged (MessageDecl.Regrouped old new) m.messages ms) :
      Renamed m { m with fields := fs, messages := ms }
  | oneof {m : MessageDecl} {before members behind : List FieldDecl} {os ps : List String}
      (hn : n = .oneofDecl) (hfields : m.fields = before ++ (members ++ behind))
      (honeofs : m.oneofs = os ++ old.text :: ps)
      (hmembers : ∀ f ∈ members, f.oneof = some old.text)
      (hothers : ∀ f ∈ before ++ behind, ∀ o ∈ f.oneof, o ∈ os ++ ps) :
      Renamed m { m with
        fields := before ++ (members.map (fun f => { f with oneof := some new }) ++ behind)
        oneofs := os ++ new :: ps }
  | enum {m : MessageDecl} {es : List EnumDecl}
      (h : OneChanged (EnumDecl.Renamed n old new) m.enums es) : Renamed m { m with enums := es }
  | extend {m : MessageDecl} {es : List ExtendDecl}
      (h : OneChanged (ExtendDecl.Renamed n old new) m.extendBlocks es) :
      Renamed m { m with extendBlocks := es }
  | message {m a b : MessageDecl} {before behind : List MessageDecl}
      (hmessages : m.messages = before ++ a :: behind) (h : Renamed a b) :
      Renamed m { m with messages := before ++ b :: behind }

/-- A method under another name. -/
structure MethodDecl.Renamed (m m' : MethodDecl) : Prop where
  name : m.name = old.text
  position : m.position = old.position
  eq : m' = { m with name := new }

/-- A service, where it has another name or one of its methods has. -/
inductive ServiceDecl.Renamed : ServiceDecl → ServiceDecl → Prop
  | own {s : ServiceDecl} (hn : n = .serviceDecl) (hname : s.name = old.text)
      (hposition : s.position = old.position) : Renamed s { s with name := new }
  | method {s : ServiceDecl} {ms : List MethodDecl} (hn : n = .rpcDecl)
      (h : OneChanged (MethodDecl.Renamed old new) s.methods ms) :
      Renamed s { s with methods := ms }

/-- A dotted name, where one of its parts has been replaced. In front of a leading dot stands an
empty part. -/
def Ident.Respelled (i i' : Ident) : Prop :=
  ∃ before behind, i.text = ".".intercalate (before ++ old.text :: behind) ∧
    i' = { i with text := ".".intercalate (before ++ new :: behind) }

/-- A file, where a part of its package is replaced or something that is declared in it has another
name. -/
inductive SchemaFile.Renamed : SchemaFile → SchemaFile → Prop
  | package {f : SchemaFile} {i i' : Ident} (hn : n = .packageStmt)
      (hpackage : f.package = some i.text) (h : Ident.Respelled old new i i') :
      Renamed f { f with package := some i'.text }
  | message {f : SchemaFile} {ms : List MessageDecl}
      (h : OneChanged (MessageDecl.Renamed n old new) f.messages ms) :
      Renamed f { f with messages := ms }
  | enum {f : SchemaFile} {es : List EnumDecl}
      (h : OneChanged (EnumDecl.Renamed n old new) f.enums es) : Renamed f { f with enums := es }
  | service {f : SchemaFile} {ss : List ServiceDecl}
      (h : OneChanged (ServiceDecl.Renamed n old new) f.services ss) :
      Renamed f { f with services := ss }
  | extend {f : SchemaFile} {es : List ExtendDecl}
      (h : OneChanged (ExtendDecl.Renamed n old new) f.extendBlocks es) :
      Renamed f { f with extendBlocks := es }

/-! ## Parts of declarations -/

/-- A group, where it has another name or something that is declared in it has. -/
inductive GroupDecl.Renamed : GroupDecl → GroupDecl → Prop
  | own {g : GroupDecl} {f : FieldDecl} {m : MessageDecl} (hn : n = .groupDecl)
      (hfield : FieldDecl.Regrouped old new g.field f)
      (hbody : MessageDecl.Regrouped old new g.body m) : Renamed g ⟨f, m⟩
  | body {g : GroupDecl} {m : MessageDecl} (h : MessageDecl.Renamed n old new g.body m) :
      Renamed g ⟨g.field, m⟩

/-- A oneof, where it has another name or one of its members has. -/
inductive OneofDecl.Renamed : OneofDecl → OneofDecl → Prop
  | own {o : OneofDecl} (hn : n = .oneofDecl) (hname : o.name = old.text) :
      Renamed o ⟨new, o.fields.map fun f => { f with oneof := some new }⟩
  | member {o : OneofDecl} {fs : List FieldDecl}
      (h : OneChanged (FieldDecl.Renamed n old new) o.fields fs) : Renamed o ⟨o.name, fs⟩

/-- A field under another name that is to become a member of a oneof. -/
def FieldDecl.MemberRenamed (f f' : FieldDecl) : Prop :=
  n = .oneofField ∧ FieldDecl.Renamed .fieldDecl old new f f'

/-- An item of a message, where something that is declared in it has another name. -/
inductive MessageItem.Renamed : MessageItem → MessageItem → Prop
  | field {f f' : FieldDecl} (h : FieldDecl.Renamed n old new f f') : Renamed (.field f) (.field f')
  | group {g g' : GroupDecl} (h : GroupDecl.Renamed n old new g g') : Renamed (.group g) (.group g')
  | oneof {o o' : OneofDecl} (h : OneofDecl.Renamed n old new o o') : Renamed (.oneof o) (.oneof o')
  | message {m m' : MessageDecl} (h : MessageDecl.Renamed n old new m m') :
      Renamed (.message m) (.message m')
  | enum {e e' : EnumDecl} (h : EnumDecl.Renamed n old new e e') : Renamed (.enum e) (.enum e')
  | extend {e e' : ExtendDecl} (h : ExtendDecl.Renamed n old new e e') :
      Renamed (.extend e) (.extend e')

/-- An item of an enum, where a value has another name. -/
inductive EnumItem.Renamed : EnumItem → EnumItem → Prop
  | value {v v' : EnumValueDecl} (hn : n = .enumValue) (h : EnumValueDecl.Renamed old new v v') :
      Renamed (.value v) (.value v')

/-- An item of a service, where a method has another name. -/
inductive ServiceItem.Renamed : ServiceItem → ServiceItem → Prop
  | method {m m' : MethodDecl} (hn : n = .rpcDecl) (h : MethodDecl.Renamed old new m m') :
      Renamed (.method m) (.method m')

/-- An item of a file, where something that is declared in it has another name. -/
inductive TopItem.Renamed : TopItem → TopItem → Prop
  | package {i i' : Ident} (hn : n = .packageStmt) (h : Ident.Respelled old new i i') :
      Renamed (.package i) (.package i')
  | message {m m' : MessageDecl} (h : MessageDecl.Renamed n old new m m') :
      Renamed (.message m) (.message m')
  | enum {e e' : EnumDecl} (h : EnumDecl.Renamed n old new e e') : Renamed (.enum e) (.enum e')
  | service {s s' : ServiceDecl} (h : ServiceDecl.Renamed n old new s s') :
      Renamed (.service s) (.service s')
  | extend {e e' : ExtendDecl} (h : ExtendDecl.Renamed n old new e e') :
      Renamed (.extend e) (.extend e')

/-- The name itself and what takes its place. -/
def Ident.Replaced (i i' : Ident) : Prop := i = old ∧ i' = { old with text := new }

/-- What a nonterminal of a name stands for, where the name is replaced. -/
def Nonterminal.Respelled : (m : Nonterminal) → m.Value → m.Value → Prop
  | .name | .enumValueName => Ident.Replaced old new
  | .moreNames => OneChanged (Ident.Replaced old new)
  | .fullIdent => Ident.Respelled old new
  | _ => fun _ _ => False

/-- What a nonterminal stands for, where something that is declared in it has another name. -/
def Nonterminal.Renamed : (m : Nonterminal) → m.Value → m.Value → Prop
  | .schemaFile => SchemaFile.Renamed n old new
  | .topItems => OneChanged (TopItem.Renamed n old new)
  | .topItem => TopItem.Renamed n old new
  | .packageStmt => fun i i' => n = .packageStmt ∧ Ident.Respelled old new i i'
  | .messageDecl => MessageDecl.Renamed n old new
  | .messageItems => OneChanged (MessageItem.Renamed n old new)
  | .messageItem => MessageItem.Renamed n old new
  | .fieldDecl | .mapFieldDecl => FieldDecl.Renamed n old new
  | .groupDecl => GroupDecl.Renamed n old new
  | .oneofDecl => OneofDecl.Renamed n old new
  | .oneofItems | .oneofItem => OneChanged (FieldDecl.MemberRenamed n old new)
  | .oneofField => FieldDecl.MemberRenamed n old new
  | .extendDecl => ExtendDecl.Renamed n old new
  | .extendItems | .extendItem => OneChanged (FieldDecl.Renamed n old new)
  | .enumDecl => EnumDecl.Renamed n old new
  | .enumItems => OneChanged (EnumItem.Renamed n old new)
  | .enumItem => EnumItem.Renamed n old new
  | .enumValue => fun v v' => n = .enumValue ∧ EnumValueDecl.Renamed old new v v'
  | .serviceDecl => ServiceDecl.Renamed n old new
  | .serviceItems => OneChanged (ServiceItem.Renamed n old new)
  | .serviceItem => ServiceItem.Renamed n old new
  | .rpcDecl => fun m m' => n = .rpcDecl ∧ MethodDecl.Renamed old new m m'
  | _ => fun _ _ => False

/-- What a symbol of a scope stands for, where a name in it is replaced. -/
def Scope.Renamed : Scope → (s : Symbol) → s.Value → s.Value → Prop
  | declaring, .nonterminal m => Nonterminal.Renamed n old new m
  | naming d, .nonterminal m => fun v v' => n = d ∧ m.Respelled old new v v'
  | naming d, .terminal _ => fun t t' : Token => n = d ∧ Ident.Replaced old new t.ident t'.ident
  | _, _ => fun _ _ => False

end

/-! ## Marks of members -/

/-- Only the members of a oneof are marked, with its name. -/
def MessageItem.Marked : MessageItem → Prop
  | .field f => f.oneof = none
  | .group g => g.field.oneof = none
  | .oneof o => ∀ f ∈ o.fields, f.oneof = some o.name
  | _ => True

/-- How the fields are marked in whatever a nonterminal stands for. -/
def Nonterminal.Marked : (m : Nonterminal) → m.Value → Prop
  | .fieldDecl | .mapFieldDecl => fun f => f.oneof = none
  | .groupDecl => fun g => g.field.oneof = none
  | .oneofDecl => fun o => ∀ f ∈ o.fields, f.oneof = some o.name
  | .messageItem => MessageItem.Marked
  | .messageItems => fun is => ∀ i ∈ is, i.Marked
  | _ => fun _ => True

/-- A rule marks the fields that it makes. -/
abbrev Rule.Marks {m : Nonterminal} (r : Rule m) : Prop :=
  Action.Yields (fun _ _ => True) Nonterminal.Marked m.Marked r.symbols r.action

theorem Rule.marks_of_mem {m : Nonterminal} : ∀ r ∈ rules m, r.Marks := by
  cases m with
  | fieldDecl | mapFieldDecl | groupDecl | oneofDecl =>
    simp [rules, Rule.Marks, Action.Yields, Symbol.Satisfies, Nonterminal.Marked, FieldDecl.plain,
      FieldDecl.ofMap, GroupDecl.ofItems, OneofDecl.ofFields]
  | messageItem | messageItems =>
    simp +contextual [rules, Rule.Marks, Action.Yields, Symbol.Satisfies, Nonterminal.Marked,
      MessageItem.Marked, or_imp, forall_and]
  | _ => exact fun r _ => Action.yields_of_all (fun _ => trivial) r.symbols r.action

/-! ## Assembly -/

section

variable {n : Nonterminal} {old name name' : Ident} {new : String}

theorem FieldDecl.renamed_plain (h : Ident.Replaced old new name name') {label : Option Label}
    {type : Ident} {number : Nat} {options : List OptionDecl} :
    FieldDecl.Renamed .fieldDecl old new (plain label type name number options)
      (plain label type name' number options) := by
  obtain ⟨rfl, rfl⟩ := h
  exact ⟨rfl, rfl, rfl, rfl⟩

theorem FieldDecl.renamed_ofMap (h : Ident.Replaced old new name name') {key value : Ident}
    {number : Nat} {options : List OptionDecl} :
    FieldDecl.Renamed .mapFieldDecl old new (ofMap key value name number options)
      (ofMap key value name' number options) := by
  obtain ⟨rfl, rfl⟩ := h
  exact ⟨rfl, rfl, rfl, rfl⟩

theorem MessageDecl.renamed_ofItems_name (h : Ident.Replaced old new name name')
    {items : List MessageItem} :
    MessageDecl.Renamed .messageDecl old new (ofItems name items) (ofItems name' items) := by
  obtain ⟨rfl, rfl⟩ := h
  exact .own rfl rfl rfl

theorem filterMap_insert {α β : Type} (g : α → Option β) (before behind : List α) (a : α) :
    (before ++ a :: behind).filterMap g =
      before.filterMap g ++ ((g a).toList ++ behind.filterMap g) := by
  rw [List.filterMap_append, List.filterMap_cons]
  cases g a <;> rfl

/-- What an item adds to its message, between the items before and behind it. -/
theorem MessageDecl.ofItems_insert (name : Ident) (before behind : List MessageItem)
    (i : MessageItem) :
    ofItems name (before ++ i :: behind) =
      { name := name.text
        fields :=
          before.flatMap MessageItem.fields ++ (i.fields ++ behind.flatMap MessageItem.fields)
        messages := before.filterMap MessageItem.message? ++
          (i.message?.toList ++ behind.filterMap MessageItem.message?)
        enums := before.filterMap MessageItem.enum? ++
          (i.enum?.toList ++ behind.filterMap MessageItem.enum?)
        extendBlocks := before.filterMap MessageItem.extend? ++
          (i.extend?.toList ++ behind.filterMap MessageItem.extend?)
        oneofs := before.filterMap MessageItem.oneofName? ++
          (i.oneofName?.toList ++ behind.filterMap MessageItem.oneofName?)
        options := before.filterMap MessageItem.option? ++
          (i.option?.toList ++ behind.filterMap MessageItem.option?)
        extensionRanges := before.flatMap MessageItem.extensionRanges ++
          (i.extensionRanges ++ behind.flatMap MessageItem.extensionRanges)
        reservedRanges := (before.filterMap MessageItem.reserved?).flatMap ReservedDecl.ranges ++
          (i.reserved?.toList.flatMap ReservedDecl.ranges ++
            (behind.filterMap MessageItem.reserved?).flatMap ReservedDecl.ranges)
        reservedNames := (before.filterMap MessageItem.reserved?).flatMap ReservedDecl.names ++
          (i.reserved?.toList.flatMap ReservedDecl.names ++
            (behind.filterMap MessageItem.reserved?).flatMap ReservedDecl.names)
        position := name.position } := by
  simp only [ofItems, filterMap_insert, List.flatMap_append, List.flatMap_cons]

/-- The fields of marked items are marked with the oneofs among the items. -/
theorem MessageItem.Marked.mem_oneofs {items : List MessageItem} (h : ∀ i ∈ items, i.Marked) :
    ∀ f ∈ items.flatMap fields, ∀ o ∈ f.oneof, o ∈ items.filterMap oneofName? := by
  intro f hf o ho
  obtain ⟨i, hi, hf⟩ := List.mem_flatMap.mp hf
  have hmarked := h i hi
  cases i with
  | field g =>
    obtain rfl := List.mem_singleton.mp hf
    rw [show f.oneof = none from hmarked] at ho
    cases ho
  | group g =>
    obtain rfl := List.mem_singleton.mp hf
    rw [show g.field.oneof = none from hmarked] at ho
    cases ho
  | oneof d =>
    rw [hmarked f hf] at ho
    obtain rfl := Option.some.inj ho
    exact List.mem_filterMap.mpr ⟨.oneof d, hi, rfl⟩
  | message | enum | extend | extensions | reserved | option | empty => cases hf

/-- A message is renamed where one of its items is. -/
theorem MessageDecl.renamed_ofItems {items items' : List MessageItem}
    (hmarked : ∀ i ∈ items, i.Marked)
    (h : OneChanged (MessageItem.Renamed n old new) items items') :
    MessageDecl.Renamed n old new (ofItems name items) (ofItems name items') := by
  obtain ⟨before, i, i', behind, rfl, rfl, hi⟩ := h
  rw [ofItems_insert, ofItems_insert]
  cases hi with
  | @field f f' h => exact .field ⟨_, f, f', _, rfl, rfl, h⟩
  | @group g g' h =>
    cases h with
    | own hn hfield hbody =>
      exact .group hn ⟨_, _, _, _, rfl, rfl, hfield⟩ ⟨_, _, _, _, rfl, rfl, hbody⟩
    | body h => exact .message rfl h
  | @oneof o o' h =>
    cases h with
    | own hn hname =>
      obtain ⟨_, members⟩ := o
      obtain rfl : _ = old.text := hname
      refine .oneof hn rfl rfl (hmarked (.oneof ⟨old.text, members⟩) (by simp)) ?_
      have hrest : ∀ i ∈ before ++ behind, i.Marked := fun i hi =>
        hmarked i ((List.mem_append.mp hi).elim (List.mem_append_left _)
          fun hi => List.mem_append_right _ (List.mem_cons_of_mem _ hi))
      have hothers := MessageItem.Marked.mem_oneofs hrest
      rwa [List.flatMap_append, List.filterMap_append] at hothers
    | member h => exact .field ((h.append_right _).append_left _)
  | message h => exact .message rfl h
  | enum h => exact .enum ⟨_, _, _, _, rfl, rfl, h⟩
  | extend h => exact .extend ⟨_, _, _, _, rfl, rfl, h⟩

theorem GroupDecl.renamed_ofItems_name (h : Ident.Replaced old new name name') {label : Label}
    {number : Nat} {options : List OptionDecl} {items : List MessageItem} :
    GroupDecl.Renamed .groupDecl old new (ofItems label name number options items)
      (ofItems label name' number options items) := by
  obtain ⟨rfl, rfl⟩ := h
  exact .own rfl ⟨rfl, rfl, rfl, rfl⟩ ⟨rfl, rfl, rfl⟩

/-- A group is renamed where one of its items is. -/
theorem GroupDecl.renamed_ofItems {label : Label} {number : Nat} {options : List OptionDecl}
    {items items' : List MessageItem} (hmarked : ∀ i ∈ items, i.Marked)
    (h : OneChanged (MessageItem.Renamed n old new) items items') :
    GroupDecl.Renamed n old new (ofItems label name number options items)
      (ofItems label name number options items') :=
  .body (MessageDecl.renamed_ofItems hmarked h)

theorem OneofDecl.renamed_ofFields_name (h : Ident.Replaced old new name name')
    {fields : List FieldDecl} :
    OneofDecl.Renamed .oneofDecl old new (ofFields name fields) (ofFields name' fields) := by
  obtain ⟨rfl, rfl⟩ := h
  have hmembers : (fields.map fun f => { f with oneof := some name.text }).map
      (fun f => { f with oneof := some new }) =
        fields.map fun f => { f with oneof := some new } := by
    rw [List.map_map]
    rfl
  rw [ofFields, ofFields, ← hmembers]
  exact .own rfl rfl

/-- A oneof is renamed where one of its members is. -/
theorem OneofDecl.renamed_ofFields {fields fields' : List FieldDecl}
    (h : OneChanged (FieldDecl.MemberRenamed n old new) fields fields') :
    OneofDecl.Renamed n old new (ofFields name fields) (ofFields name fields') := by
  obtain ⟨before, f, f', behind, rfl, rfl, rfl, hf⟩ := h
  refine .member ⟨before.map _, { f with oneof := some name.text },
    { f' with oneof := some name.text }, behind.map _, List.map_append .., List.map_append .., ?_⟩
  refine ⟨?_, hf.name, hf.position, by rw [hf.eq]⟩
  have hkind := hf.kind
  unfold FieldDecl.kind at hkind ⊢
  split at hkind <;> simp_all

theorem EnumDecl.renamed_ofItems_name (h : Ident.Replaced old new name name')
    {items : List EnumItem} :
    EnumDecl.Renamed .enumDecl old new (ofItems name items) (ofItems name' items) := by
  obtain ⟨rfl, rfl⟩ := h
  exact .own rfl rfl rfl

/-- An enum is renamed where one of its items is. -/
theorem EnumDecl.renamed_ofItems {items items' : List EnumItem}
    (h : OneChanged (EnumItem.Renamed n old new) items items') :
    EnumDecl.Renamed n old new (ofItems name items) (ofItems name items') := by
  obtain ⟨before, _, _, behind, rfl, rfl, ⟨hn, hv⟩⟩ := h
  rename_i v v'
  have hinsert (v : EnumValueDecl) : ofItems name (before ++ .value v :: behind) =
      { ofItems name (before ++ behind) with
        values := before.filterMap EnumItem.value? ++ v :: behind.filterMap EnumItem.value? } := by
    simp only [ofItems, List.filterMap_append]
    rfl
  rw [hinsert, hinsert]
  exact .value hn ⟨_, v, v', _, rfl, rfl, hv⟩

theorem ServiceDecl.renamed_ofItems_name (h : Ident.Replaced old new name name')
    {items : List ServiceItem} :
    ServiceDecl.Renamed .serviceDecl old new (ofItems name items) (ofItems name' items) := by
  obtain ⟨rfl, rfl⟩ := h
  exact .own rfl rfl rfl

/-- A service is renamed where one of its items is. -/
theorem ServiceDecl.renamed_ofItems {items items' : List ServiceItem}
    (h : OneChanged (ServiceItem.Renamed n old new) items items') :
    ServiceDecl.Renamed n old new (ofItems name items) (ofItems name items') := by
  obtain ⟨before, _, _, behind, rfl, rfl, ⟨hn, hm⟩⟩ := h
  rename_i m m'
  have hinsert (m : MethodDecl) : ofItems name (before ++ .method m :: behind) =
      { ofItems name (before ++ behind) with
        methods := before.filterMap ServiceItem.method? ++
          m :: behind.filterMap ServiceItem.method? } := by
    simp only [ofItems, List.filterMap_append]
    rfl
  rw [hinsert, hinsert]
  exact .method hn ⟨_, m, m', _, rfl, rfl, hm⟩

theorem MethodDecl.renamed_ofEnds (h : Ident.Replaced old new name name') {input output : RpcType}
    {options : List OptionDecl} :
    MethodDecl.Renamed old new (ofEnds name input output options)
      (ofEnds name' input output options) := by
  obtain ⟨rfl, rfl⟩ := h
  exact ⟨rfl, rfl, rfl⟩

theorem EnumValueDecl.renamed_ofIdent (h : Ident.Replaced old new name name') {number : Int}
    {options : List OptionDecl} :
    EnumValueDecl.Renamed old new (ofIdent name number options) (ofIdent name' number options) := by
  obtain ⟨rfl, rfl⟩ := h
  exact ⟨rfl, rfl, rfl⟩

/-- What a file is made of, if it has one package at most. -/
theorem SchemaFile.ofItems_eq_ok_iff {dialect : Dialect} {items : List TopItem} {f : SchemaFile} :
    ofItems dialect items = .ok f ↔ (items.filterMap TopItem.package?).length ≤ 1 ∧
      f = { name := ""
            dialect
            package := (items.filterMap TopItem.package?).head?.map Ident.text
            imports := items.filterMap TopItem.dependency?
            messages := items.filterMap TopItem.message?
            enums := items.filterMap TopItem.enum?
            services := items.filterMap TopItem.service?
            extendBlocks := items.filterMap TopItem.extend?
            options := items.filterMap TopItem.option? } := by
  unfold ofItems
  split
  · next heq => simp [heq]
  · next hone =>
    have hlength : (items.filterMap TopItem.package?).length ≤ 1 := by
      match hpackages : items.filterMap TopItem.package? with
      | [] | [_] => simp
      | p :: q :: ps => exact (hone p q ps hpackages).elim
    rw [Except.ok.injEq, eq_comm, and_iff_right hlength]

/-- A file is renamed where one of its items is. -/
theorem SchemaFile.renamed_ofItems {dialect : Dialect} {items items' : List TopItem}
    (h : OneChanged (TopItem.Renamed n old new) items items') {f : SchemaFile}
    (hf : ofItems dialect items = .ok f) :
    ∃ f', ofItems dialect items' = .ok f' ∧ SchemaFile.Renamed n old new f f' := by
  obtain ⟨before, i, i', behind, rfl, rfl, hi⟩ := h
  simp only [ofItems_eq_ok_iff, filterMap_insert] at hf ⊢
  obtain ⟨hlength, rfl⟩ := hf
  refine ⟨_, ⟨?_, rfl⟩, ?_⟩
  · cases hi <;> simpa [TopItem.package?] using hlength
  cases hi with
  | @package p p' hn h =>
    -- no other package may stand before or behind
    have hlength : (before.filterMap TopItem.package?).length +
        ((behind.filterMap TopItem.package?).length + 1) ≤ 1 := by
      simpa [TopItem.package?] using hlength
    have hbefore :=
      List.eq_nil_of_length_eq_zero (l := before.filterMap TopItem.package?) (by omega)
    have hbehind :=
      List.eq_nil_of_length_eq_zero (l := behind.filterMap TopItem.package?) (by omega)
    rw [hbefore, hbehind]
    exact .package hn rfl h
  | message h => exact .message ⟨_, _, _, _, rfl, rfl, h⟩
  | enum h => exact .enum ⟨_, _, _, _, rfl, rfl, h⟩
  | service h => exact .service ⟨_, _, _, _, rfl, rfl, h⟩
  | extend h => exact .extend ⟨_, _, _, _, rfl, rfl, h⟩

/-! ### Dotted names -/

theorem Ident.Replaced.respelled (h : Ident.Replaced old new name name') :
    Ident.Respelled old new name name' := by
  obtain ⟨rfl, rfl⟩ := h
  exact ⟨[], [], rfl, rfl⟩

theorem Ident.respelled_join_first (h : Ident.Replaced old new name name') {others : List Ident} :
    Ident.Respelled old new (join name others) (join name' others) := by
  obtain ⟨rfl, rfl⟩ := h
  exact ⟨[], others.map Ident.text, rfl, rfl⟩

theorem Ident.respelled_join_others {others others' : List Ident}
    (h : OneChanged (Ident.Replaced old new) others others') :
    Ident.Respelled old new (join name others) (join name others') := by
  obtain ⟨before, _, _, behind, rfl, rfl, rfl, rfl⟩ := h
  exact ⟨name.text :: before.map Ident.text, behind.map Ident.text, by simp [join], by simp [join]⟩

theorem point_append_intercalate {parts : List String} (h : parts ≠ []) :
    "." ++ ".".intercalate parts = ".".intercalate ("" :: parts) := by
  obtain ⟨part, parts, rfl⟩ := List.exists_cons_of_ne_nil h
  refine String.toList_inj.mp ?_
  simp [String.toList_intercalate]

theorem Ident.Respelled.absolute {i i' : Ident} (h : Ident.Respelled old new i i') :
    Ident.Respelled old new i.absolute i'.absolute := by
  obtain ⟨before, behind, htext, rfl⟩ := h
  refine ⟨"" :: before, behind, ?_, ?_⟩
  · rw [Ident.absolute, htext, point_append_intercalate (by simp), List.cons_append]
  · rw [Ident.absolute, point_append_intercalate (by simp), List.cons_append]
    rfl

end

/-! ## Rules -/

/-- Two actions yield results from the same parts that `R` relates. -/
def Action.Alike {β : Type} (R : β → β → Prop) :
    (ss : List Symbol) → Action β ss → Action β ss → Prop
  | [], result, result' => ∀ v, result = .ok v → ∃ v', result' = .ok v' ∧ R v v'
  | s :: ss, action, action' => ∀ v : s.Value, Action.Alike R ss (action v) (action' v)

/-- An action carries the change of one of its parts, as `S` tells it, over to its result. -/
def Action.Carries {β : Type} (S : (s : Symbol) → s.Value → s.Value → Prop) (R : β → β → Prop) :
    (ss : List Symbol) → Action β ss → Prop
  | [], _ => True
  | s :: ss, action => ∀ v : s.Value, s.Satisfies (fun _ _ => True) Nonterminal.Marked v →
      (∀ v', S s v v' → Action.Alike R ss (action v) (action v')) ∧
        Action.Carries S R ss (action v)

/-- A rule carries the change of a name over from each of its parts to the whole. -/
abbrev Rule.Carries (n : Nonterminal) (old : Ident) (new : String) (scope : Scope) {m : Nonterminal}
    (r : Rule m) : Prop :=
  Action.Carries (fun s => (scope.child m s).Renamed n old new s)
    (scope.Renamed n old new (.nonterminal m)) r.symbols r.action

section

variable {n : Nonterminal} {old : Ident} {new : String}

/-- Where none of the parts may change, there is nothing to carry over. -/
theorem Action.carries_of_forall_not {β : Type} {S : (s : Symbol) → s.Value → s.Value → Prop}
    {R : β → β → Prop} (h : ∀ s v v', ¬ S s v v') (ss : List Symbol) (action : Action β ss) :
    Action.Carries S R ss action := by
  induction ss with
  | nil => trivial
  | cons s ss ih => exact fun v _ => ⟨fun v' hv => (h s v v' hv).elim, ih (action v)⟩

theorem Rule.carries_of_child {scope : Scope} {m : Nonterminal}
    (h : ∀ s, scope.child m s = .other) (r : Rule m) : r.Carries n old new scope :=
  Action.carries_of_forall_not (fun s v v' hv => by simp [h, Scope.Renamed] at hv) _ _

/-- A part of the name of a package is replaced in the rules that make it up. -/
theorem Rule.carries_naming (d : Nonterminal) {m : Nonterminal} :
    ∀ r ∈ rules m, r.Carries n old new (.naming d) := by
  cases m with
  | name | enumValueName =>
    simp [rules, Rule.Carries, Action.Carries, Action.Alike, Scope.child, Scope.Renamed,
      Nonterminal.Respelled]
  | fullIdent | moreNames =>
    by_cases hd : d = .packageStmt
    · subst hd
      simp +contextual [rules, Rule.Carries, Action.Carries, Action.Alike, Scope.child,
        Scope.Renamed, Nonterminal.Respelled, Ident.respelled_join_first,
        Ident.respelled_join_others, Ident.Replaced.respelled, Ident.Respelled.absolute,
        OneChanged.singleton, OneChanged.append_left, OneChanged.append_right]
    · refine fun r _ => Rule.carries_of_child (fun s => ?_) r
      rcases s with t | s
      · rfl
      · cases s <;> simp [Scope.child, hd]
  | _ => exact fun r _ => Rule.carries_of_child (fun _ => rfl) r

/-- A declaration changes with its name and with what is declared in it. -/
theorem Rule.carries_named {m : Nonterminal} (hm : m.namePart?.isSome) :
    ∀ r ∈ rules m, r.Carries n old new .declaring := by
  cases m with
  | messageDecl | groupDecl =>
    simp +contextual [rules, Rule.Carries, Action.Carries, Action.Alike, Scope.child, Scope.Renamed,
      Nonterminal.namePart?, Nonterminal.declarations, Symbol.Satisfies, Nonterminal.Renamed,
      Nonterminal.Respelled, Nonterminal.Marked, MessageDecl.renamed_ofItems_name,
      MessageDecl.renamed_ofItems, GroupDecl.renamed_ofItems_name, GroupDecl.renamed_ofItems]
  | fieldDecl | mapFieldDecl | oneofField | oneofDecl =>
    simp +contextual [rules, Rule.Carries, Action.Carries, Action.Alike, Scope.child, Scope.Renamed,
      Nonterminal.namePart?, Nonterminal.declarations, Nonterminal.Renamed, Nonterminal.Respelled,
      FieldDecl.renamed_plain, FieldDecl.renamed_ofMap, FieldDecl.MemberRenamed,
      OneofDecl.renamed_ofFields_name, OneofDecl.renamed_ofFields]
  | enumDecl | enumValue | serviceDecl | rpcDecl | packageStmt =>
    simp +contextual [rules, Rule.Carries, Action.Carries, Action.Alike, Scope.child, Scope.Renamed,
      Nonterminal.namePart?, Nonterminal.declarations, Nonterminal.Renamed, Nonterminal.Respelled,
      EnumDecl.renamed_ofItems_name, EnumDecl.renamed_ofItems, ServiceDecl.renamed_ofItems_name,
      ServiceDecl.renamed_ofItems, MethodDecl.renamed_ofEnds, EnumValueDecl.renamed_ofIdent]
  | _ => cases hm

/-- A list of items changes with any of them. -/
theorem Rule.carries_items {m : Nonterminal} (hm : m ∈ m.declarations) :
    ∀ r ∈ rules m, r.Carries n old new .declaring := by
  cases m with
  | topItems | messageItems | oneofItems | extendItems | enumItems | serviceItems =>
    simp +contextual [rules, Rule.Carries, Action.Carries, Action.Alike, Scope.child, Scope.Renamed,
      Nonterminal.namePart?, Nonterminal.declarations, Nonterminal.Renamed, OneChanged.singleton,
      OneChanged.append_left, OneChanged.append_right]
  | _ => simp [Nonterminal.declarations] at hm

/-- What declares something changes with it. -/
theorem Rule.carries_declaring {m : Nonterminal} :
    ∀ r ∈ rules m, r.Carries n old new .declaring := by
  cases m with
  | schemaFile =>
    suffices h : ∀ (dialect : Dialect) (items items' : List TopItem),
        OneChanged (TopItem.Renamed n old new) items items' →
          Action.Alike (SchemaFile.Renamed n old new) [] (SchemaFile.ofItems dialect items)
            (SchemaFile.ofItems dialect items') by
      simpa [rules, Rule.Carries, Action.Carries, Scope.child, Nonterminal.namePart?,
        Nonterminal.declarations, Scope.Renamed, Nonterminal.Renamed] using
        And.intro (fun d _ items _ items' => h d items items') fun items _ items' =>
          h .proto2 items items'
    exact fun _ _ _ h _ hf => SchemaFile.renamed_ofItems h hf
  | messageDecl | fieldDecl | groupDecl | mapFieldDecl | oneofDecl | oneofField | enumDecl
  | enumValue | serviceDecl | rpcDecl | packageStmt => exact Rule.carries_named rfl
  | topItems | messageItems | oneofItems | extendItems | enumItems | serviceItems =>
    exact Rule.carries_items (by simp [Nonterminal.declarations])
  | extendDecl =>
    have hfield {e : Ident} {fs fs' : List FieldDecl}
        (h : OneChanged (FieldDecl.Renamed n old new) fs fs') :
        ExtendDecl.Renamed n old new ⟨e.text, fs, e.position⟩ ⟨e.text, fs', e.position⟩ := .field h
    simp +contextual [rules, Rule.Carries, Action.Carries, Action.Alike, Scope.child, Scope.Renamed,
      Nonterminal.namePart?, Nonterminal.declarations, Nonterminal.Renamed, hfield]
  | topItem =>
    simp +contextual [rules, Rule.Carries, Action.Carries, Action.Alike, Scope.child, Scope.Renamed,
      Nonterminal.namePart?, Nonterminal.declarations, Nonterminal.Renamed, TopItem.Renamed.package,
      TopItem.Renamed.message, TopItem.Renamed.enum, TopItem.Renamed.service,
      TopItem.Renamed.extend]
  | messageItem =>
    simp +contextual [rules, Rule.Carries, Action.Carries, Action.Alike, Scope.child, Scope.Renamed,
      Nonterminal.namePart?, Nonterminal.declarations, Nonterminal.Renamed,
      MessageItem.Renamed.field, MessageItem.Renamed.group, MessageItem.Renamed.oneof,
      MessageItem.Renamed.message, MessageItem.Renamed.enum, MessageItem.Renamed.extend]
  | enumItem | serviceItem | oneofItem | extendItem =>
    simp +contextual [rules, Rule.Carries, Action.Carries, Action.Alike, Scope.child, Scope.Renamed,
      Nonterminal.namePart?, Nonterminal.declarations, Nonterminal.Renamed, EnumItem.Renamed.value,
      ServiceItem.Renamed.method, OneChanged.singleton]
  | _ =>
    refine fun r _ => Rule.carries_of_child (fun s => ?_) r
    rcases s with t | s
    · rfl
    · simp [Scope.child, Nonterminal.namePart?, Nonterminal.declarations]

theorem Rule.carries_of_mem (scope : Scope) {m : Nonterminal} (r : Rule m) (hr : r ∈ rules m) :
    r.Carries n old new scope := by
  cases scope with
  | other => exact Rule.carries_of_child (fun _ => rfl) r
  | naming d => exact Rule.carries_naming d r hr
  | declaring => exact Rule.carries_declaring r hr

end

/-! ## The rules of the dialects -/

theorem MessageDecl.forall_iff {P : MessageDecl → Prop} {m : MessageDecl} :
    m.Forall P ↔ P m ∧ ∀ x ∈ m.messages, x.Forall P := by
  obtain ⟨name, fields, messages, enums, extendBlocks, oneofs, options, extensionRanges,
    reservedRanges, reservedNames, position⟩ := m
  rw [Forall, forallIn_iff]

section

variable {n : Nonterminal} {old : Ident} {new : String} {dialect : Dialect}

theorem FieldDecl.Renamed.problem? {f f' : FieldDecl} (h : FieldDecl.Renamed n old new f f')
    (hf : f.problem? dialect = none) : f'.problem? dialect = none := by
  obtain ⟨-, -, -, rfl⟩ := h
  obtain ⟨name, number, shape, label, options, oneof, position⟩ := f
  cases shape <;> cases dialect <;> grind [FieldDecl.problem?]

theorem FieldDecl.Regrouped.problem? {f f' : FieldDecl} (h : FieldDecl.Regrouped old new f f')
    (hf : f.problem? dialect = none) : f'.problem? dialect = none := by
  obtain ⟨hshape, -, -, rfl⟩ := h
  cases dialect <;> grind [FieldDecl.problem?]

/-- A member of a oneof stays one. -/
theorem FieldDecl.problem?_marked {f : FieldDecl} {o : String} (h : f.oneof = some o) :
    FieldDecl.problem? dialect { f with oneof := some new } = f.problem? dialect := by
  simp [FieldDecl.problem?, h]

theorem ExtendDecl.Renamed.keeps {e e' : ExtendDecl} (h : ExtendDecl.Renamed n old new e e')
    (he : ∀ f ∈ e.fields, f.problem? dialect = none) :
    ∀ f ∈ e'.fields, f.problem? dialect = none := by
  cases h with
  | field h => exact h.forall_mem (fun _ _ hf => hf.problem?) he

/-- The fields of a message keep the rules of their dialect under other names. -/
theorem MessageDecl.Renamed.keeps {m m' : MessageDecl} (h : MessageDecl.Renamed n old new m m')
    (hm : m.Forall (MessageDecl.ForallFields fun f => f.problem? dialect = none)) :
    m'.Forall (MessageDecl.ForallFields fun f => f.problem? dialect = none) := by
  induction h with
  | own | enum =>
    rw [MessageDecl.forall_iff] at hm ⊢
    exact hm
  | field h =>
    rw [MessageDecl.forall_iff] at hm ⊢
    exact ⟨⟨h.forall_mem (fun _ _ hf => hf.problem?) hm.1.1, hm.1.2⟩, hm.2⟩
  | group hn hfield hmessage =>
    rw [MessageDecl.forall_iff] at hm ⊢
    refine ⟨⟨hfield.forall_mem (fun _ _ hf => hf.problem?) hm.1.1, hm.1.2⟩, ?_⟩
    refine hmessage.forall_mem (fun a b hab ha => ?_) hm.2
    rw [MessageDecl.forall_iff] at ha ⊢
    rwa [hab.eq]
  | @oneof m before members behind os ps hn hfields honeofs hmembers hothers =>
    rw [MessageDecl.forall_iff] at hm ⊢
    obtain ⟨⟨hall, hblocks⟩, hnested⟩ := hm
    rw [hfields, List.forall_mem_append, List.forall_mem_append] at hall
    refine ⟨⟨?_, hblocks⟩, hnested⟩
    simp only [List.forall_mem_append, List.forall_mem_map]
    refine ⟨hall.1, fun f hf => ?_, hall.2.2⟩
    rw [FieldDecl.problem?_marked (hmembers f hf)]
    exact hall.2.1 f hf
  | extend h =>
    rw [MessageDecl.forall_iff] at hm ⊢
    exact ⟨⟨hm.1.1, h.forall_mem (fun _ _ he => he.keeps) hm.1.2⟩, hm.2⟩
  | message hmessages _ ih =>
    rw [MessageDecl.forall_iff] at hm ⊢
    rw [hmessages, List.forall_mem_append, List.forall_mem_cons] at hm
    refine ⟨hm.1, ?_⟩
    rw [List.forall_mem_append, List.forall_mem_cons]
    exact ⟨hm.2.1, ih hm.2.2.1, hm.2.2.2⟩

/-- A file keeps the rules of its dialect under other names. -/
theorem SchemaFile.Renamed.fault? {f f' : SchemaFile} (h : SchemaFile.Renamed n old new f f')
    (hf : f.fault? = none) : f'.fault? = none := by
  rw [SchemaFile.fault?_eq_none_iff] at hf ⊢
  obtain ⟨hmessages, hblocks⟩ := hf
  rw [MessageDecl.forallIn_iff] at hmessages
  cases h with
  | package | enum | service => exact ⟨MessageDecl.forallIn_iff.mpr hmessages, hblocks⟩
  | message h =>
    exact ⟨MessageDecl.forallIn_iff.mpr (h.forall_mem (fun _ _ hm => hm.keeps) hmessages), hblocks⟩
  | extend h =>
    exact ⟨MessageDecl.forallIn_iff.mpr hmessages, h.forall_mem (fun _ _ he => he.keeps) hblocks⟩

/-- The name of the file itself does not matter. -/
theorem SchemaFile.Renamed.named {f f' : SchemaFile} (h : SchemaFile.Renamed n old new f f')
    (name : Text) : SchemaFile.Renamed n old new { f with name } { f' with name } := by
  cases h with
  | package hn hpackage h => exact .package hn hpackage h
  | message h => exact .message h
  | enum h => exact .enum h
  | service h => exact .service h
  | extend h => exact .extend h

end

end ProtoSchema
