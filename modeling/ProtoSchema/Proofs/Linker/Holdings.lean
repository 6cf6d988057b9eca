import ProtoSchema.Proofs.Linker.Clean
import ProtoSchema.Proofs.Linker.Coherence
import ProtoSchema.Proofs.Linker.Outline

/-!
# The fields of messages in outlines

An outline lists the fields of all messages together, those of one message interrupted by the entry
messages of its maps. `Holds` says that each message can still be told its fields, by the scopes in
which they stand: they are the ones that were declared in it, in their order. While a message is
being declared, its own fields are still without their message; they stand in the scope `around`.

`Every` takes a property of all declarations in files over to the outline of the files, which has
the entry messages of maps besides.

Where nothing was dropped, a linker holds the outline of its files at certain places. A field belongs
to the message in whose scope it stands, so that the fields of a message are those that its outline
tells (`Linker.Coherent.exists_outline`).
-/

namespace ProtoSchema

namespace Outline

variable {o o' : Outline} {around : Option String} {own own' : List FieldDecl}

/-- The declarations of the fields that stand in a scope. -/
def fieldsIn (o : Outline) (scope : String) : List FieldDecl :=
  (o.fields.filter (·.scope = scope)).map (·.decl)

/-- The messages have different full names, none of which is that of what stands around. -/
def Apart (o : Outline) (around : Option String) : Prop :=
  (o.messages.map (·.fullName)).Nodup ∧ ∀ m ∈ o.messages, around ≠ some m.fullName

/-- Every field stands in a message or in the scope around. If these are told apart, the messages
have the fields that were declared in them, and `own` are those of the scope around. -/
structure Holds (o : Outline) (around : Option String) (own : List FieldDecl) : Prop where
  scopes : ∀ f ∈ o.fields, around = some f.scope ∨ ∃ m ∈ o.messages, m.fullName = f.scope
  own : o.Apart around → ∀ scope ∈ around, o.fieldsIn scope = own
  messages : o.Apart around → ∀ m ∈ o.messages,
    o.fieldsIn m.fullName = m.fields.map FieldDecl.entered

theorem fieldsIn_append (o o' : Outline) (scope : String) :
    (o ++ o').fieldsIn scope = o.fieldsIn scope ++ o'.fieldsIn scope := by
  simp [fieldsIn]

theorem fieldsIn_eq_nil {scope : String} (h : ∀ f ∈ o.fields, f.scope ≠ scope) :
    o.fieldsIn scope = [] := by
  simpa [fieldsIn] using h

theorem Apart.left (h : (o ++ o').Apart around) : o.Apart around := by
  obtain ⟨hnodup, haround⟩ := h
  rw [append_messages, List.map_append] at hnodup
  exact ⟨hnodup.of_append_left, fun m hm => haround m (List.mem_append_left _ hm)⟩

theorem Apart.right (h : (o ++ o').Apart around) : o'.Apart around := by
  obtain ⟨hnodup, haround⟩ := h
  rw [append_messages, List.map_append] at hnodup
  exact ⟨hnodup.of_append_right, fun m hm => haround m (List.mem_append_right _ hm)⟩

theorem Apart.ne (h : (o ++ o').Apart around) {m m' : MessageOutline} (hm : m ∈ o.messages)
    (hm' : m' ∈ o'.messages) : m.fullName ≠ m'.fullName := by
  have hnodup := h.1
  rw [append_messages, List.map_append, List.nodup_append] at hnodup
  exact hnodup.2.2 _ (List.mem_map_of_mem hm) _ (List.mem_map_of_mem hm')

namespace Holds

/-- What has neither messages nor fields holds nothing. -/
theorem of_none (hmessages : o.messages = []) (hfields : o.fields = []) : o.Holds around [] := by
  constructor <;> simp [hmessages, hfields, fieldsIn]

theorem append (h : o.Holds around own) (h' : o'.Holds around own') :
    (o ++ o').Holds around (own ++ own') := by
  refine ⟨?_, ?_, ?_⟩
  · intro f hf
    rcases List.mem_append.mp hf with hf | hf
    · exact (h.scopes f hf).imp_right fun ⟨m, hm, hname⟩ => ⟨m, by simp [hm], hname⟩
    · exact (h'.scopes f hf).imp_right fun ⟨m, hm, hname⟩ => ⟨m, by simp [hm], hname⟩
  · intro hapart scope hscope
    rw [fieldsIn_append, h.own hapart.left scope hscope, h'.own hapart.right scope hscope]
  · intro hapart m hm
    rw [fieldsIn_append]
    -- the other outline has no field in this message: neither its messages nor `around` are it
    rcases List.mem_append.mp hm with hm | hm
    · rw [h.messages hapart.left m hm, fieldsIn_eq_nil, List.append_nil]
      intro f hf heq
      rcases h'.scopes f hf with haround | ⟨m', hm', hname⟩
      · exact hapart.left.2 m hm (heq ▸ haround)
      · exact hapart.ne hm hm' (heq.symm.trans hname.symm)
    · rw [h'.messages hapart.right m hm, fieldsIn_eq_nil, List.nil_append]
      intro f hf heq
      rcases h.scopes f hf with haround | ⟨m', hm', hname⟩
      · exact hapart.right.2 m hm (heq ▸ haround)
      · exact hapart.ne hm' hm (hname.trans heq)

theorem flatten {α : Type} {outline : α → Outline} {own : α → List FieldDecl} (xs : List α)
    (h : ∀ x ∈ xs, (outline x).Holds around (own x)) :
    (Outline.flatten (xs.map outline)).Holds around (xs.flatMap own) := by
  induction xs with
  | nil => exact of_none rfl rfl
  | cons x xs ih =>
    rw [List.map_cons, flatten_cons, List.flatMap_cons]
    exact (h x (by simp)).append (ih fun x' hx' => h x' (by simp [hx']))

/-- Outlines in which the scope around has no fields. -/
theorem flatten_nil {α : Type} {outline : α → Outline} (around : Option String) (xs : List α)
    (h : ∀ x ∈ xs, (outline x).Holds around []) :
    (Outline.flatten (xs.map outline)).Holds around [] := by
  have hnil : xs.flatMap (fun _ => ([] : List FieldDecl)) = [] :=
    List.flatMap_eq_nil_iff.mpr fun _ _ => rfl
  exact hnil ▸ flatten xs h

theorem ofField (f : FieldEntry) : (Outline.ofField f).Holds (some f.scope) [f.decl] := by
  constructor <;> simp [Outline.ofField, Outline.empty, fieldsIn]

/-- A message takes the fields that stand around what it holds. -/
theorem ofMessage {m : MessageOutline}
    (h : o.Holds (some m.fullName) (m.fields.map FieldDecl.entered)) :
    (Outline.ofMessage m ++ o).Holds around [] := by
  have hfields (scope : String) : (Outline.ofMessage m ++ o).fieldsIn scope = o.fieldsIn scope :=
    rfl
  have hinside (hapart : (Outline.ofMessage m ++ o).Apart around) :
      o.Apart (some m.fullName) := by
    refine ⟨hapart.right.1, fun m' hm' heq => ?_⟩
    exact hapart.ne (by simp [Outline.ofMessage]) hm' (Option.some.inj heq)
  have hscopes : ∀ f ∈ o.fields,
      ∃ m' ∈ (Outline.ofMessage m ++ o).messages, m'.fullName = f.scope := by
    intro f hf
    rcases h.scopes f hf with hm | ⟨m', hm', hname⟩
    · exact ⟨m, by simp [Outline.ofMessage], Option.some.inj hm⟩
    · exact ⟨m', by simp [hm'], hname⟩
  refine ⟨fun f hf => .inr (hscopes f hf), ?_, ?_⟩
  · rintro hapart scope rfl
    rw [hfields, fieldsIn_eq_nil]
    intro f hf heq
    obtain ⟨m', hm', hname⟩ := hscopes f hf
    exact hapart.2 m' hm' (by rw [hname, heq])
  · intro hapart m' hm'
    rw [hfields]
    rcases List.mem_append.mp hm' with hm' | hm'
    · obtain rfl : m' = m := List.mem_singleton.mp hm'
      exact h.own (hinside hapart) _ rfl
    · exact h.messages (hinside hapart) m' hm'

end Holds

end Outline

variable {around : Option String}

theorem FieldDecl.outline_holds (file : FileScope) (scope : String) (f : FieldDecl) :
    (f.outline file scope).Holds (some scope) [f.entered] := by
  have hplain (g : FieldDecl) : (Outline.ofField (g.entry file scope)).Holds (some scope) [g] :=
    .ofField (g.entry file scope)
  unfold FieldDecl.outline FieldDecl.entered
  cases f.shape with
  | named => exact hplain f
  | group => exact hplain f
  | map key value position =>
    have hentry : (f.mapOutline file scope key value position).Holds (some scope) [] := by
      rw [FieldDecl.mapOutline, Outline.append_assoc]
      exact .ofMessage ((Outline.Holds.ofField _).append (.ofField _))
    exact hentry.append (hplain (Linker.mapField f))

theorem EnumDecl.outline_holds (file : FileScope) (scope : String) (isNested : Bool)
    (e : EnumDecl) : (e.outline file scope isNested).Holds around [] :=
  .of_none rfl rfl

theorem ExtendDecl.outline_holds (file : FileScope) (scope : String) (e : ExtendDecl) :
    (e.outline file scope).Holds around [] :=
  .of_none rfl rfl

mutual

theorem MessageDecl.outline_holds (file : FileScope) (scope : String) (isNested : Bool)
    (around : Option String) :
    (m : MessageDecl) → (m.outline file scope isNested).Holds around []
  | ⟨name, fields, messages, enums, extendBlocks, _, _, _, _, _, _⟩ => by
    rw [MessageDecl.outline]
    let fullName := Dotted.join scope name
    have henums := Outline.Holds.flatten_nil (some fullName) enums
      fun e _ => e.outline_holds file fullName true
    have hmessages := MessageDecl.outlineAll_holds file fullName true (some fullName) messages
    have hfields := Outline.Holds.flatten fields fun f _ => f.outline_holds file fullName
    have hextends := Outline.Holds.flatten_nil (some fullName) extendBlocks
      fun e _ => e.outline_holds file fullName
    refine .ofMessage ?_
    simpa [List.map_eq_flatMap] using henums.append (hmessages.append (hfields.append hextends))

theorem MessageDecl.outlineAll_holds (file : FileScope) (scope : String) (isNested : Bool)
    (around : Option String) :
    (ms : List MessageDecl) → (MessageDecl.outlineAll file scope isNested ms).Holds around []
  | [] => .of_none rfl rfl
  | m :: ms => by
    rw [MessageDecl.outlineAll]
    exact (MessageDecl.outline_holds file scope isNested around m).append
      (MessageDecl.outlineAll_holds file scope isNested around ms)

end

theorem ServiceDecl.outline_holds (file : FileScope) (s : ServiceDecl) :
    (s.outline file).Holds around [] := by
  have hmethods := Outline.Holds.flatten_nil around s.methods fun m _ =>
    Outline.Holds.of_none (o := m.outline file (Dotted.join file.package s.name)) rfl rfl
  exact (Outline.Holds.of_none rfl rfl).append hmethods

theorem SchemaFile.outline_holds (f : SchemaFile) : f.outline.Holds around [] := by
  have hpackage : f.scope.packageOutline.Holds around [] := .of_none rfl rfl
  have hmessages :=
    MessageDecl.outlineAll_holds f.scope f.scope.package false around f.messages
  have henums := Outline.Holds.flatten_nil around f.enums
    fun e _ => e.outline_holds f.scope f.scope.package false
  have hextends := Outline.Holds.flatten_nil around f.extendBlocks
    fun e _ => e.outline_holds f.scope f.scope.package
  have hservices := Outline.Holds.flatten_nil around f.services
    fun s _ => s.outline_holds f.scope
  exact hpackage.append (hmessages.append (henums.append (hextends.append hservices)))

/-- The outline of files holds the fields of every message, where no two messages have one name. -/
theorem Outline.holds_ofFiles (files : List SchemaFile) : (Outline.ofFiles files).Holds none [] :=
  .flatten_nil none files fun f _ => f.outline_holds

/-! ## Properties of all declarations -/

/-- What holds of the fields of all messages, of the values of all enums and of all extensions. -/
structure Outline.Every (P : FileScope → List FieldDecl → Prop)
    (Q : FileScope → List EnumValueDecl → Prop) (R : FieldDecl → Prop) (o : Outline) : Prop where
  messages : ∀ m ∈ o.messages, P m.file m.fields
  enums : ∀ e ∈ o.enums, Q e.file e.values
  extensions : ∀ e ∈ o.extensions, R e.field.decl

/-- What holds of the fields, enums and extensions in a message, other than in nested messages. -/
structure MessageDecl.Every (P : List FieldDecl → Prop) (Q : List EnumValueDecl → Prop)
    (R : FieldDecl → Prop) (m : MessageDecl) : Prop where
  fields : P m.fields
  enums : ∀ e ∈ m.enums, Q e.values
  extensions : ∀ e ∈ m.extendBlocks, ∀ f ∈ e.fields, R f

/-- What holds of the fields of all messages in a file, of its enums and of its extensions. -/
structure SchemaFile.Every (P : List FieldDecl → Prop) (Q : List EnumValueDecl → Prop)
    (R : FieldDecl → Prop) (f : SchemaFile) : Prop where
  messages : MessageDecl.ForallIn (MessageDecl.Every P Q R) f.messages
  enums : ∀ e ∈ f.enums, Q e.values
  extensions : ∀ e ∈ f.extendBlocks, ∀ x ∈ e.fields, R x

variable {P : FileScope → List FieldDecl → Prop} {Q : FileScope → List EnumValueDecl → Prop}
variable {R : FieldDecl → Prop}

namespace Outline.Every

variable {o o' : Outline}

/-- Nothing is to be shown of what has neither messages nor enums nor extensions. -/
theorem of_none (hmessages : o.messages = []) (henums : o.enums = [])
    (hextensions : o.extensions = []) : o.Every P Q R := by
  constructor <;> simp [hmessages, henums, hextensions]

theorem append (h : o.Every P Q R) (h' : o'.Every P Q R) : (o ++ o').Every P Q R := by
  refine ⟨?_, ?_, ?_⟩
  · exact List.forall_mem_append.mpr ⟨h.messages, h'.messages⟩
  · exact List.forall_mem_append.mpr ⟨h.enums, h'.enums⟩
  · exact List.forall_mem_append.mpr ⟨h.extensions, h'.extensions⟩

theorem flatten {α : Type} {outline : α → Outline} {xs : List α}
    (h : ∀ x ∈ xs, (outline x).Every P Q R) :
    (Outline.flatten (xs.map outline)).Every P Q R := by
  induction xs with
  | nil => exact of_none rfl rfl rfl
  | cons x xs ih =>
    rw [List.map_cons, flatten_cons]
    exact (h x (by simp)).append (ih fun x' hx' => h x' (by simp [hx']))

theorem ofMessage {m : MessageOutline} (h : P m.file m.fields) :
    (Outline.ofMessage m).Every P Q R := by
  constructor <;> simp [Outline.ofMessage, Outline.empty, h]

end Outline.Every

/-- What holds of the fields of every entry message in a file. -/
abbrev ForEntries (P : List FieldDecl → Prop) : Prop :=
  ∀ f key value position, P [Linker.keyField f key, Linker.valueField f value position]

variable {file : FileScope}

theorem FieldDecl.outline_every (hentry : ForEntries (P file)) (scope : String) (f : FieldDecl) :
    (f.outline file scope).Every P Q R := by
  unfold FieldDecl.outline
  cases f.shape with
  | named | group => exact .of_none rfl rfl rfl
  | map key value position =>
    have hmessage : (f.mapOutline file scope key value position).Every P Q R :=
      .append (.append (.ofMessage (hentry f key value position)) (.of_none rfl rfl rfl))
        (.of_none rfl rfl rfl)
    exact hmessage.append (.of_none rfl rfl rfl)

theorem EnumDecl.outline_every (scope : String) (isNested : Bool) {e : EnumDecl}
    (h : Q file e.values) : (e.outline file scope isNested).Every P Q R := by
  constructor <;> simp [EnumDecl.outline, Outline.empty, h]

theorem ExtendDecl.outline_every (scope : String) {e : ExtendDecl} (h : ∀ f ∈ e.fields, R f) :
    (e.outline file scope).Every P Q R := by
  constructor
  · simp [ExtendDecl.outline, Outline.empty]
  · simp [ExtendDecl.outline, Outline.empty]
  · simpa [ExtendDecl.outline, Linker.extensionEntry] using h

theorem ServiceDecl.outline_every (s : ServiceDecl) : (s.outline file).Every P Q R := by
  have hmethods : (Outline.flatten (s.methods.map
      (MethodDecl.outline file (Dotted.join file.package s.name)))).Every P Q R :=
    .flatten fun m _ => .of_none rfl rfl rfl
  exact .append (.of_none rfl rfl rfl) hmethods

mutual

theorem MessageDecl.outline_every (hentry : ForEntries (P file)) (scope : String)
    (isNested : Bool) :
    (m : MessageDecl) → m.Forall (MessageDecl.Every (P file) (Q file) R) →
      (m.outline file scope isNested).Every P Q R
  | ⟨name, fields, messages, enums, extendBlocks, _, _, _, _, _, _⟩, h => by
    rw [MessageDecl.Forall] at h
    rw [MessageDecl.outline]
    have hmessages := MessageDecl.outlineAll_every hentry (Dotted.join scope name) true messages
      h.2
    have henums : (Outline.flatten (enums.map
        (EnumDecl.outline file (Dotted.join scope name) true))).Every P Q R :=
      .flatten fun e he => e.outline_every _ true (h.1.enums e he)
    have hfields : (Outline.flatten (fields.map
        (FieldDecl.outline file (Dotted.join scope name)))).Every P Q R :=
      .flatten fun f _ => f.outline_every hentry _
    have hextends : (Outline.flatten (extendBlocks.map
        (ExtendDecl.outline file (Dotted.join scope name)))).Every P Q R :=
      .flatten fun e he => e.outline_every _ (h.1.extensions e he)
    exact .append (.ofMessage h.1.fields)
      (henums.append (hmessages.append (hfields.append hextends)))

theorem MessageDecl.outlineAll_every (hentry : ForEntries (P file)) (scope : String)
    (isNested : Bool) :
    (ms : List MessageDecl) → MessageDecl.ForallIn (MessageDecl.Every (P file) (Q file) R) ms →
      (MessageDecl.outlineAll file scope isNested ms).Every P Q R
  | [], _ => .of_none rfl rfl rfl
  | m :: ms, h => by
    rw [MessageDecl.ForallIn] at h
    rw [MessageDecl.outlineAll]
    exact (MessageDecl.outline_every hentry scope isNested m h.1).append
      (MessageDecl.outlineAll_every hentry scope isNested ms h.2)

end

/-- What holds of everything in a file holds of everything in its outline. -/
theorem SchemaFile.outline_every {f : SchemaFile} (hentry : ForEntries (P f.scope))
    (h : f.Every (P f.scope) (Q f.scope) R) : f.outline.Every P Q R := by
  have hmessages := MessageDecl.outlineAll_every hentry f.scope.package false f.messages h.messages
  have henums : (Outline.flatten (f.enums.map
      (EnumDecl.outline f.scope f.scope.package false))).Every P Q R :=
    .flatten fun e he => e.outline_every _ false (h.enums e he)
  have hextends : (Outline.flatten (f.extendBlocks.map
      (ExtendDecl.outline f.scope f.scope.package))).Every P Q R :=
    .flatten fun e he => e.outline_every _ (h.extensions e he)
  have hservices : (Outline.flatten (f.services.map (ServiceDecl.outline f.scope))).Every P Q R :=
    .flatten fun s _ => s.outline_every
  exact .append (.of_none rfl rfl rfl)
    (hmessages.append (henums.append (hextends.append hservices)))

theorem Outline.every_ofFiles {files : List SchemaFile}
    (hentry : ∀ f ∈ files, ForEntries (P f.scope))
    (h : ∀ f ∈ files, f.Every (P f.scope) (Q f.scope) R) : (Outline.ofFiles files).Every P Q R :=
  .flatten fun f hf => f.outline_every (hentry f hf) (h f hf)

/-- What the grammar promises of everything in an outline: maps have no labels and are in no oneof,
and no extensions are maps. -/
abbrev Outline.Grammatical (o : Outline) : Prop :=
  o.Every (fun _ fields => ∀ f ∈ fields, f.isMap → f.label = none ∧ f.oneof = none)
    (fun _ _ => True) fun f => f.isMap = false

theorem Outline.grammatical_ofFiles {files : List SchemaFile} (h : ∀ f ∈ files, f.Grammatical) :
    (Outline.ofFiles files).Grammatical := by
  refine Outline.every_ofFiles (fun f _ g key value position => ?_) fun f hf => ⟨?_, by simp, ?_⟩
  · simp [Linker.keyField, Linker.valueField, FieldDecl.isMap]
  · exact MessageDecl.ForallIn.imp (fun m hm => ⟨hm.maps, by simp, hm.extensions⟩) f.messages
      (h f hf).messages
  · exact (h f hf).extensions

/-! ## Linkers that hold an outline -/

namespace Linker

variable {l : Linker} {o : Outline}

/-- What is nested is nested in the message in whose scope it stands. -/
theorem Coherent.parent_eq_iff (hl : l.Coherent) {file : FileScope} {scope : String}
    {parent : Option Nat} (hscope : l.inventory.Encloses file scope parent) {i : Nat}
    {m : MessageHeader} (hm : l.inventory.messages[i]? = some m) :
    parent = some i ↔ parent.isSome ∧ scope = m.fullName := by
  cases parent with
  | none => simp
  | some j =>
    obtain ⟨m', hm', rfl, -⟩ := hscope
    constructor
    · intro heq
      obtain rfl := Option.some.inj heq
      exact ⟨rfl, by rw [Option.some.inj (hm'.symm.trans hm)]⟩
    · rintro ⟨-, hfull⟩
      have hsame := hl.indexed.eq_of_fullName (hl.indexed.messageDefinition_mem hm')
        (hl.indexed.messageDefinition_mem hm) hfull
      exact congrArg Definition.place hsame

/-- Every field belongs to the message in whose scope it stands. -/
theorem Coherent.owner_eq_iff (hl : l.Coherent) {f : FieldEntry} (hf : f ∈ l.inventory.fields)
    {i : Nat} {m : MessageHeader} (hm : l.inventory.messages[i]? = some m) :
    f.owner = some i ↔ f.scope = m.fullName := by
  obtain ⟨howner, hscope, -⟩ := hl.nested.fields f hf
  rw [hl.parent_eq_iff hscope hm, and_iff_right howner]

/-- The fields of a message are those that stand in its scope. -/
theorem Coherent.map_decl_filter_owner (hl : l.Coherent) (h : l.inventory.Outlined o) {i : Nat}
    {m : MessageHeader} (hm : l.inventory.messages[i]? = some m) :
    (l.inventory.fields.filter (·.owner = some i)).map (·.decl) = o.fieldsIn m.fullName := by
  have howner : l.inventory.fields.filter (·.owner = some i) =
      l.inventory.fields.filter (·.scope = m.fullName) := by
    apply List.filter_congr
    intro f hf
    simp only [hl.owner_eq_iff hf hm]
  rw [howner, Outline.fieldsIn, ← h.fields, List.filter_map, List.map_map]
  rfl

/-- The messages of the outline have different full names. -/
theorem Coherent.apart_of_outlined (hl : l.Coherent) (h : l.inventory.Outlined o) :
    o.Apart none := by
  have hnames := congrArg (List.map (·.fullName)) h.messages
  simp only [List.map_map] at hnames
  have heq : l.inventory.messages.map (·.fullName) = o.messages.map (·.fullName) := hnames
  exact ⟨heq ▸ hl.indexed.nodup_messages, by simp⟩

/-- A message has the fields that its outline tells, in their order. -/
theorem Coherent.exists_outline (hl : l.Coherent) (h : l.inventory.Outlined o)
    (hholds : o.Holds none []) {i : Nat} {m : MessageHeader}
    (hm : l.inventory.messages[i]? = some m) :
    ∃ mo ∈ o.messages, mo.toMessageSite = m.site ∧
      (l.inventory.fields.filter (·.owner = some i)).map (·.decl) =
        mo.fields.map FieldDecl.entered := by
  have hsite : m.site ∈ o.messages.map MessageOutline.toMessageSite :=
    h.messages ▸ List.mem_map_of_mem (List.mem_of_getElem? hm)
  obtain ⟨mo, hmo, hsame⟩ := List.mem_map.mp hsite
  have hfull : mo.fullName = m.fullName := (congrArg MessageSite.fullName hsame :)
  refine ⟨mo, hmo, hsame, ?_⟩
  rw [hl.map_decl_filter_owner h hm, ← hfull, hholds.messages (hl.apart_of_outlined h) mo hmo]

end Linker

end ProtoSchema
