import ProtoSchema.Proofs.Linker.Diagnostics

/-!
# What linking gives

The tables of a linker are a function of its inventory and of what the references in it mean
(`linkedTables`), and linking ends with them unless a default overflows. It notes nothing if and
only if every reference has a meaning, every extension is attached, and every option that is looked
at can be read (`Resolved`).
-/

namespace ProtoSchema

/-- The label of a declared field; without one it is optional. -/
def FieldEntry.label (f : FieldEntry) : Label := f.decl.label.getD .optional

/-- Whether a field is packed. -/
def FieldEntry.packed (f : FieldEntry) : Bool :=
  if f.label ≠ .repeated ∨ ¬ f.link.type.isPackable then false
  else ((f.decl.option? "packed").bind (·.value.value.flag?)).getD (f.file.dialect = .proto3)

/-- Whether the packing of a field can be told. -/
def FieldEntry.PackedFits (f : FieldEntry) : Prop :=
  f.label = .repeated → f.link.type.isPackable → ∀ o, f.decl.option? "packed" = some o →
    o.value.value.flag?.isSome

namespace Linker

variable {l l' l₀ : Linker}

/-! ## Fields -/

/-- The default that a field asks for and can have. -/
def default? (l : Linker) (f : FieldEntry) : Option DefaultValue :=
  (f.decl.option? "default").bind fun o => (l.defaultOf f f.label o.value.value).toOption.join

/-- Whether a field can have the default it asks for, if it asks for one. -/
def DefaultFits (l : Linker) (f : FieldEntry) : Prop :=
  ∀ o, f.decl.option? "default" = some o → ∃ d, l.defaultOf f f.label o.value.value = .ok d

/-- Whether linking stops at the default of a field. -/
def Overflows (l : Linker) (f : FieldEntry) : Prop :=
  ∃ o, f.decl.option? "default" = some o ∧
    ∃ e, l.defaultOf f f.label o.value.value = .error (.failure e)

/-- The record of a linked field; an extension has a scope. -/
def fieldRecord (l : Linker) (f : FieldEntry) (extensionScope : Option String) : FieldRecord :=
  ⟨f.decl.name, f.fullName, f.decl.number, f.link.type, f.link.typeName, f.label, f.packed,
    l.default? f, f.owner, f.link.messageType, f.link.enumType, f.decl.oneof, extensionScope⟩

/-- A default depends on the enums alone. -/
theorem defaultOf_congr (h : l'.enums = l.enums) (f : FieldEntry) (label : Label) (value : Value) :
    l'.defaultOf f label value = l.defaultOf f label value := by
  simp [defaultOf, convertDefault, enumDefault, firstValuePlace, h]

theorem fieldDefault_eq (l : Linker) (f : FieldEntry) (h : ¬ l.Overflows f) :
    ∃ reports, l.fieldDefault f f.label = ({ l with reports }, .ok (l.default? f)) ∧
      (reports = [] ↔ l.reports = [] ∧ l.DefaultFits f) := by
  unfold fieldDefault default? DefaultFits
  cases hoption : f.decl.option? "default" with
  | none => exact ⟨l.reports, rfl, by simp⟩
  | some o =>
    simp only [Option.bind_some]
    cases hdefault : l.defaultOf f f.label o.value.value with
    | ok d => exact ⟨l.reports, by cases d <;> rfl, by simp [hdefault]⟩
    | error refusal =>
      cases refusal with
      | problem p => exact ⟨_, rfl, by simp [hdefault]⟩
      | failure e => exact absurd ⟨o, hoption, e, hdefault⟩ h

theorem fieldDefault_of_overflows {f : FieldEntry} (h : l.Overflows f) :
    ∃ e, l.fieldDefault f f.label = (l, .error e) := by
  obtain ⟨o, hoption, e, hdefault⟩ := h
  exact ⟨e, by simp [fieldDefault, hoption, hdefault]⟩

theorem fieldPacked_eq (l : Linker) (f : FieldEntry) :
    ∃ reports, l.fieldPacked f f.label = ({ l with reports }, f.packed) ∧
      (reports = [] ↔ l.reports = [] ∧ f.PackedFits) := by
  unfold fieldPacked FieldEntry.packed FieldEntry.PackedFits
  by_cases hskip : f.label ≠ .repeated ∨ ¬ f.link.type.isPackable
  · rw [if_pos hskip, if_pos hskip]
    refine ⟨l.reports, rfl, ?_⟩
    rcases hskip with h | h <;> simp [h]
  · rw [if_neg hskip, if_neg hskip]
    rw [not_or, not_not, not_not] at hskip
    cases hoption : f.decl.option? "packed" with
    | none => exact ⟨l.reports, rfl, by simp⟩
    | some o =>
      cases hflag : o.value.value.flag? with
      | some b => exact ⟨l.reports, by simp [hflag], by simp [hflag]⟩
      | none =>
        exact ⟨_, by simp [hflag, Linker.report, note]; rfl, by simp [hflag, hskip.1, hskip.2]⟩

/-- Fields become records, and nothing is noted if their options can be read. -/
theorem fieldRecords_eq (fs : List (FieldEntry × Option String))
    (h : ∀ f ∈ fs, ¬ l.Overflows f.1) :
    ∃ reports, l.fieldRecords fs =
        ({ l with reports }, .ok (fs.map fun f => l.fieldRecord f.1 f.2)) ∧
      (reports = [] ↔ l.reports = [] ∧ ∀ f ∈ fs, l.DefaultFits f.1 ∧ f.1.PackedFits) := by
  induction fs generalizing l with
  | nil => exact ⟨l.reports, rfl, by simp⟩
  | cons f fs ih =>
    obtain ⟨f, extensionScope⟩ := f
    obtain ⟨reports₁, hdefault, hclean₁⟩ := fieldDefault_eq l f (h (f, extensionScope) (by simp))
    obtain ⟨reports₂, hpacked, hclean₂⟩ := fieldPacked_eq { l with reports := reports₁ } f
    obtain ⟨reports₃, hrecords, hclean₃⟩ :=
      ih (l := { l with reports := reports₂ }) fun f' hf' => h f' (by simp [hf'])
    refine ⟨reports₃, ?_, ?_⟩
    · rw [Linker.fieldRecords]
      simp only [FieldEntry.label] at hdefault hpacked
      simp only [hdefault, hpacked, hrecords]
      rfl
    · rw [hclean₃, hclean₂, hclean₁, List.forall_mem_cons, and_assoc, and_assoc, and_assoc]
      rfl

/-- Linking stops at the first default that overflows. -/
theorem fieldRecords_of_overflows {fs : List (FieldEntry × Option String)}
    (h : ∃ f ∈ fs, l.Overflows f.1) : ∃ l' e, l.fieldRecords fs = (l', .error e) := by
  induction fs generalizing l with
  | nil => simp at h
  | cons f fs ih =>
    obtain ⟨f, extensionScope⟩ := f
    rw [Linker.fieldRecords]
    by_cases hf : l.Overflows f
    · obtain ⟨e, hdefault⟩ := fieldDefault_of_overflows hf
      simp only [FieldEntry.label] at hdefault
      exact ⟨l, e, by simp only [hdefault]⟩
    · obtain ⟨reports₁, hdefault, -⟩ := fieldDefault_eq l f hf
      obtain ⟨reports₂, hpacked, -⟩ := fieldPacked_eq { l with reports := reports₁ } f
      have hlater : ∃ f ∈ fs, l.Overflows f.1 := by simpa [hf] using h
      obtain ⟨l', e, hrecords⟩ := ih (l := { l with reports := reports₂ }) hlater
      simp only [FieldEntry.label] at hdefault hpacked
      exact ⟨l', e, by simp only [hdefault, hpacked, hrecords]; rfl⟩

/-! ## Tables -/

/-- The fields of all messages and the extensions attached to them, in the order of their places. -/
def members (l : Linker) : List FieldEntry := l.inventory.fields ++ l.attached

/-- The records of all members. -/
def memberRecords (l : Linker) : List FieldRecord :=
  (l.inventory.fields.map fun f => l.fieldRecord (l.linked f) none) ++
    l.attached.map fun f => l.fieldRecord (l.linked f) (some f.scope)

/-- The record of the message at place `i`. -/
def linkedMessage (l : Linker) (i : Nat) (m : MessageHeader) : MessageRecord :=
  let a := l.inventory
  let own := a.fields.findIdxs (·.owner = some i)
  let records := l.memberRecords.filter (·.containingType = some i)
  ⟨m.name, m.fullName, m.file.name, m.parent, own,
    l.attached.findIdxs (·.owner = some i) a.fields.length,
    a.messages.findIdxs (·.parent = some i), a.enums.findIdxs (·.parent = some i),
    .ofLast ((records.map fun f => (f.number : Int)).zip
      (l.members.findIdxs (·.owner = some i))),
    .ofLast ((records.map (·.name)).zip own), m.isMapEntry⟩

/-- The records of the values of all enums. -/
def valueRecords (l : Linker) : List EnumValueRecord :=
  l.enums.toList.zipIdx.flatMap fun e => enumValueRecords e.2 e.1

/-- The tables of everything that has been declared. -/
def linkedTables (l : Linker) : Tables where
  messages := (l.inventory.messages.mapIdx l.linkedMessage).toArray
  fields := l.memberRecords.toArray
  enums := l.enumRecords.toArray
  enumValues := l.valueRecords.toArray
  methods := (l.inventory.methods.map l.methodRecord).toArray
  messagesByName := nameIndex (l.inventory.messages.map (·.fullName))
  enumsByName := nameIndex (l.enumRecords.map (·.fullName))
  methodsByName := nameIndex (l.inventory.methods.map (·.fullName))

/-- Every reference has a meaning, every extension belongs to a message, and the options of all
fields can be read. -/
structure Resolved (l : Linker) : Prop where
  attached : l.attached.length = l.inventory.extensions.length
  types : ∀ f ∈ l.members, (l.typeLink? f).isSome
  methods : ∀ m ∈ l.inventory.methods, l.MethodEndFits m m.decl.inputType ∧
    l.MethodEndFits m m.decl.outputType
  options : ∀ f ∈ l.members, l.DefaultFits (l.linked f) ∧ (l.linked f).PackedFits

/-- The members of a message are at the places of the records that belong to it. -/
theorem findIdxs_memberRecords (l : Linker) (i : Nat) :
    l.memberRecords.findIdxs (·.containingType = some i) =
      l.members.findIdxs (·.owner = some i) := by
  simp [memberRecords, members, List.findIdxs_append, List.findIdxs_map, Function.comp_def,
    fieldRecord]

/-- Every message gets its record once all members have theirs. -/
theorem messageRecord_eq {i : Nat} {m : MessageEntry}
    (hm : ListedAt l.inventory l.attached i m) :
    messageRecord l.memberRecords.toArray m = .ok (l.linkedMessage i m.header) := by
  have hplaces : m.fields ++ m.extensions =
      l.memberRecords.findIdxs (·.containingType = some i) := by
    rw [findIdxs_memberRecords, members, List.findIdxs_append, hm.fields, hm.extensions,
      Nat.zero_add]
  unfold messageRecord
  simp only [hplaces, List.getElem?_toArray, mapM_getElem?_findIdxs]
  rw [findIdxs_memberRecords, linkedMessage, hm.fields, hm.extensions, hm.messages, hm.enums]
  rfl

/-- The tables are made from the records of the members. -/
theorem tables_eq
    (hlisted : ∀ i m, l.messages[i]? = some m → ListedAt l₀.inventory l₀.attached i m)
    (hmessages : l.inventory.messages = l₀.inventory.messages) (henums : l.enums = l₀.enums) :
    l.tables l₀.memberRecords (l₀.inventory.methods.map l₀.methodRecord) = .ok l₀.linkedTables := by
  have hrecords : l.messages.toList.mapM (messageRecord l₀.memberRecords.toArray) =
      .ok (l₀.inventory.messages.mapIdx l₀.linkedMessage) := by
    have hmapIdx : l₀.inventory.messages.mapIdx l₀.linkedMessage =
        l.messages.toList.mapIdx fun i m => l₀.linkedMessage i m.header := by
      rw [← hmessages]
      apply List.ext_getElem?
      intro i
      simp [inventory, Option.map_map, Function.comp_def]
    rw [hmapIdx]
    refine mapM_eq_mapIdx fun i m hm => messageRecord_eq (hlisted i m ?_)
    simpa using hm
  have henumRecords : l.enumRecords = l₀.enumRecords := by
    unfold enumRecords firstValuePlace
    rw [henums]
  have hnames : l₀.inventory.messages.map (·.fullName) =
      (l₀.inventory.messages.mapIdx l₀.linkedMessage).map (·.fullName) :=
    map_eq_map_mapIdx (by intros; rfl) _
  simp only [tables, hrecords, henumRecords, henums]
  simp [Except.map, linkedTables, valueRecords, ← hnames, methodRecord, Function.comp_def]

/-! ## Linking -/

/-- The members, and the scopes of those that are extensions. -/
def scopedMembers (l : Linker) : List (FieldEntry × Option String) :=
  (l.inventory.fields.map fun f => (f, none)) ++ l.attached.map fun f => (f, some f.scope)

theorem map_fst_scopedMembers (l : Linker) : l.scopedMembers.map Prod.fst = l.members := by
  simp [scopedMembers, members, Function.comp_def]

theorem memberRecords_eq (l : Linker) :
    l.memberRecords = l.scopedMembers.map fun f => l.fieldRecord (l.linked f.1) f.2 := by
  simp [scopedMembers, memberRecords, Function.comp_def]

/-- The members with their links, and the scopes of those that are extensions. -/
def linkedMembers (l : Linker) : List (FieldEntry × Option String) :=
  (l.inventory.fields.map fun f => (l.linked f, none)) ++
    l.attached.map fun f => (l.linked f, some f.scope)

theorem fieldRecord_congr (h : l'.enums = l.enums) : l'.fieldRecord = l.fieldRecord := by
  funext f extensionScope
  simp [fieldRecord, default?, defaultOf_congr h]

/-- A linker in which all references of `l₀` have been followed, and nothing but the options of the
fields is left to look at. -/
structure Followed (l₀ l : Linker) : Prop where
  knows : Knows l₀ l
  enums : l.enums = l₀.enums
  messages : l.inventory.messages = l₀.inventory.messages
  listed : ∀ i m, l.messages[i]? = some m → ListedAt l₀.inventory l₀.attached i m
  clean : l.reports = [] ↔ l₀.reports = [] ∧
    l₀.attached.length = l₀.inventory.extensions.length ∧
    (∀ f ∈ l₀.members, (l₀.typeLink? f).isSome) ∧
    ∀ m ∈ l₀.inventory.methods, l₀.MethodEndFits m m.decl.inputType ∧
      l₀.MethodEndFits m m.decl.outputType
  notes : l.reports = l₀.reports ++ l₀.followNotes

theorem findIdxs_map_linked (l : Linker) (fs : List FieldEntry) (i : Nat) :
    (fs.map l.linked).findIdxs (·.owner = some i) = fs.findIdxs (·.owner = some i) := by
  rw [List.findIdxs_map]
  rfl

theorem Coherent.knows (hl : l.Coherent) : Knows l l :=
  ⟨hl.unlinked.files, rfl, rfl, by simp [hl.unlinked.visible]⟩

/-- With the types of all fields resolved, no extension is attached yet. -/
theorem Coherent.linkFields (hl : l.Coherent) :
    Attaching l l.linkFields [] [] ∧ l.linkFields.extensions = l.extensions ∧
      (l.linkFields.reports = [] ↔
        l.reports = [] ∧ ∀ f ∈ l.inventory.fields, (l.typeLink? f).isSome) ∧
      l.linkFields.reports = l.reports ++ l.inventory.fields.flatMap l.typeNotes := by
  have hnotes := hl.knows.reports_resolveTypes hl.unlinked.inventory.fields
  obtain ⟨l₁, heq, hlooks⟩ := hl.knows.resolveTypes hl.unlinked.inventory.fields
  rw [heq] at hnotes
  have hknows := hlooks.knows
  have hclean := hlooks.clean
  obtain ⟨visible, reports, rfl⟩ := hlooks.rest
  have hfields : l.linkFields =
      { l with visible, reports, fields := (l.inventory.fields.map l.linked).toArray } := by
    unfold Linker.linkFields
    rw [show l.fields.toList = l.inventory.fields from rfl, heq]
  rw [hfields]
  refine ⟨⟨⟨hknows.distinct, hknows.files, hknows.definitions, hknows.visible⟩, rfl, ?_, rfl,
    by simp⟩, rfl, hclean, hnotes⟩
  intro i m hm
  obtain ⟨hlist, hmessages, henums, hextensions⟩ := hl.listed i m hm
  exact ⟨hlist.trans (findIdxs_map_linked l _ i).symm, hmessages, henums, hextensions⟩

/-- The fields of the extensions that are attached are fresh but for their owners. -/
theorem Coherent.fresh_of_mem_attached (hl : l.Coherent) {f : FieldEntry} (hf : f ∈ l.attached) :
    f.file ∈ l.files ∧ f.link = .unresolved := by
  obtain ⟨e, he, owner, -, rfl⟩ := exists_of_mem_attachedTo hf
  have hfresh := hl.unlinked.inventory.extensions e he
  exact ⟨hfresh.1, hfresh.2.1⟩

/-- Linking follows all references and then makes the records. -/
theorem Coherent.followed (hl : l.Coherent) :
    ∃ l', Followed l l' ∧
      l.link = match l'.fieldRecords l.linkedMembers with
        | (l, .error e) => (l, .error e)
        | (l'', .ok fields) =>
          (l'', l''.tables fields (l.inventory.methods.map l.methodRecord)) := by
  -- the types of fields, then the extensions that are attached, their types, and the methods
  obtain ⟨hstart, hextensions, hclean₁, hnotes₁⟩ := hl.linkFields
  have hrange : (List.range l.linkFields.extensions.size).map (l.linkFields.extensions[·]?) =
      l.inventory.extensions.map some := by
    rw [hextensions]
    apply List.ext_getElem?
    intro i
    by_cases hi : i < l.extensions.size
    · simp [inventory, hi]
    · simp [inventory, Nat.not_lt.mp hi]
  have hextensionFiles : ∀ e ∈ l.inventory.extensions, e.field.file ∈ l.files := fun e he =>
    (hl.unlinked.inventory.extensions e he).1
  have hnotes₂ := hstart.reports_attachExtensions List.nodup_range hrange (by simp) hextensionFiles
  obtain ⟨l₂, places, hattach, hattaching, hclean₂⟩ :=
    hstart.attachExtensions List.nodup_range hrange (by simp) hextensionFiles
  simp only [hattach, List.nil_append, List.append_nil] at hattaching hclean₂ hnotes₂
  rw [← attached] at hattaching hclean₂
  have hnotes₃ := hattaching.knows.reports_linkExtensions hattaching.nodup hattaching.added
    fun f hf => hl.fresh_of_mem_attached hf
  obtain ⟨visible, extensions, reports, hlink, hknows, hlinked, -, hclean₃⟩ :=
    hattaching.knows.linkExtensions hattaching.nodup hattaching.added
      fun f hf => hl.fresh_of_mem_attached hf
  have hmethods : l₂.methods.toList = l.inventory.methods := by
    have h := congrArg Inventory.methods hattaching.inventory
    exact h
  have hnotes₄ := hknows.reports_linkMethods hl.unlinked.inventory.methods
  obtain ⟨l₄, hmethodRecords, hlooks⟩ := hknows.linkMethods hl.unlinked.inventory.methods
  rw [hmethodRecords] at hnotes₄
  have hclean₄ := hlooks.clean
  have hknows₄ := hlooks.knows
  obtain ⟨visible₄, reports₄, hl₄⟩ := hlooks.rest
  rw [hlink] at hl₄ hclean₄ hmethodRecords
  -- what comes after the attaching changes neither enums nor messages nor fields
  refine ⟨l₄, ⟨hknows₄, ?_, ?_, ?_, ?_, ?_⟩, ?_⟩
  · have henums : l₂.enums.toList = l.enums.toList := congrArg Inventory.enums hattaching.inventory
    rw [hl₄]
    exact Array.toList_inj.mp henums
  · have hmessages : l₂.inventory.messages = l.inventory.messages := by
      rw [hattaching.inventory]
    rw [hl₄]
    exact hmessages
  · intro i m hm
    rw [hl₄] at hm
    obtain ⟨hfields, hmessages, henums, hext⟩ := hattaching.listed i m hm
    rw [hattaching.inventory] at hfields hmessages henums hext
    refine ⟨hfields.trans (findIdxs_map_linked l _ i), hmessages, henums, ?_⟩
    simpa using hext
  · rw [hclean₄]
    simp only [hclean₃, hclean₂, hclean₁, members, List.forall_mem_append]
    tauto
  · rw [hnotes₄, hnotes₃, hnotes₂, hnotes₁]
    simp only [followNotes, List.append_assoc]
  · have hfields : l₄.fields.toList = l.inventory.fields.map l.linked := by
      have h := congrArg Inventory.fields hattaching.inventory
      rw [hl₄]
      exact h
    have hat : l₄.extensionsAt places = l.attached.map l.linked := by
      have h := congrArg (List.filterMap id) hlinked
      rw [hl₄]
      simpa [Linker.extensionsAt, List.filterMap_map, Function.comp_def] using h
    have hmembers : l.linkedMembers = (l.inventory.fields.map l.linked).map (fun f => (f, none)) ++
        (l.attached.map l.linked).map fun f => (f, some f.scope) := by
      simp [linkedMembers, Function.comp_def]
    unfold Linker.link
    simp only [hattach, hlink, hmethods, hmethodRecords, hfields, hat]
    exact hmembers ▸ rfl

/-- Every member belongs to a message. -/
theorem Coherent.exists_owner (hl : l.Coherent) {f : FieldEntry} (hf : f ∈ l.members) :
    ∃ i < l.inventory.messages.length, f.owner = some i := by
  rcases List.mem_append.mp hf with hf | hf
  · obtain ⟨i, hi⟩ := Option.isSome_iff_exists.mp (hl.nested.fields f hf).1
    exact ⟨i, hl.nested.owner_lt hf hi, hi⟩
  · obtain ⟨e, -, owner, howner, rfl⟩ := exists_of_mem_attachedTo hf
    exact ⟨owner, target?_lt howner, rfl⟩

/-- What holds of all members holds of all linked members. -/
theorem forall_mem_linkedMembers {P : FieldEntry → Prop} :
    (∀ f ∈ l.linkedMembers, P f.1) ↔ ∀ f ∈ l.members, P (l.linked f) := by
  simp [linkedMembers, members, or_imp, forall_and]

/-- Linking ends with the tables of the linker unless a default overflows. It leaves the linker
knowing what it knew, and notes nothing just if everything is resolved. -/
theorem Coherent.link_eq (hl : l.Coherent) (h : ∀ f ∈ l.members, ¬ l.Overflows (l.linked f)) :
    ∃ l', l.link = (l', .ok l.linkedTables) ∧ Knows l l' ∧
      (l'.reports = [] ↔ l.reports = [] ∧ l.Resolved) := by
  obtain ⟨l₁, hfollowed, heq⟩ := hl.followed
  have henums := hfollowed.enums
  have hfits (f : FieldEntry) : l₁.DefaultFits f ↔ l.DefaultFits f := by
    simp only [DefaultFits, defaultOf_congr henums]
  have hends : ∀ f ∈ l.linkedMembers, ¬ l₁.Overflows f.1 := by
    simp only [Overflows, defaultOf_congr henums]
    exact (forall_mem_linkedMembers (P := fun f => ¬ l.Overflows f)).mpr h
  obtain ⟨reports, hrecords, hclean⟩ := fieldRecords_eq l.linkedMembers hends
  have hmembers : (l.linkedMembers.map fun f => l₁.fieldRecord f.1 f.2) = l.memberRecords := by
    rw [fieldRecord_congr henums]
    simp [linkedMembers, memberRecords, Function.comp_def]
  rw [hrecords, hmembers] at heq
  have hknows := hfollowed.knows
  refine ⟨{ l₁ with reports }, ?_,
    ⟨hknows.distinct, hknows.files, hknows.definitions, hknows.visible⟩, ?_⟩
  · rw [heq]
    exact congrArg (Prod.mk _) (tables_eq hfollowed.listed hfollowed.messages henums)
  · rw [hclean, hfollowed.clean]
    simp only [hfits, forall_mem_linkedMembers (P := fun f => l.DefaultFits f ∧ f.PackedFits)]
    constructor
    · rintro ⟨⟨hreports, hattached, htypes, hmethods⟩, hoptions⟩
      exact ⟨hreports, hattached, htypes, hmethods, hoptions⟩
    · rintro ⟨hreports, hattached, htypes, hmethods, hoptions⟩
      exact ⟨⟨hreports, hattached, htypes, hmethods⟩, hoptions⟩

/-- If linking gives tables, then no default has overflowed. -/
theorem Coherent.not_overflows (hl : l.Coherent) {t : Tables} (h : l.link = (l', .ok t)) :
    ∀ f ∈ l.members, ¬ l.Overflows (l.linked f) := by
  obtain ⟨l₁, hfollowed, heq⟩ := hl.followed
  by_contra hoverflow
  have hoverflow' : ∃ f ∈ l.linkedMembers, l₁.Overflows f.1 := by
    simp only [Overflows, defaultOf_congr hfollowed.enums]
    by_contra hnone
    refine hoverflow ((forall_mem_linkedMembers (P := fun f => ¬ l.Overflows f)).mp ?_)
    exact fun f hf hf' => hnone ⟨f, hf, hf'⟩
  obtain ⟨l₂, e, hrecords⟩ := fieldRecords_of_overflows hoverflow'
  rw [hrecords, h] at heq
  exact absurd (congrArg Prod.snd heq) (by simp)

/-- If linking gives tables, then these are the tables of the linker. -/
theorem Coherent.eq_linkedTables (hl : l.Coherent) {t : Tables} (h : l.link = (l', .ok t)) :
    t = l.linkedTables ∧ Knows l l' ∧ (l'.reports = [] ↔ l.reports = [] ∧ l.Resolved) := by
  obtain ⟨l'', heq, hfacts⟩ := hl.link_eq (hl.not_overflows h)
  rw [h, Prod.mk.injEq, Except.ok.injEq] at heq
  obtain ⟨rfl, rfl⟩ := heq
  exact ⟨rfl, hfacts⟩

end Linker

/-!
## Places of enum values

The values of all enums share one arena, in which each enum has a block: its first value stands
behind the values of all enums before it. The default of an enum field is a place in the block of
the field's enum.
-/

namespace Linker

variable {l : Linker}

/-- The first value of an enum stands behind as many others as there are values before it. -/
theorem firstValuePlace_eq_length {α : Type} (l : Linker) (i : Nat) (f : EnumEntry → List α)
    (hf : ∀ e, (f e).length = e.values.length) :
    l.firstValuePlace i = ((l.inventory.enums.take i).flatMap f).length := by
  have hsum (es : List EnumEntry) (n : Nat) :
      es.foldl (fun n e => n + e.values.length) n = n + (es.map (·.values.length)).sum := by
    induction es generalizing n with
    | nil => rfl
    | cons e es ih => rw [List.foldl_cons, ih, List.map_cons, List.sum_cons, Nat.add_assoc]
  rw [firstValuePlace, hsum, Nat.zero_add, List.length_flatMap]
  simp only [hf]
  rfl

theorem firstValuePlace_eq (l : Linker) (i : Nat) :
    l.firstValuePlace i =
      ((l.enums.toList.zipIdx.take i).flatMap fun e => enumValueRecords e.2 e.1).length := by
  have hmap : ((l.enums.toList.zipIdx.take i).map fun e => (enumValueRecords e.2 e.1).length) =
      (l.enums.toList.take i).map (·.values.length) := by
    apply List.ext_getElem?
    intro k
    by_cases hk : k < i
    · simp [hk, enumValueRecords, Option.map_map, Function.comp_def]
    · simp [hk]
  rw [firstValuePlace_eq_length l i (·.values) fun _ => rfl, List.length_flatMap,
    List.length_flatMap, hmap]
  rfl

@[simp] theorem length_enumRecords (l : Linker) : l.enumRecords.length = l.enums.size := by
  simp [enumRecords]

theorem getElem?_enumRecords (l : Linker) (i : Nat) :
    l.enumRecords[i]? = (l.enums[i]?).map fun e => enumRecord (l.firstValuePlace i) e := by
  simp [enumRecords, Option.map_map, Function.comp_def]

/-- The values of an enum have consecutive places. -/
theorem values_enumRecord (first : Nat) (e : EnumEntry) :
    (enumRecord first e).values = List.range' first e.values.length := by
  simp [enumRecord, List.zipIdx_map_snd]

/-- The values of an enum stand in its block. -/
theorem getElem?_valueRecords {i k : Nat} {e : EnumEntry} {v : EnumValueDecl}
    (he : l.enums[i]? = some e) (hv : e.values[k]? = some v) :
    l.valueRecords[l.firstValuePlace i + k]? =
      some ⟨v.name, Dotted.join (Dotted.enclosing e.fullName) v.name, v.number, i⟩ := by
  obtain ⟨hk, -⟩ := List.getElem?_eq_some_iff.mp hv
  have hi : l.enums.toList.zipIdx[i]? = some (e, i) := by simp [he]
  rw [firstValuePlace_eq]
  refine (getElem?_flatMap_block _ hi (by simpa [enumValueRecords] using hk)).trans ?_
  simp [enumValueRecords, hv]

/-- Every value stands in the block of an enum. -/
theorem exists_of_lt_length_valueRecords {j : Nat} (hj : j < l.valueRecords.length) :
    ∃ i e k v, l.enums[i]? = some e ∧ e.values[k]? = some v ∧ j = l.firstValuePlace i + k := by
  obtain ⟨i, ⟨e, place⟩, k, he, hk, rfl⟩ := exists_block _ hj
  simp only [List.getElem?_zipIdx, Array.getElem?_toList, Option.map_eq_some_iff] at he
  obtain ⟨e', he', heq⟩ := he
  obtain ⟨rfl, -⟩ := Prod.mk.inj heq
  have hlt : k < e'.values.length := by simpa [enumValueRecords] using hk
  exact ⟨i, e', k, e'.values[k], he', List.getElem?_eq_getElem hlt, by rw [firstValuePlace_eq]⟩

/-- All values together stand at all places. -/
theorem flatMap_values_enumRecords (l : Linker) :
    l.enumRecords.flatMap (·.values) = List.range l.valueRecords.length := by
  rw [valueRecords, ← flatten_mapIdx_range', List.flatMap_def]
  congr 1
  apply List.ext_getElem?
  intro i
  simp only [List.getElem?_map, getElem?_enumRecords, List.getElem?_mapIdx, List.getElem?_zipIdx,
    Array.getElem?_toList, Nat.zero_add, Option.map_map]
  congr 1
  funext e
  simp only [Function.comp_apply, values_enumRecord, firstValuePlace_eq, enumValueRecords,
    List.length_map]

/-! ### Defaults -/

/-- The default that is found for an enum is one of its values. -/
theorem exists_of_enumDefault_eq_ok {enum : Option Nat} {value : Value} {d : DefaultValue}
    (h : l.enumDefault enum value = .ok d) :
    ∃ i e k v, enum = some i ∧ l.enums[i]? = some e ∧ e.values[k]? = some v ∧
      value = .ident v.name ∧ d = .enumValue (l.firstValuePlace i + k) := by
  unfold enumDefault at h
  split at h
  · next name i e hbind =>
    obtain ⟨i', henum, hmap⟩ := Option.bind_eq_some_iff.mp hbind
    obtain ⟨e', he, heq⟩ := Option.map_eq_some_iff.mp hmap
    obtain ⟨rfl, rfl⟩ := Prod.mk.inj heq
    split at h
    · next k hk =>
      obtain ⟨hlt, hname, -⟩ := List.findIdx?_eq_some_iff_getElem.mp hk
      rw [← of_decide_eq_true hname]
      exact ⟨_, _, k, _, henum, he, List.getElem?_eq_getElem hlt, rfl, (Except.ok.inj h).symm⟩
    · exact absurd h (by simp)
  · exact absurd h (by simp)

theorem mapError_eq_ok {ε ε' α : Type} {f : ε → ε'} {r : Except ε α} {x : α} :
    r.mapError f = .ok x ↔ r = .ok x := by
  cases r <;> simp [Except.mapError]

theorem integerDefault_ne_enumValue {value : Value} {type : FieldType} {low high : Int} {p : Nat} :
    value.integerDefault type low high ≠ .ok (.enumValue p) := by
  rw [Value.integerDefault.eq_def]
  split
  · split <;> simp
  · simp

theorem floatDefault_ne_enumValue {value : Value} {type : FieldType} {p : Nat} :
    value.floatDefault type ≠ .ok (.enumValue p) := by
  unfold Value.floatDefault
  simp only
  split
  · split <;> simp
  · simp
  · split <;> simp
  · simp

theorem boolDefault_ne_enumValue {value : Value} {p : Nat} :
    value.boolDefault ≠ .ok (.enumValue p) := by
  unfold Value.boolDefault
  split <;> simp

theorem stringDefault_ne_enumValue {value : Value} {p : Nat} :
    value.stringDefault ≠ .ok (.enumValue p) := by
  rw [Value.stringDefault.eq_def]
  split
  · split <;> simp
  · simp

theorem bytesDefault_ne_enumValue {value : Value} {p : Nat} :
    value.bytesDefault ≠ .ok (.enumValue p) := by
  rw [Value.bytesDefault.eq_def]
  split <;> simp

/-- Only enums have defaults that are places. -/
theorem enumDefault_of_convertDefault {link : TypeLink} {value : Value} {p : Nat}
    (h : l.convertDefault link value = .ok (.enumValue p)) :
    l.enumDefault link.enumType value = .ok (.enumValue p) := by
  unfold convertDefault at h
  split at h
  · exact absurd (mapError_eq_ok.mp h) integerDefault_ne_enumValue
  · split at h
    · exact absurd h floatDefault_ne_enumValue
    · exact absurd h floatDefault_ne_enumValue
    · exact absurd (mapError_eq_ok.mp h) boolDefault_ne_enumValue
    · exact absurd (mapError_eq_ok.mp h) stringDefault_ne_enumValue
    · exact absurd (mapError_eq_ok.mp h) bytesDefault_ne_enumValue
    · exact mapError_eq_ok.mp h

/-- Of what a conversion depends on, only the enums are in the linker. -/
theorem convertDefault_of_enumDefault {l' : Linker} {link : TypeLink} {value : Value}
    {x : DefaultValue}
    (h : l.enumDefault link.enumType value = .ok x → l'.enumDefault link.enumType value = .ok x)
    (hx : l.convertDefault link value = .ok x) : l'.convertDefault link value = .ok x := by
  have henum (hx : (l.enumDefault link.enumType value).mapError DefaultRefusal.problem = .ok x) :
      (l'.enumDefault link.enumType value).mapError DefaultRefusal.problem = .ok x :=
    mapError_eq_ok.mpr (h (mapError_eq_ok.mp hx))
  unfold convertDefault at hx ⊢
  cases hrange : link.type.integerRange? with
  | some range => simpa only [hrange] using hx
  | none =>
    simp only [hrange] at hx ⊢
    cases htype : link.type <;> simp only [htype] at hx ⊢ <;> first | exact hx | exact henum hx

/-- A default is what the value of its option is converted to; there is none in the newer dialect, and
none for repeated fields. -/
theorem convertDefault_of_default? {f : FieldEntry} {x : DefaultValue} (h : l.default? f = some x) :
    f.file.dialect ≠ .proto3 ∧ f.label ≠ .repeated ∧
      ∃ o, f.decl.option? "default" = some o ∧ l.convertDefault f.link o.value.value = .ok x := by
  obtain ⟨o, ho, hdefault⟩ := Option.bind_eq_some_iff.mp h
  have hok : l.defaultOf f f.label o.value.value = .ok (some x) := by
    cases hd : l.defaultOf f f.label o.value.value with
    | error refusal => simp [hd, Except.toOption] at hdefault
    | ok d => simpa [hd, Except.toOption] using hdefault
  unfold defaultOf at hok
  split at hok
  · exact absurd hok (by simp)
  · next hdialect =>
    split at hok
    · exact absurd hok (by simp)
    · next hlabel =>
      refine ⟨hdialect, hlabel, o, ho, ?_⟩
      split at hok
      · exact absurd hok (by simp)
      · exact absurd hok (by simp)
      · exact absurd hok (by simp)
      · cases hconvert : l.convertDefault f.link o.value.value with
        | error refusal => simp [hconvert, Except.map] at hok
        | ok d => simpa [hconvert, Except.map] using hok

/-- Only a field of a scalar type or an enum has a default. -/
theorem type_of_default? {f : FieldEntry} {d : DefaultValue} (h : l.default? f = some d) :
    f.link.type ≠ .unresolved ∧ f.link.type ≠ .message ∧ f.link.type ≠ .group := by
  obtain ⟨o, -, hdefault⟩ := Option.bind_eq_some_iff.mp h
  refine ⟨fun htype => ?_, fun htype => ?_, fun htype => ?_⟩ <;>
  · unfold defaultOf at hdefault
    split_ifs at hdefault <;> simp [htype, Except.toOption] at hdefault

/-- The default of an enum field is one of the values of its enum. -/
theorem exists_of_default?_eq_enumValue {f : FieldEntry} {p : Nat}
    (h : l.default? f = some (.enumValue p)) :
    ∃ i e k v, f.link.enumType = some i ∧ l.enums[i]? = some e ∧ e.values[k]? = some v ∧
      p = l.firstValuePlace i + k := by
  obtain ⟨-, -, o, -, hconvert⟩ := convertDefault_of_default? h
  obtain ⟨i, e, k, v, henum, he, hv, -, hp⟩ :=
    exists_of_enumDefault_eq_ok (enumDefault_of_convertDefault hconvert)
  exact ⟨i, e, k, v, henum, he, hv, DefaultValue.enumValue.inj hp⟩

end Linker

end ProtoSchema
