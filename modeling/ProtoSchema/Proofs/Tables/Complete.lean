import ProtoSchema.Proofs.Linker.Holdings
import ProtoSchema.Proofs.Tables.Names

/-!
# A clean link loses nothing

If nothing was noted while files were declared and linked, then the tables hold one record for each
declaration in the files, however deep it is nested, and for what maps stand for; and each record
tells what its declaration says (`Complete`).
-/

namespace ProtoSchema

/-! ## What declarations say -/

/-- What the declaration of a message says. -/
structure MessageSummary where
  name : String
  fullName : String
  file : Text
  isNested : Bool
  isMapEntry : Bool

/-- What the declaration of a field says. -/
structure FieldSummary where
  name : String
  number : Nat
  label : Label
  oneof : Option String
  hasDefault : Bool

/-- What the declaration of an enum says, apart from its values. -/
structure EnumSummary where
  name : String
  fullName : String
  file : Text
  isNested : Bool

/-- What the declaration of a method says, apart from its types. -/
structure MethodSummary where
  name : String
  fullName : String
  service : String
  clientStreaming : Bool
  serverStreaming : Bool

/-- The label that a field is declared to have: maps are repeated, and other fields are optional
unless they say otherwise. -/
def FieldDecl.declaredLabel (f : FieldDecl) : Label :=
  if f.isMap then .repeated else f.label.getD .optional

@[inherit_doc MessageSummary]
def MessageSite.summary (m : MessageSite) : MessageSummary :=
  ⟨m.name, m.fullName, m.file.name, m.isNested, m.isMapEntry⟩

@[inherit_doc MessageSummary]
def MessageRecord.summary (m : MessageRecord) : MessageSummary :=
  ⟨m.name, m.fullName, m.file, m.parent.isSome, m.isMapEntry⟩

@[inherit_doc FieldSummary]
def FieldDecl.summary (f : FieldDecl) : FieldSummary :=
  ⟨f.name, f.number, f.declaredLabel, f.oneof, (f.option? "default").isSome⟩

@[inherit_doc FieldSummary]
def FieldRecord.summary (f : FieldRecord) : FieldSummary :=
  ⟨f.name, f.number, f.label, f.oneof, f.default.isSome⟩

@[inherit_doc EnumSummary]
def EnumSite.summary (e : EnumSite) : EnumSummary := ⟨e.name, e.fullName, e.file.name, e.isNested⟩

@[inherit_doc EnumSummary]
def EnumRecord.summary (e : EnumRecord) : EnumSummary :=
  ⟨e.name, e.fullName, e.file, e.parent.isSome⟩

@[inherit_doc MethodSummary]
def MethodEntry.summary (m : MethodEntry) : MethodSummary :=
  ⟨m.decl.name, m.fullName, m.service, m.decl.clientStreaming, m.decl.serverStreaming⟩

@[inherit_doc MethodSummary]
def MethodRecord.summary (m : MethodRecord) : MethodSummary :=
  ⟨m.name, m.fullName, m.service, m.clientStreaming, m.serverStreaming⟩

/-- The record of a value of the enum at a place. -/
def EnumSite.valueRecord (place : Nat) (e : EnumSite) (v : EnumValueDecl) : EnumValueRecord :=
  ⟨v.name, Dotted.join (Dotted.enclosing e.fullName) v.name, v.number, place⟩

/-- The tables hold what has been declared, and nothing else: one record for each message, enum,
enum value and method, and for each field of a message and then each extension, all in the order of
their declaration. Each message has its fields and each enum its values in that order; and nothing
is left without its types. -/
structure Tables.Complete (t : Tables) (o : Outline) : Prop where
  messages : t.messages.toList.map MessageRecord.summary = o.messages.map (·.summary)
  fields : t.fields.toList.map (fun f => (f.fullName, f.extensionScope, f.summary)) =
    o.fields.map (fun f => (f.fullName, none, f.decl.summary)) ++
      o.extensions.map fun e => (e.field.fullName, some e.field.scope, e.field.decl.summary)
  enums : t.enums.toList.map EnumRecord.summary = o.enums.map EnumSite.summary
  enumValues : t.enumValues.toList =
    o.enums.zipIdx.flatMap fun e => e.1.values.map (e.1.valueRecord e.2)
  methods : t.methods.toList.map MethodRecord.summary = o.methods.map MethodEntry.summary
  ownFields : ∀ (i : Nat) m r, o.messages[i]? = some m → t.messages[i]? = some r →
    (r.fields.map fun k => (t.fields[k]?).map FieldRecord.summary) =
      m.fields.map fun f => some f.summary
  ownValues : ∀ (i : Nat) e r, o.enums[i]? = some e → t.enums[i]? = some r →
    (r.values.map fun k => t.enumValues[k]?) = e.values.map fun v => some (e.valueRecord i v)
  types : ∀ f ∈ t.fields, f.type ≠ .unresolved
  ends : ∀ m ∈ t.methods, m.inputType.isSome ∧ m.outputType.isSome

/-! ## Records and declarations -/

@[simp] theorem FieldDecl.isMap_entered (f : FieldDecl) : f.entered.isMap = false := by
  unfold FieldDecl.entered FieldDecl.isMap
  cases h : f.shape <;> simp [h, Linker.mapField]

/-- As it is entered, a field says what it was declared to say. -/
theorem FieldDecl.summary_entered {f : FieldDecl}
    (h : f.isMap → f.label = none ∧ f.oneof = none) : f.entered.summary = f.summary := by
  unfold FieldDecl.entered
  cases hshape : f.shape with
  | named | group => rfl
  | map key value position =>
    have hmap : f.isMap := by simp [FieldDecl.isMap, hshape]
    have hlabel : f.declaredLabel = .repeated := if_pos hmap
    simp only [FieldDecl.summary, hlabel, (h hmap).2]
    rfl

namespace Linker

variable {l : Linker} {o : Outline}

/-- What a type reference means is a type. -/
theorem type_ne_unresolved {f : FieldEntry} (h : (l.typeLink? f).isSome) :
    (l.linked f).link.type ≠ .unresolved := by
  obtain ⟨link, hlink⟩ := Option.isSome_iff_exists.mp h
  rw [linked, hlink, Option.getD_some]
  unfold typeLink? at hlink
  simp only at hlink
  split at hlink
  · next t ht =>
    have hscalars : ∀ t ∈ FieldType.scalars, t ≠ .unresolved := by decide
    rw [← Option.some.inj hlink]
    exact hscalars t (List.mem_of_find?_eq_some ht)
  · obtain ⟨d, -, hd⟩ := Option.bind_eq_some_iff.mp hlink
    unfold typeLinkOf at hd
    split at hd <;> simp at hd <;> simp [← hd]

/-- A field of a known type is refused a default or gets one. -/
theorem defaultOf_ne_none {f : FieldEntry} {label : Label} {value : Value}
    (h : f.link.type ≠ .unresolved) : l.defaultOf f label value ≠ .ok none := by
  unfold defaultOf
  split
  · simp
  · split
    · simp
    · split
      · simp
      · simp
      · next htype => exact absurd htype h
      · cases l.convertDefault f.link value <;> simp [Except.map]

/-- A field has a default just if it asks for one. -/
theorem Resolved.isSome_default? (h : l.Resolved) {f : FieldEntry} (hf : f ∈ l.members) :
    (l.default? (l.linked f)).isSome = (f.decl.option? "default").isSome := by
  unfold default?
  rw [linked_decl]
  cases hoption : f.decl.option? "default" with
  | none => rfl
  | some o =>
    obtain ⟨d, hd⟩ := (h.options f hf).1 o hoption
    cases d with
    | none => exact absurd hd (defaultOf_ne_none (type_ne_unresolved (h.types f hf)))
    | some d => simp [hd, Except.toOption]

/-- The record of a member says what its declaration says. -/
theorem Resolved.summary_fieldRecord (h : l.Resolved) {f : FieldEntry} (hf : f ∈ l.members)
    (hmap : f.decl.isMap = false) (extensionScope : Option String) :
    (l.fieldRecord (l.linked f) extensionScope).summary = f.decl.summary := by
  have hlabel : f.decl.declaredLabel = f.decl.label.getD .optional := if_neg (by simp [hmap])
  simp [FieldRecord.summary, fieldRecord, FieldDecl.summary, FieldEntry.label, hlabel,
    h.isSome_default? hf]

/-- A method end that fits leads to a message. -/
theorem Coherent.isSome_methodEnd? (hl : l.Coherent) {m : MethodEntry} {type : String}
    (h : l.MethodEndFits m type) : (l.methodEnd? m type).isSome := by
  obtain ⟨d, hd, hkind⟩ := h
  obtain ⟨i, m', -, rfl⟩ := hl.indexed.message_of_mem (mem_of_meaning? hd) hkind
  simp [methodEnd?, hd, Inventory.messageDefinition]

/-! ## The tables of an outline -/

theorem summary_messages (h : l.inventory.Outlined o) :
    l.linkedTables.messages.toList.map MessageRecord.summary = o.messages.map (·.summary) := by
  have hrecords : (l.inventory.messages.mapIdx l.linkedMessage).map MessageRecord.summary =
      l.inventory.messages.map fun m => m.site.summary :=
    (map_eq_map_mapIdx (by intros; rfl) _).symm
  have hsummary := congrArg (List.map MessageSite.summary) h.messages
  simpa [linkedTables, hrecords, Function.comp_def] using hsummary

theorem summary_enums (h : l.inventory.Outlined o) :
    l.linkedTables.enums.toList.map EnumRecord.summary = o.enums.map EnumSite.summary := by
  rw [← h.enums]
  apply List.ext_getElem?
  intro i
  simp [linkedTables, getElem?_enumRecords, inventory, Option.map_map, Function.comp_def,
    enumRecord, EnumRecord.summary, EnumSite.summary, EnumEntry.site]

theorem enumValues_eq (h : l.inventory.Outlined o) :
    l.linkedTables.enumValues.toList =
      o.enums.zipIdx.flatMap fun e => e.1.values.map (e.1.valueRecord e.2) := by
  rw [← h.enums, List.zipIdx_map, List.flatMap_map]
  rfl

theorem summary_methods (h : l.inventory.Outlined o) :
    l.linkedTables.methods.toList.map MethodRecord.summary =
      o.methods.map MethodEntry.summary := by
  simp [linkedTables, h.methods, methodRecord, MethodRecord.summary, MethodEntry.summary,
    Function.comp_def]

theorem ownValues_eq (h : l.inventory.Outlined o) {i : Nat} {e : EnumSite} {r : EnumRecord}
    (he : o.enums[i]? = some e) (hr : l.linkedTables.enums[i]? = some r) :
    (r.values.map fun k => l.linkedTables.enumValues[k]?) =
      e.values.map fun v => some (e.valueRecord i v) := by
  have hr' : l.enumRecords[i]? = some r := by simpa [linkedTables] using hr
  rw [getElem?_enumRecords, Option.map_eq_some_iff] at hr'
  obtain ⟨entry, hentry, rfl⟩ := hr'
  have hsite : e = entry.site := by
    simpa [← h.enums, inventory, hentry, eq_comm] using he
  rw [hsite, values_enumRecord]
  apply List.ext_getElem?
  intro k
  by_cases hk : k < entry.values.length
  · have hv := getElem?_valueRecords hentry (List.getElem?_eq_getElem hk)
    simp [linkedTables, hk, hv, EnumEntry.site, EnumSite.valueRecord]
  · simp [hk, EnumEntry.site]

/-- No field is entered as a map. -/
theorem Coherent.isMap_of_mem (hl : l.Coherent) (h : l.inventory.Outlined o)
    (hholds : o.Holds none []) {f : FieldEntry} (hf : f ∈ l.inventory.fields) :
    f.decl.isMap = false := by
  obtain ⟨i, hi, howner⟩ := hl.exists_owner (List.mem_append_left _ hf)
  obtain ⟨m, -, -, hdecls⟩ := hl.exists_outline h hholds (List.getElem?_eq_getElem hi)
  have hown : f.decl ∈ (l.inventory.fields.filter (·.owner = some i)).map (·.decl) :=
    List.mem_map_of_mem (List.mem_filter.mpr ⟨hf, decide_eq_true howner⟩)
  rw [hdecls] at hown
  obtain ⟨d, -, hd⟩ := List.mem_map.mp hown
  rw [← hd, FieldDecl.isMap_entered]

/-- The records of the fields of a message come from its fields. -/
theorem map_fields_linkedMessage (l : Linker) (i : Nat) (m : MessageHeader) :
    (l.linkedMessage i m).fields.map (l.linkedTables.fields[·]?) =
      (l.inventory.fields.filter (·.owner = some i)).map
        fun f => some (l.fieldRecord (l.linked f) none) := by
  have hrecord : ∀ k ∈ l.inventory.fields.findIdxs (·.owner = some i),
      l.linkedTables.fields[k]? =
        (l.inventory.fields[k]?).map fun f => l.fieldRecord (l.linked f) none := by
    intro k hk
    have hlt := lt_of_mem_findIdxs hk
    rw [getElem?_linkedTables_field (List.getElem?_eq_getElem hlt), List.getElem?_eq_getElem hlt,
      Option.map_some]
  have hplaces := congrArg (List.map (Option.map fun f => l.fieldRecord (l.linked f) none))
    (map_getElem?_findIdxs (·.owner = some i) l.inventory.fields)
  rw [List.map_map, List.map_map] at hplaces
  exact (List.map_congr_left hrecord).trans hplaces

theorem Coherent.ownFields_eq (hl : l.Coherent) (hresolved : l.Resolved)
    (h : l.inventory.Outlined o) (hholds : o.Holds none []) (hgrammar : o.Grammatical) {i : Nat}
    {m : MessageOutline} {r : MessageRecord} (hm : o.messages[i]? = some m)
    (hr : l.linkedTables.messages[i]? = some r) :
    (r.fields.map fun k => (l.linkedTables.fields[k]?).map FieldRecord.summary) =
      m.fields.map fun f => some f.summary := by
  have hr' : (l.inventory.messages.mapIdx l.linkedMessage)[i]? = some r := by
    simpa [linkedTables] using hr
  rw [List.getElem?_mapIdx, Option.map_eq_some_iff] at hr'
  obtain ⟨header, hheader, rfl⟩ := hr'
  have hname : header.fullName = m.fullName := by
    have hsite := congrArg (·[i]?) h.messages
    simp only [List.getElem?_map, hheader, hm, Option.map_some, Option.some.injEq] at hsite
    exact congrArg MessageSite.fullName hsite
  have hown := hholds.messages (hl.apart_of_outlined h) m (List.mem_of_getElem? hm)
  -- from records to fields, to their declarations, to the outline, to what was declared
  let own := l.inventory.fields.filter (·.owner = some i)
  calc (l.linkedMessage i header).fields.map
        (fun k => (l.linkedTables.fields[k]?).map FieldRecord.summary)
      = own.map fun f => some (l.fieldRecord (l.linked f) none).summary := by
        have hrecords := congrArg (List.map (Option.map FieldRecord.summary))
          (l.map_fields_linkedMessage i header)
        rwa [List.map_map, List.map_map] at hrecords
    _ = (own.map (·.decl)).map fun f => some f.summary := by
        rw [List.map_map]
        apply List.map_congr_left
        intro f hf
        have hmem := List.mem_of_mem_filter hf
        exact congrArg some (hresolved.summary_fieldRecord (List.mem_append_left _ hmem)
          (hl.isMap_of_mem h hholds hmem) none)
    _ = m.fields.map fun f => some f.entered.summary := by
        rw [hl.map_decl_filter_owner h hheader, hname, hown, List.map_map]
        rfl
    _ = m.fields.map fun f => some f.summary := by
        apply List.map_congr_left
        intro f hf
        have hmap := hgrammar.messages m (List.mem_of_getElem? hm) f hf
        exact congrArg some (f.summary_entered hmap)

/-- All fields and extensions have records, the fields first. -/
theorem Coherent.summary_fields (hl : l.Coherent) (hresolved : l.Resolved)
    (h : l.inventory.Outlined o) (hholds : o.Holds none []) (hgrammar : o.Grammatical) :
    l.linkedTables.fields.toList.map (fun f => (f.fullName, f.extensionScope, f.summary)) =
      o.fields.map (fun f => (f.fullName, none, f.decl.summary)) ++
        o.extensions.map
          fun e => (e.field.fullName, some e.field.scope, e.field.decl.summary) := by
  have hattached : l.attached = o.extensions.map l.targeted := by
    rw [← h.extensions]
    exact attachedTo_eq_map (length_attachedTo_eq_iff.mp hresolved.attached)
  have hmembers : ∀ e ∈ o.extensions, l.targeted e ∈ l.members := by
    intro e he
    refine List.mem_append_right _ ?_
    rw [hattached]
    exact List.mem_map_of_mem he
  simp only [linkedTables, memberRecords, List.map_append, List.map_map, hattached, ← h.fields]
  congr 1
  · apply List.map_congr_left
    intro f hf
    have hsummary := hresolved.summary_fieldRecord (List.mem_append_left _ hf)
      (hl.isMap_of_mem h hholds hf) none
    exact congrArg (fun s => (f.fullName, none, s)) hsummary
  · apply List.map_congr_left
    intro e he
    have hsummary := hresolved.summary_fieldRecord (hmembers e he)
      (hgrammar.extensions e he) (some e.field.scope)
    exact congrArg (fun s => (e.field.fullName, some e.field.scope, s)) hsummary

/-- If every reference has a meaning, then no link is missing in the tables. -/
theorem Coherent.links_resolved (hl : l.Coherent) (hresolved : l.Resolved) :
    (∀ r ∈ l.linkedTables.fields, r.type ≠ .unresolved) ∧
      ∀ r ∈ l.linkedTables.methods, r.inputType.isSome ∧ r.outputType.isSome := by
  refine ⟨fun r hr => ?_, fun r hr => ?_⟩
  · obtain ⟨f, hf, extensionScope, rfl⟩ := mem_memberRecords (List.mem_toArray.mp hr)
    exact type_ne_unresolved (hresolved.types f hf)
  · obtain ⟨m, hm, rfl⟩ := List.mem_map.mp (List.mem_toArray.mp hr)
    obtain ⟨hinput, houtput⟩ := hresolved.methods m hm
    exact ⟨hl.isSome_methodEnd? hinput, hl.isSome_methodEnd? houtput⟩

theorem Coherent.complete (hl : l.Coherent) (hresolved : l.Resolved)
    (h : l.inventory.Outlined o) (hholds : o.Holds none []) (hgrammar : o.Grammatical) :
    l.linkedTables.Complete o := by
  obtain ⟨htypes, hmethods⟩ := hl.links_resolved hresolved
  refine ⟨summary_messages h, hl.summary_fields hresolved h hholds hgrammar, summary_enums h,
    enumValues_eq h, summary_methods h, ?_, ?_, htypes, hmethods⟩
  · intro i m r hm hr
    exact hl.ownFields_eq hresolved h hholds hgrammar hm hr
  · intro i e r he hr
    exact ownValues_eq h he hr

/-- If nothing is noted while grammatical files of different names are declared and linked, then the
tables hold what was declared, nothing less and nothing more. All files that come from texts are
grammatical (`SchemaFile.grammatical_of_parse`). -/
theorem complete_of_link {files : List SchemaFile} (hnames : (files.map (·.name)).Nodup)
    (hgrammar : ∀ f ∈ files, f.Grammatical) {l : Linker} {t : Tables}
    (hlink : (ofFiles files).link = (l, .ok t)) (hclean : l.reports = []) :
    t.Complete (.ofFiles files) := by
  have hl := coherent_ofFiles hnames
  obtain ⟨rfl, -, hreports⟩ := hl.eq_linkedTables hlink
  obtain ⟨hdeclared, hresolved⟩ := hreports.mp hclean
  exact hl.complete hresolved (outlined_ofFiles hdeclared)
    (Outline.holds_ofFiles files) (Outline.grammatical_ofFiles hgrammar)

theorem complete_of_link_sample :
    ∃ l t, (ofFiles [Sample.shapes, Sample.drawing]).link = (l, .ok t) ∧ l.reports = [] ∧
      t.Complete (.ofFiles [Sample.shapes, Sample.drawing]) := by
  have hlinks : ((ofFiles [Sample.shapes, Sample.drawing]).link).2.toOption.isSome := by
    decide +kernel
  have hclean : ((ofFiles [Sample.shapes, Sample.drawing]).link).1.reports.isEmpty := by
    decide +kernel
  obtain ⟨l, t, h⟩ := exists_tables hlinks
  rw [h] at hclean
  have hclean' : l.reports = [] := List.isEmpty_iff.mp hclean
  exact ⟨l, t, h, hclean', complete_of_link (by decide +kernel) (by decide +kernel) h hclean'⟩

end Linker

end ProtoSchema
