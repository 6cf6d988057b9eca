import ProtoSchema.Proofs.Linker.Stages
import ProtoSchema.Proofs.Pool.Steady
import ProtoSchema.Proofs.Tables.Maps
import ProtoSchema.Proofs.Tables.Preorder

/-!
# Tables that can be followed

Whatever has been done with a pool, its tables can be followed from record to record
(`Tables.Followable`): every place that leads on from a record is the place of another, messages
stand behind the ones that they are nested in, the entries of maps have a key and a value, and
defaults have the form of their types (`World.followable_after`).

A linker may have been linked before, when linking was refused, and a field whose type is not found
keeps the link that it had. So it is carried through declaring and linking that links lead to what
has been declared (`Linker.LinksInside`). What messages and enums list is the same however often the
linker is linked.
-/

namespace ProtoSchema

/-! ## What can be followed -/

/-- Following the places in the tables always leads to a record, and down to smaller messages. -/
structure Tables.Followable (t : Tables) : Prop where
  members : ∀ m ∈ t.messages, ∀ k ∈ m.fields ++ m.extensions, k < t.fields.size
  nested : ∀ (i : Nat) m, t.messages[i]? = some m → ∀ k ∈ m.messages, i < k ∧ k < t.messages.size
  enums : ∀ m ∈ t.messages, ∀ k ∈ m.enums, k < t.enums.size
  values : ∀ e ∈ t.enums, ∀ k ∈ e.values, k < t.enumValues.size
  entries : ∀ m ∈ t.messages, m.isMapEntry = true → ∃ key value, m.fields = [key, value]
  messageTypes : ∀ f ∈ t.fields, ∀ k ∈ f.messageType, k < t.messages.size
  enumTypes : ∀ f ∈ t.fields, ∀ k ∈ f.enumType, k < t.enums.size
  defaults : ∀ f ∈ t.fields, ∀ d, f.default = some d → ∃ literal, t.Suits f literal d

/-- A link leads to one of the first messages or enums, if anywhere. -/
structure TypeLink.Within (link : TypeLink) (messages enums : Nat) : Prop where
  message : ∀ i ∈ link.messageType, i < messages
  enum : ∀ i ∈ link.enumType, i < enums

theorem TypeLink.within_unresolved (messages enums : Nat) :
    TypeLink.unresolved.Within messages enums :=
  ⟨by simp [TypeLink.unresolved], by simp [TypeLink.unresolved]⟩

theorem TypeLink.Within.mono {link : TypeLink} {messages enums messages' enums' : Nat}
    (h : link.Within messages enums) (hmessages : messages ≤ messages') (henums : enums ≤ enums') :
    link.Within messages' enums' :=
  ⟨fun i hi => (h.message i hi).trans_le hmessages, fun i hi => (h.enum i hi).trans_le henums⟩

/-- What holds of all items of a list still holds after a change at one place that keeps it. -/
theorem forall_mem_modify {α : Type} {P : α → Prop} {xs : List α} {i : Nat} {f : α → α}
    (h : ∀ x ∈ xs, P x) (hf : ∀ x, xs[i]? = some x → P (f x)) : ∀ x ∈ xs.modify i f, P x := by
  have hkept : xs.Forall₂ (fun x y => P x → P y) (xs.modify i f) :=
    forall₂_modify (fun _ hx => hx) fun x hx _ => hf x hx
  intro y hy
  obtain ⟨x, hx, hP⟩ := exists_of_forall₂ hkept y hy
  exact hP (h x hx)

namespace Linker

variable {l l' m : Linker} {P : FieldEntry → Prop} {files : List SchemaFile} {t : Tables}

/-! ## What linking keeps -/

/-- All fields and extensions have a property. -/
structure Every (P : FieldEntry → Prop) (l : Linker) : Prop where
  fields : ∀ f ∈ l.inventory.fields, P f
  extensions : ∀ e ∈ l.inventory.extensions, P e.field

/-- A property that does not depend on owners, and that a field keeps when its type is looked up in
a linker that is like `l`. -/
structure Survives (l : Linker) (P : FieldEntry → Prop) : Prop where
  resolve : ∀ {m : Linker}, m.Alike l → ∀ f, P f → P (m.resolveType f).2
  owner : ∀ f owner, P f → P { f with owner }

theorem Every.rest (h : l.Every P) (visible : List (Text × List Text)) (reports : List Report) :
    Every P { l with visible, reports } :=
  ⟨h.fields, h.extensions⟩

/-- An extension is changed, but keeps the property. -/
theorem Every.modify (h : l.Every P) (place : Nat) (change : ExtensionEntry → ExtensionEntry)
    (hchange : ∀ e, l.extensions[place]? = some e → P (change e).field) :
    Every P { l with extensions := l.extensions.modify place change } := by
  refine ⟨h.fields, fun e he => ?_⟩
  rw [inventory, Array.toList_modify] at he
  refine forall_mem_modify (P := fun e : ExtensionEntry => P e.field) h.extensions ?_ e he
  exact fun e he => hchange e (by simpa [inventory] using he)

theorem alike_resolveType (l : Linker) (f : FieldEntry) : (l.resolveType f).1.Alike l := by
  obtain ⟨⟨visible, reports, hrest⟩, -⟩ := l.resolveType_rest f
  rw [hrest]
  exact alike_of_rest visible reports

theorem fieldDefault_rest (l : Linker) (f : FieldEntry) (label : Label) :
    ∃ reports, (l.fieldDefault f label).1 = { l with reports } := by
  unfold fieldDefault
  split
  · exact ⟨l.reports, rfl⟩
  · split
    · exact ⟨l.reports, rfl⟩
    · exact ⟨_, rfl⟩
    · exact ⟨l.reports, rfl⟩

theorem fieldPacked_rest (l : Linker) (f : FieldEntry) (label : Label) :
    ∃ reports, (l.fieldPacked f label).1 = { l with reports } := by
  unfold fieldPacked
  split_ifs
  · exact ⟨l.reports, rfl⟩
  · simp only
    split
    · exact ⟨l.reports, rfl⟩
    · split
      · exact ⟨l.reports, rfl⟩
      · exact ⟨_, rfl⟩

/-- Making records only leaves notes. -/
theorem fieldRecords_rest (l : Linker) (fs : List (FieldEntry × Option String)) :
    ∃ reports, (l.fieldRecords fs).1 = { l with reports } := by
  induction fs generalizing l with
  | nil => exact ⟨l.reports, rfl⟩
  | cons f fs ih =>
    obtain ⟨f, extensionScope⟩ := f
    obtain ⟨reports, hdefault⟩ := l.fieldDefault_rest f (f.decl.label.getD .optional)
    rw [fieldRecords]
    rcases heq : l.fieldDefault f (f.decl.label.getD .optional) with ⟨l₁, e | default⟩ <;>
      simp only [heq] at hdefault ⊢
    · exact ⟨reports, hdefault⟩
    · obtain ⟨reports', hpacked⟩ := l₁.fieldPacked_rest f (f.decl.label.getD .optional)
      obtain ⟨reports'', hrecords⟩ := ih (l₁.fieldPacked f (f.decl.label.getD .optional)).1
      exact ⟨reports'', hrecords.trans (by rw [hpacked, hdefault])⟩

namespace Survives

variable (hP : Survives l P)
include hP

theorem resolveTypes (halike : m.Alike l) {fs : List FieldEntry} (h : ∀ f ∈ fs, P f) :
    ∀ f ∈ (m.resolveTypes fs).2, P f := by
  induction fs generalizing m with
  | nil => simp [Linker.resolveTypes]
  | cons f fs ih =>
    obtain ⟨hf, hfs⟩ := List.forall_mem_cons.mp h
    rw [Linker.resolveTypes]
    exact List.forall_mem_cons.mpr
      ⟨hP.resolve halike f hf, ih ((alike_resolveType m f).trans halike) hfs⟩

theorem linkFields (h : l.Every P) : l.linkFields.Every P := by
  obtain ⟨⟨visible, reports, hrest⟩, -⟩ := l.resolveTypes_rest l.fields.toList
  refine ⟨?_, ?_⟩
  · exact hP.resolveTypes (.refl l) h.fields
  · simp only [Linker.linkFields, hrest]
    exact h.extensions

theorem attachExtensions (h : m.Every P) (attached places : List Nat) :
    (m.attachExtensions attached places).1.Every P := by
  induction places generalizing m attached with
  | nil => exact h
  | cons place places ih =>
    rw [Linker.attachExtensions]
    cases he : m.extensions[place]? with
    | none => exact ih h attached
    | some e =>
      obtain ⟨visible, reports, hrest⟩ := m.resolve_rest e.field.scope e.extendee e.field.file
        (some e.field.decl.position)
      rcases heq : m.resolve e.field.scope e.extendee e.field.file (some e.field.decl.position) with
        ⟨m₁, _ | d⟩ <;> simp only [heq] at hrest ⊢ <;> subst hrest
      · exact ih (h.rest visible reports) attached
      · cases Linker.extensionOwner _ attached e d with
        | error p => exact ih ((h.rest visible reports).rest visible _) attached
        | ok owner =>
          refine ih ?_ _
          have hmodified := (h.rest visible reports).modify place
            (fun e => { e with field := { e.field with owner := some owner } })
            fun e he => hP.owner e.field _ (h.extensions e (Array.mem_toList_iff.mpr
              (Array.mem_of_getElem? he)))
          exact ⟨hmodified.fields, hmodified.extensions⟩

theorem linkExtensions (halike : m.Alike l) (h : m.Every P) (places : List Nat) :
    (m.linkExtensions places).Every P := by
  induction places generalizing m with
  | nil => exact h
  | cons place places ih =>
    have hone := alike_linkExtensions m [place]
    rw [Linker.linkExtensions] at hone ⊢
    cases he : m.extensions[place]? with
    | none => exact ih halike h
    | some e =>
      have hresolved := hP.resolve halike e.field
        (h.extensions e (Array.mem_toList_iff.mpr (Array.mem_of_getElem? he)))
      obtain ⟨⟨visible, reports, hrest⟩, -⟩ := m.resolveType_rest e.field
      rcases heq : m.resolveType e.field with ⟨m₁, field⟩
      simp only [he, heq] at hone hresolved hrest ⊢
      subst hrest
      exact ih (hone.trans halike) ((h.rest visible reports).modify _ _ fun _ _ => hresolved)

/-- Whatever comes of it, linking keeps the property. -/
theorem link (h : l.Every P) : l.link.1.Every P := by
  have hlinked := hP.linkFields h
  have hattached := hP.attachExtensions hlinked [] (List.range l.linkFields.extensions.size)
  have halike := (l.linkFields.alike_attachExtensions []
    (List.range l.linkFields.extensions.size)).trans l.alike_linkFields
  unfold Linker.link
  rcases heq : l.linkFields.attachExtensions [] (List.range l.linkFields.extensions.size) with
    ⟨l₁, attached⟩
  simp only [heq] at hattached halike ⊢
  have hextensions := hP.linkExtensions halike hattached attached
  obtain ⟨visible, reports, hmethods⟩ := (l₁.linkExtensions attached).linkMethods_rest
    (l₁.linkExtensions attached).methods.toList
  rcases heq' : (l₁.linkExtensions attached).linkMethods
    (l₁.linkExtensions attached).methods.toList with ⟨l₂, methods⟩
  simp only [heq'] at hmethods ⊢
  subst hmethods
  generalize hl₂ : ({ l₁.linkExtensions attached with visible, reports } : Linker) = l₂
  have hrecorded : l₂.Every P := hl₂ ▸ hextensions.rest visible reports
  obtain ⟨reports', hrecords⟩ := l₂.fieldRecords_rest ((l₂.fields.toList.map fun f => (f, none)) ++
    (l₂.extensionsAt attached).map fun f => (f, some f.scope))
  have hend := hrecorded.rest l₂.visible reports'
  rw [← hrecords] at hend
  split
  · next hfails => rwa [hfails] at hend
  · next hends => rwa [hends] at hend

end Survives

/-! ## Where links lead -/

/-- The links of all fields and extensions lead to messages and enums that have been declared. -/
def LinksInside (l : Linker) : Prop :=
  l.Every fun f => f.link.Within l.inventory.messages.length l.inventory.enums.length

/-- Only what is added has to be looked at, and that is not linked. -/
theorem LinksInside.grow (h : l.LinksInside)
    (hmessages : l.inventory.messages.length ≤ l'.inventory.messages.length)
    (henums : l.inventory.enums.length ≤ l'.inventory.enums.length)
    (hfields : ∀ f ∈ l'.inventory.fields, f ∈ l.inventory.fields ∨ f.link = .unresolved)
    (hextensions : ∀ e ∈ l'.inventory.extensions,
      e ∈ l.inventory.extensions ∨ e.field.link = .unresolved) : l'.LinksInside := by
  refine ⟨fun f hf => ?_, fun e he => ?_⟩
  · rcases hfields f hf with hf | hnew
    · exact (h.fields f hf).mono hmessages henums
    · exact hnew ▸ TypeLink.within_unresolved _ _
  · rcases hextensions e he with he | hnew
    · exact (h.extensions e he).mono hmessages henums
    · exact hnew ▸ TypeLink.within_unresolved _ _

theorem Step.linksInside {named : String → Prop} {file : FileScope} (hstep : Step named file l l')
    (h : l.LinksInside) : l'.LinksInside := by
  cases hstep with
  | note | package | service | method => exact h.grow le_rfl le_rfl (fun _ => .inl) fun _ => .inl
  | message | enum =>
    exact h.grow (by simp) (by simp) (fun f hf => .inl (by simpa using hf))
      fun e he => .inl (by simpa using he)
  | field scope owner f =>
    refine h.grow (by simp) (by simp) (fun f hf => ?_) fun e he => .inl (by simpa using he)
    rw [inventory_addField] at hf
    refine (List.mem_append.mp hf).imp_right fun hf => ?_
    rw [List.mem_singleton.mp hf]
  | extend scope parent e =>
    refine h.grow (by simp) (by simp) (fun f hf => .inl (by simpa using hf)) fun e' he' => ?_
    rw [inventory_declareExtend] at he'
    refine (List.mem_append.mp he').imp_right fun he' => ?_
    obtain ⟨f, -, rfl⟩ := List.mem_map.mp he'
    rfl

theorem LinksInside.declare (h : l.LinksInside) (f : SchemaFile) : (l.declare f).LinksInside := by
  have hsteps : Steps (fun _ => True) f.scope (l.addFile f.scope) (l.declare f) :=
    steps_declare l f (fun _ => trivial) (MessageDecl.forallIn_of_all (fun _ => trivial) f.messages)
  generalize l.declare f = l' at hsteps ⊢
  induction hsteps with
  | refl => exact ⟨h.fields, h.extensions⟩
  | tail _ hstep ih => exact hstep.linksInside ih

/-- A reference that is resolved stands for something that is defined. -/
theorem mem_of_resolve {scope name : String} {file : FileScope} {position : Option Position}
    {d : Definition} (h : (l.resolve scope name file position).2 = some d) : d ∈ l.definitions := by
  obtain ⟨visible, hsees⟩ : ∃ visible, (l.visibleFiles file).1 = { l with visible } := by
    unfold visibleFiles
    split <;> exact ⟨_, rfl⟩
  unfold resolve at h
  simp only [hsees] at h
  split at h
  · next d' hd =>
    obtain rfl := Option.some.inj h
    obtain ⟨fullName, -, hfound⟩ := List.exists_of_findSome?_eq_some hd
    exact List.mem_of_find?_eq_some (Option.filter_eq_some_iff.mp hfound).1
  · cases h

/-- In linkers that are alike, the same definitions lead to the same places. -/
theorem Alike.indexed (h : Alike l m) (hm : m.inventory.Indexed) : l.inventory.Indexed := by
  have hdefinitions : l.inventory.definitions = m.inventory.definitions := h.definitions
  have hmessages := h.inventory_messages
  have henums : l.inventory.enums = m.inventory.enums := congrArg Array.toList h.enums
  have hmethods : l.inventory.methods = m.inventory.methods := congrArg Array.toList h.methods
  refine ⟨?_, ?_, ?_, ?_, ?_, ?_⟩
  · rw [hdefinitions]
    exact hm.nodup
  · rw [hdefinitions, hmessages]
    exact hm.messages
  · rw [hdefinitions, henums]
    exact hm.enums
  · rw [hdefinitions, hmethods]
    exact hm.methods
  · rw [hdefinitions, hmethods]
    exact hm.services
  · rw [hdefinitions]
    exact hm.others

/-- A field that is looked up is linked to a message or enum of its linker, or keeps its link. -/
theorem survives_within (hl : l.inventory.Indexed) : l.Survives fun f =>
    f.link.Within l.inventory.messages.length l.inventory.enums.length where
  owner _ _ h := h
  resolve {m} halike f hf := by
    unfold resolveType
    cases hscalar : FieldType.scalar? f.decl.typeName with
    | some t =>
      simp only [hscalar]
      exact ⟨hf.message, hf.enum⟩
    | none =>
      simp only [hscalar]
      rcases heq : m.resolve f.scope f.decl.typeName f.file (some f.decl.typePosition) with
        ⟨m₁, _ | d⟩
      · exact ⟨hf.message, hf.enum⟩
      · have hd : d ∈ l.inventory.definitions := by
          rw [inventory, ← halike.definitions]
          exact mem_of_resolve (by rw [heq])
        simp only
        split
        · next hkind =>
          obtain ⟨i, x, hx, rfl⟩ := hl.message_of_mem hd hkind
          refine ⟨fun j hj => ?_, hf.enum⟩
          obtain rfl := Option.some.inj hj
          exact (List.getElem?_eq_some_iff.mp hx).1
        · next hkind _ =>
          obtain ⟨i, x, hx, rfl⟩ := hl.enum_of_mem hd hkind
          refine ⟨hf.message, fun j hj => ?_⟩
          obtain rfl := Option.some.inj hj
          exact (List.getElem?_eq_some_iff.mp hx).1
        · exact ⟨hf.message, hf.enum⟩

/-- Whatever comes of it, linking only links to what has been declared. -/
theorem LinksInside.link (h : l.LinksInside) (hl : l.inventory.Indexed) :
    l.link.1.LinksInside := by
  have halike := l.alike_link
  have henums : l.link.1.inventory.enums = l.inventory.enums := congrArg Array.toList halike.enums
  have hkept := (survives_within hl).link h
  rwa [← halike.inventory_messages, ← henums] at hkept

/-! ## The tables of a linker that may have been linked before -/

namespace Told

variable (htold : Told files l) (hlink : l.link = (l', .ok t))
include htold hlink

theorem enums_of_link : t.enums = (ofFiles files).linkedTables.enums ∧
    t.enumValues = (ofFiles files).linkedTables.enumValues := by
  obtain ⟨henums, hvalues⟩ := Linker.enums_of_link hlink
  rw [henums, hvalues]
  simp only [linkedTables, enumRecords, valueRecords, firstValuePlace, htold.alike.enums, and_self]

theorem size_messages : t.messages.size = (ofFiles files).linkedTables.messages.size := by
  obtain ⟨_, _, hstages⟩ := exists_stages_of_link hlink
  have hsize : t.messages.size = l'.messages.size := by simpa using hstages.messages.length_eq.symm
  rw [hsize, ((alike_of_link hlink).trans htold.alike).size_messages]
  simp [linkedTables, inventory]

/-- The record of a message lists what it would list if the linker had not been linked before. -/
theorem exists_record {i : Nat} {r : MessageRecord} (hr : t.messages[i]? = some r) :
    ∃ r₀, (ofFiles files).linkedTables.messages[i]? = some r₀ ∧ r.fields = r₀.fields ∧
      r.messages = r₀.messages ∧ r.enums = r₀.enums ∧ r.isMapEntry = r₀.isMapEntry ∧
      ∀ k ∈ r.fields ++ r.extensions, k < t.fields.size := by
  obtain ⟨_, _, hstages⟩ := exists_stages_of_link hlink
  obtain ⟨m, hm, hrecorded⟩ := hstages.exists_message hr
  obtain ⟨m₀, hm₀, hforget⟩ : ∃ m₀, (ofFiles files).messages[i]? = some m₀ ∧
      m₀.forget = m.forget := by
    have hsame := congrArg (·[i]?) ((alike_of_link hlink).trans htold.alike).messages
    simpa [hm, eq_comm] using hsame
  obtain ⟨hfields, hmessages, henums, -⟩ := listed_ofFiles files i m₀ hm₀
  have hheader : (ofFiles files).inventory.messages[i]? = some m₀.header := by simp [inventory, hm₀]
  refine ⟨_, getElem?_linkedTables_message hheader, ?_, ?_, ?_, ?_, ?_⟩
  · exact hrecorded.fields.trans ((congrArg MessageEntry.fields hforget).symm.trans hfields)
  · exact hrecorded.messages.trans ((congrArg MessageEntry.messages hforget).symm.trans hmessages)
  · exact hrecorded.enums.trans ((congrArg MessageEntry.enums hforget).symm.trans henums)
  · exact hrecorded.isMapEntry.trans (congrArg MessageEntry.isMapEntry hforget).symm
  · rw [hrecorded.fields, hrecorded.extensions]
    exact hrecorded.present

end Told

end Linker

/-! ## Pools -/

namespace Pool

variable {p : Pool}

/-- A pool whose linker only links to what has been declared, and whose tables can be followed. -/
structure Sturdy (p : Pool) : Prop where
  tracked : p.Tracked
  inside : p.linker.LinksInside
  linked : ¬ p.isClosed → ∀ ts, p.linked = some ts → ts.Followable

/-- A file that is loaded is declared. -/
theorem Sturdy.load (hp : p.Sturdy) {a : Attempt} (hnew : p.linker.file? a.name = none) :
    (p.load a.tree a.path a.name a.root).1.Sturdy := by
  have htracked := hp.tracked.load hnew
  cases houtcome : a.outcome with
  | error r =>
    rw [load_of_error hp.tracked.quiet houtcome] at htracked ⊢
    exact ⟨htracked, hp.inside, hp.linked⟩
  | ok f =>
    rw [load_of_ok houtcome] at htracked ⊢
    have hdeclared := hp.inside.declare f
    exact ⟨htracked, ⟨hdeclared.fields, hdeclared.extensions⟩, hp.linked⟩

/-- Linking leaves links to what has been declared. -/
theorem Sturdy.linksInside (hp : p.Sturdy) {l : Linker} {outcome : Except LinkFailure Tables}
    (hlink : p.linker.link = (l, outcome)) : l.LinksInside := by
  obtain ⟨files, htold⟩ := hp.tracked.told
  have hindexed := htold.alike.indexed (Linker.coherent_ofFiles htold.distinct).indexed
  have hlinks := hp.inside.link hindexed
  rwa [hlink] at hlinks

end Pool

end ProtoSchema
