import Mathlib.Data.Set.Function
import Mathlib.Order.Interval.Set.Defs
import ProtoSchema.Descriptor.Basic
import ProtoSchema.Proofs.Descriptor.Index
import ProtoSchema.Proofs.Linker.Linked

/-!
# Renumbered tables and reordered linkers

Two tables say the same in different orders if the places of each arena can be renumbered, one to
one, so that the records of one become those of the other: with all places that they keep renumbered
as well, and all else as it is (`Renumbered`). So messages, enums and methods keep their full names,
fields their numbers and the messages they belong to, and enum values their names and enums. The
extensions of a message may stand in another order. Indexes are compared by what they find.

A linker is reordered if it knows the same files and holds the same entries at other places
(`Reordered`). Then whatever a reference means in the one it means, at its other place, in the
other: this goes through the links of fields, the targets of extensions, the ends of methods and the
defaults. So if everything is resolved in the one, it is in the other too (`Reordered.resolved`).
-/

namespace ProtoSchema

/-! ## Renumbered tables -/

/-- New places for the records of each arena. -/
structure Renumbering where
  message : Nat → Nat
  field : Nat → Nat
  enum : Nat → Nat
  enumValue : Nat → Nat
  method : Nat → Nat

variable {κ : Type} [DecidableEq κ]

/-- An index finds renumbered places. -/
def Index.Renumbered (f : Nat → Nat) (index index' : Index κ) : Prop :=
  ∀ key, index'.find? key = (index.find? key).map f

/-- A default with the place of its enum value renumbered. -/
def DefaultValue.renumber (ρ : Renumbering) : DefaultValue → DefaultValue
  | .enumValue place => .enumValue (ρ.enumValue place)
  | .int i => .int i
  | .float x => .float x
  | .bool b => .bool b
  | .string s => .string s
  | .bytes bs => .bytes bs

/-- A field with all places renumbered. -/
def FieldRecord.renumber (ρ : Renumbering) (f : FieldRecord) : FieldRecord :=
  { f with
    default := f.default.map (·.renumber ρ)
    containingType := f.containingType.map ρ.message
    messageType := f.messageType.map ρ.message
    enumType := f.enumType.map ρ.enum }

/-- An enum value with the place of its enum renumbered. -/
def EnumValueRecord.renumber (ρ : Renumbering) (v : EnumValueRecord) : EnumValueRecord :=
  { v with enum := ρ.enum v.enum }

/-- A method with all places renumbered. -/
def MethodRecord.renumber (ρ : Renumbering) (m : MethodRecord) : MethodRecord :=
  { m with inputType := m.inputType.map ρ.message, outputType := m.outputType.map ρ.message }

/-- One enum is another with all places renumbered. -/
structure EnumRecord.Renumbered (ρ : Renumbering) (e e' : EnumRecord) : Prop where
  name : e'.name = e.name
  fullName : e'.fullName = e.fullName
  file : e'.file = e.file
  parent : e'.parent = e.parent.map ρ.message
  values : e'.values = e.values.map ρ.enumValue
  valuesByNumber : e.valuesByNumber.Renumbered ρ.enumValue e'.valuesByNumber
  valuesByName : e.valuesByName.Renumbered ρ.enumValue e'.valuesByName

/-- One message is another with all places renumbered and its extensions in some order. -/
structure MessageRecord.Renumbered (ρ : Renumbering) (m m' : MessageRecord) : Prop where
  name : m'.name = m.name
  fullName : m'.fullName = m.fullName
  file : m'.file = m.file
  parent : m'.parent = m.parent.map ρ.message
  fields : m'.fields = m.fields.map ρ.field
  extensions : m'.extensions.Perm (m.extensions.map ρ.field)
  messages : m'.messages = m.messages.map ρ.message
  enums : m'.enums = m.enums.map ρ.enum
  fieldsByNumber : m.fieldsByNumber.Renumbered ρ.field m'.fieldsByNumber
  fieldsByName : m.fieldsByName.Renumbered ρ.field m'.fieldsByName
  isMapEntry : m'.isMapEntry = m.isMapEntry

/-- The places of two arenas correspond one to one. -/
abbrev OneToOne (f : Nat → Nat) (size size' : Nat) : Prop :=
  Set.BijOn f (Set.Iio size) (Set.Iio size')

namespace Tables

/-- The places of each arena correspond one to one. -/
structure PlacesMatch (ρ : Renumbering) (t t' : Tables) : Prop where
  message : OneToOne ρ.message t.messages.size t'.messages.size
  field : OneToOne ρ.field t.fields.size t'.fields.size
  enum : OneToOne ρ.enum t.enums.size t'.enums.size
  enumValue : OneToOne ρ.enumValue t.enumValues.size t'.enumValues.size
  method : OneToOne ρ.method t.methods.size t'.methods.size

/-- One table is the other with all places renumbered. -/
structure Renumbered (ρ : Renumbering) (t t' : Tables) : Prop where
  places : t.PlacesMatch ρ t'
  messages : ∀ (i : Nat) m, t.messages[i]? = some m →
    ∃ m', t'.messages[ρ.message i]? = some m' ∧ m.Renumbered ρ m'
  fields : ∀ i : Nat, t'.fields[ρ.field i]? = (t.fields[i]?).map (·.renumber ρ)
  enums : ∀ (i : Nat) e, t.enums[i]? = some e →
    ∃ e', t'.enums[ρ.enum i]? = some e' ∧ e.Renumbered ρ e'
  enumValues : ∀ i : Nat, t'.enumValues[ρ.enumValue i]? = (t.enumValues[i]?).map (·.renumber ρ)
  methods : ∀ i : Nat, t'.methods[ρ.method i]? = (t.methods[i]?).map (·.renumber ρ)
  messagesByName : t.messagesByName.Renumbered ρ.message t'.messagesByName
  enumsByName : t.enumsByName.Renumbered ρ.enum t'.enumsByName
  methodsByName : t.methodsByName.Renumbered ρ.method t'.methodsByName

end Tables

/-! ## Indexes -/

/-- If what one index finds corresponds to what another one finds, then it finds renumbered places.
-/
theorem Index.Renumbered.of_iff {f : Nat → Nat} {index index' : Index κ} {P P' : κ → Nat → Prop}
    (h : ∀ key i, index.find? key = some i ↔ P key i)
    (h' : ∀ key i, index'.find? key = some i ↔ P' key i)
    (hmap : ∀ key i, P key i → P' key (f i))
    (honto : ∀ key j, P' key j → ∃ i, P key i) : index.Renumbered f index' := by
  intro key
  cases hfind : index.find? key with
  | some i => exact (h' key (f i)).mpr (hmap key i ((h key i).mp hfind))
  | none =>
    rw [Option.map_none, Option.eq_none_iff_forall_ne_some]
    intro j hj
    obtain ⟨i, hi⟩ := honto key j ((h' key j).mp hj)
    rw [(h key i).mpr hi] at hfind
    exact absurd hfind (by simp)

/-- Where the last mention of a key counts, renumbering the mentions renumbers the index. -/
theorem Index.Renumbered.ofLast (f : Nat → Nat) (entries : List (κ × Nat)) :
    (Index.ofLast entries).Renumbered f (.ofLast (entries.map (Prod.map id f))) := by
  intro key
  simp only [Index.find?_ofLast, ← List.map_reverse, List.find?_map, Option.map_map]
  rfl

@[inherit_doc Index.Renumbered.ofLast]
theorem Index.Renumbered.ofFirst (f : Nat → Nat) (entries : List (κ × Nat)) :
    (Index.ofFirst entries).Renumbered f (.ofFirst (entries.map (Prod.map id f))) := by
  intro key
  simp only [Index.find?_ofFirst, List.find?_map, Option.map_map]
  rfl

/-! ## Reordered linkers -/

variable {ρ : Renumbering}

/-- A definition at its new place. -/
def Definition.renumber (ρ : Renumbering) (d : Definition) : Definition :=
  { d with place :=
      match d.kind with
      | .message => d.place.map ρ.message
      | .enum => d.place.map ρ.enum
      | .method => d.place.map ρ.method
      | .package | .service => d.place }

/-- A link that leads to new places. -/
def TypeLink.renumber (ρ : Renumbering) (link : TypeLink) : TypeLink :=
  { link with
    messageType := link.messageType.map ρ.message
    enumType := link.enumType.map ρ.enum }

/-- A field with its owner and its links at their new places. -/
def FieldEntry.renumber (ρ : Renumbering) (f : FieldEntry) : FieldEntry :=
  { f with owner := f.owner.map ρ.message, link := f.link.renumber ρ }

/-- A message that is nested in one at a new place. -/
def MessageHeader.renumber (ρ : Renumbering) (m : MessageHeader) : MessageHeader :=
  { m with parent := m.parent.map ρ.message }

/-- An enum that is nested in a message at a new place. -/
def EnumEntry.renumber (ρ : Renumbering) (e : EnumEntry) : EnumEntry :=
  { e with parent := e.parent.map ρ.message }

/-- The same files are known, and the same entries are held at other places. -/
structure Linker.Reordered (ρ : Renumbering) (l l' : Linker) : Prop where
  visible : ∀ file, l'.visibleFrom file = l.visibleFrom file
  definition : ∀ name, l'.definition? name = (l.definition? name).map (·.renumber ρ)
  injective : Set.InjOn ρ.message (Set.Iio l.inventory.messages.length)
  message : ∀ i, l'.inventory.messages[ρ.message i]? =
    (l.inventory.messages[i]?).map (·.renumber ρ)
  enum : ∀ i, l'.enums[ρ.enum i]? = (l.enums[i]?).map (·.renumber ρ)
  enumValue : ∀ i e k, l.enums[i]? = some e → k < e.values.length →
    ρ.enumValue (l.firstValuePlace i + k) = l'.firstValuePlace (ρ.enum i) + k
  fields : l'.inventory.fields.Perm (l.inventory.fields.map (·.renumber ρ))
  extensions : l'.inventory.extensions.Perm l.inventory.extensions
  methods : l'.inventory.methods.Perm l.inventory.methods

/-! ## Defaults at new places -/

@[simp] theorem DefaultValue.renumber_of_ne {d : DefaultValue}
    (h : ∀ place, d ≠ .enumValue place) : d.renumber ρ = d := by
  cases d with
  | enumValue place => exact absurd rfl (h place)
  | int | float | bool | string | bytes => rfl

theorem map_renumber_eq {ε : Type} {r : Except ε DefaultValue}
    (h : ∀ place, r ≠ .ok (.enumValue place)) : r.map (·.renumber ρ) = r := by
  cases r with
  | error e => rfl
  | ok d => exact congrArg Except.ok (d.renumber_of_ne fun place hd => h place (hd ▸ rfl))

namespace Linker

theorem map_mapError {ε ε' α β : Type} (r : Except ε α) (f : ε → ε') (g : α → β) :
    (r.mapError f).map g = (r.map g).mapError f := by
  cases r <;> rfl

/-- What a definition is as a type leads to its new place. -/
theorem typeLinkOf_renumber (d : Definition) (isGroup : Bool) :
    typeLinkOf (d.renumber ρ) isGroup = (typeLinkOf d isGroup).map (·.renumber ρ) := by
  obtain ⟨kind, fullName, file, place⟩ := d
  cases kind <;> cases isGroup <;> rfl

namespace Reordered

variable {l l' : Linker} (h : Reordered ρ l l')
include h

/-! ## References -/

/-- A reference means the same at its new place. -/
theorem meaning? (scope name : String) (file : FileScope) :
    l'.meaning? scope name file = (l.meaning? scope name file).map (·.renumber ρ) := by
  have hseen (d : Definition) : (d.renumber ρ).seenIn (l.visibleFrom file) =
      d.seenIn (l.visibleFrom file) := rfl
  unfold Linker.meaning? lookup?
  rw [h.visible]
  -- the candidates are tried in the same order, each with the same outcome
  induction Dotted.candidates scope name with
  | nil => rfl
  | cons fullName names ih =>
    rw [List.findSome?_cons, List.findSome?_cons, h.definition, ih]
    cases l.definition? fullName with
    | none => rfl
    | some d =>
      rw [Option.map_some, Option.filter_some, Option.filter_some, hseen]
      cases d.seenIn (l.visibleFrom file) <;> rfl

theorem typeLink? (f : FieldEntry) :
    l'.typeLink? (f.renumber ρ) = (l.typeLink? f).map (·.renumber ρ) := by
  simp only [Linker.typeLink?, FieldEntry.renumber, h.meaning?]
  cases FieldType.scalar? f.decl.typeName with
  | some t => rfl
  | none =>
    cases l.meaning? f.scope f.decl.typeName f.file with
    | none => rfl
    | some d => exact typeLinkOf_renumber d f.decl.isGroup

theorem linked (f : FieldEntry) : l'.linked (f.renumber ρ) = (l.linked f).renumber ρ := by
  unfold Linker.linked
  rw [h.typeLink?]
  cases l.typeLink? f <;> rfl

/-- An extension is for the same message, at its new place. -/
theorem target? (e : ExtensionEntry) : l'.target? e = (l.target? e).map ρ.message := by
  unfold Linker.target?
  rw [h.meaning?]
  cases l.meaning? e.field.scope e.extendee e.field.file with
  | none => rfl
  | some d =>
    by_cases hkind : d.kind = .message
    · have hplace : (d.renumber ρ).place = d.place.map ρ.message := by
        simp [Definition.renumber, hkind]
      simp only [Option.map_some, Option.bind_some, hplace, hkind, if_true,
        show (d.renumber ρ).kind = .message from hkind]
      cases d.place with
      | none => rfl
      | some place =>
        rw [Option.map_some, Option.filter_some, Option.filter_some, h.message]
        cases l.inventory.messages[place]? with
        | none => rfl
        | some m =>
          by_cases hopen :
              NumberRange.anyContains m.extensionRanges maxFieldNumber e.field.decl.number <;>
            simp [MessageHeader.renumber, hopen]
    · have hkind' : (d.renumber ρ).kind ≠ .message := hkind
      simp [hkind, hkind']

theorem targeted {e : ExtensionEntry} (he : e.field.link = .unresolved) :
    l'.targeted e = (l.targeted e).renumber ρ := by
  simp only [Linker.targeted, h.target?, FieldEntry.renumber, he]
  rfl

theorem methodEnd? (m : MethodEntry) (type : String) :
    l'.methodEnd? m type = (l.methodEnd? m type).map ρ.message := by
  unfold Linker.methodEnd?
  rw [h.meaning?]
  cases l.meaning? m.service type m.file with
  | none => rfl
  | some d =>
    by_cases hkind : d.kind = .message
    · simp [hkind, Definition.renumber]
    · have hkind' : (d.renumber ρ).kind ≠ .message := hkind
      simp [hkind, hkind']

theorem methodEndFits (m : MethodEntry) (type : String) :
    l'.MethodEndFits m type ↔ l.MethodEndFits m type := by
  unfold MethodEndFits
  rw [h.meaning?]
  cases l.meaning? m.service type m.file with
  | none => simp
  | some d => simp [Definition.renumber]

theorem methodRecord (m : MethodEntry) :
    l'.methodRecord m = (l.methodRecord m).renumber ρ := by
  simp only [Linker.methodRecord, h.methodEnd?, MethodRecord.renumber]

/-! ## Options -/

/-- A value names the same value of an enum, at its new place. -/
theorem enumDefault (enum : Option Nat) (value : Value) :
    l'.enumDefault (enum.map ρ.enum) value =
      (l.enumDefault enum value).map (·.renumber ρ) := by
  cases enum with
  | none => cases value <;> rfl
  | some i =>
    unfold Linker.enumDefault
    simp only [Option.map_some, Option.bind_some, h.enum]
    cases he : l.enums[i]? with
    | none => cases value <;> rfl
    | some e =>
      cases value with
      | ident name =>
        simp only [Option.map_some, EnumEntry.renumber]
        cases hk : e.values.findIdx? (·.name = name) with
        | none => rfl
        | some k =>
          obtain ⟨hlt, -⟩ := List.findIdx?_eq_some_iff_getElem.mp hk
          simp only [← h.enumValue i e k he hlt]
          rfl
      | int | float | string | aggregate | list => rfl

theorem convertDefault (link : TypeLink) (value : Value) :
    l'.convertDefault (link.renumber ρ) value =
      (l.convertDefault link value).map (·.renumber ρ) := by
  have htype : (link.renumber ρ).type = link.type := rfl
  unfold Linker.convertDefault
  rw [htype]
  split
  · rw [map_mapError, map_renumber_eq fun _ => integerDefault_ne_enumValue]
  · split
    · rw [map_renumber_eq fun _ => floatDefault_ne_enumValue]
    · rw [map_renumber_eq fun _ => floatDefault_ne_enumValue]
    · rw [map_mapError, map_renumber_eq fun _ => boolDefault_ne_enumValue]
    · rw [map_mapError, map_renumber_eq fun _ => stringDefault_ne_enumValue]
    · rw [map_mapError, map_renumber_eq fun _ => bytesDefault_ne_enumValue]
    · rw [map_mapError, ← h.enumDefault]
      rfl

theorem defaultOf (f : FieldEntry) (label : Label) (value : Value) :
    l'.defaultOf (f.renumber ρ) label value =
      (l.defaultOf f label value).map (Option.map (·.renumber ρ)) := by
  have hlink : (f.renumber ρ).link = f.link.renumber ρ := rfl
  have htype : (f.link.renumber ρ).type = f.link.type := rfl
  have hfile : (f.renumber ρ).file = f.file := rfl
  unfold Linker.defaultOf
  rw [hfile, hlink, htype, h.convertDefault]
  split
  · rfl
  · split
    · rfl
    · split
      · rfl
      · rfl
      · rfl
      · cases l.convertDefault f.link value <;> rfl

theorem default? (f : FieldEntry) :
    l'.default? (f.renumber ρ) = (l.default? f).map (·.renumber ρ) := by
  have hdecl : (f.renumber ρ).decl = f.decl := rfl
  have hlabel : (f.renumber ρ).label = f.label := rfl
  unfold Linker.default?
  rw [hdecl, hlabel]
  cases f.decl.option? "default" with
  | none => rfl
  | some o =>
    rw [Option.bind_some, Option.bind_some, h.defaultOf]
    cases l.defaultOf f f.label o.value.value with
    | error refusal => rfl
    | ok d => cases d <;> rfl

theorem defaultFits {f : FieldEntry} (hf : l.DefaultFits f) : l'.DefaultFits (f.renumber ρ) := by
  intro o ho
  obtain ⟨d, hd⟩ := hf o ho
  have hlabel : (f.renumber ρ).label = f.label := rfl
  exact ⟨d.map (·.renumber ρ), by rw [hlabel, h.defaultOf, hd]; rfl⟩

theorem not_overflows {f : FieldEntry} (hf : ¬ l.Overflows f) : ¬ l'.Overflows (f.renumber ρ) := by
  rintro ⟨o, ho, e, he⟩
  have hlabel : (f.renumber ρ).label = f.label := rfl
  rw [hlabel, h.defaultOf] at he
  refine hf ⟨o, ho, e, ?_⟩
  cases hd : l.defaultOf f f.label o.value.value with
  | ok d =>
    rw [hd] at he
    exact absurd he (by simp [Except.map])
  | error refusal =>
    rw [hd] at he
    exact he

/-- The record of a field, at its new place. -/
theorem fieldRecord (f : FieldEntry) (extensionScope : Option String) :
    l'.fieldRecord (l'.linked (f.renumber ρ)) extensionScope =
      (l.fieldRecord (l.linked f) extensionScope).renumber ρ := by
  rw [h.linked]
  simp only [Linker.fieldRecord, h.default?]
  rfl

/-! ## Members -/

/-- Messages are told apart at their new places. -/
theorem eq_of_map_message_eq {owner owner' : Option Nat}
    (ho : ∀ i ∈ owner, i < l.inventory.messages.length)
    (ho' : ∀ i ∈ owner', i < l.inventory.messages.length)
    (heq : owner.map ρ.message = owner'.map ρ.message) : owner = owner' := by
  cases owner with
  | none => exact (Option.map_eq_none_iff.mp heq.symm).symm
  | some i =>
    obtain ⟨j, rfl, hj⟩ := Option.map_eq_some_iff.mp heq.symm
    exact congrArg some (h.injective (ho i rfl) (ho' j rfl) hj.symm)

variable (hl : l.Coherent)
include hl

/-- All extensions can be attached in the one order if they can be in the other. -/
theorem attachable (hattachable : l.Attachable l.inventory.fields l.inventory.extensions) :
    l'.Attachable l'.inventory.fields l'.inventory.extensions := by
  obtain ⟨htargets, hmembers, hapart⟩ := hattachable
  refine ⟨?_, ?_, ?_⟩
  · intro e he
    rw [h.target?, Option.isSome_map]
    exact htargets e (h.extensions.mem_iff.mp he)
  · intro e he f' hf' howner
    obtain ⟨f, hf, rfl⟩ := List.mem_map.mp (h.fields.mem_iff.mp hf')
    rw [h.target?] at howner
    refine hmembers e (h.extensions.mem_iff.mp he) f hf ?_
    exact h.eq_of_map_message_eq (fun i hi => hl.nested.owner_lt hf hi) (fun i hi => target?_lt hi)
      howner
  · rw [h.extensions.pairwise_iff]
    · refine hapart.imp fun {e e'} hnumber htarget => hnumber ?_
      rw [h.target?, h.target?] at htarget
      exact h.eq_of_map_message_eq (fun i hi => target?_lt hi) (fun i hi => target?_lt hi) htarget
    · intro e e' hnumber htarget
      exact (hnumber htarget.symm).symm

theorem attached (hattachable : l.Attachable l.inventory.fields l.inventory.extensions) :
    l'.attached.Perm (l.attached.map (·.renumber ρ)) := by
  have hmap : l.inventory.extensions.map l'.targeted =
      (l.inventory.extensions.map l.targeted).map (·.renumber ρ) := by
    rw [List.map_map]
    apply List.map_congr_left
    intro e he
    exact h.targeted (hl.unlinked.inventory.extensions e he).2.1
  rw [Linker.attached, Linker.attached, attachedTo_eq_map hattachable,
    attachedTo_eq_map (h.attachable hl hattachable), ← hmap]
  exact h.extensions.map _

theorem scopedMembers
    (hattachable : l.Attachable l.inventory.fields l.inventory.extensions) :
    l'.scopedMembers.Perm (l.scopedMembers.map (Prod.map (·.renumber ρ) id)) := by
  have hfields := h.fields.map fun f => (f, (none : Option String))
  have hattached := (h.attached hl hattachable).map fun f => (f, some f.scope)
  rw [List.map_map] at hfields hattached
  rw [Linker.scopedMembers, Linker.scopedMembers, List.map_append, List.map_map, List.map_map]
  exact hfields.append hattached

theorem members (hattachable : l.Attachable l.inventory.fields l.inventory.extensions) :
    l'.members.Perm (l.members.map (·.renumber ρ)) := by
  have hmembers := (h.scopedMembers hl hattachable).map Prod.fst
  rw [← map_fst_scopedMembers, ← map_fst_scopedMembers, List.map_map]
  rwa [List.map_map] at hmembers

/-- What is resolved in the one order is resolved in the other. -/
theorem resolved (hresolved : l.Resolved) : l'.Resolved := by
  have hattachable := length_attachedTo_eq_iff.mp hresolved.attached
  have hmembers {P : FieldEntry → Prop} (hP : ∀ f ∈ l.members, P (f.renumber ρ)) :
      ∀ f ∈ l'.members, P f := by
    intro f hf
    obtain ⟨g, hg, rfl⟩ := List.mem_map.mp ((h.members hl hattachable).mem_iff.mp hf)
    exact hP g hg
  refine ⟨length_attachedTo_eq_iff.mpr (h.attachable hl hattachable), ?_, ?_, ?_⟩
  · refine hmembers fun f hf => ?_
    rw [h.typeLink?, Option.isSome_map]
    exact hresolved.types f hf
  · intro m hm
    obtain ⟨hinput, houtput⟩ := hresolved.methods m (h.methods.mem_iff.mp hm)
    exact ⟨(h.methodEndFits m _).mpr hinput, (h.methodEndFits m _).mpr houtput⟩
  · refine hmembers fun f hf => ?_
    rw [h.linked]
    obtain ⟨hdefault, hpacked⟩ := hresolved.options f hf
    exact ⟨h.defaultFits hdefault, hpacked⟩

end Reordered

end Linker

end ProtoSchema
