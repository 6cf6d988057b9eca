import ProtoSchema.Proofs.Descriptor.Index
import ProtoSchema.Proofs.Linker.Linked

/-!
# Linked tables refer to themselves only

Whatever files were declared, and whatever was dropped from them: if linking gives tables, then
every place that is kept in a record or an index lies inside its arena (`InBounds`), every field,
nested message, nested enum and enum value belongs to exactly one record, which is the one that it
names (`Owned`), and a field leads to a message or an enum just if its type is one (`TypesLinked`).
-/

namespace ProtoSchema

namespace Tables

/-! ## What holds of linked tables -/

/-- Every place that the record of a message keeps lies inside its arena. -/
structure MessageInBounds (t : Tables) (m : MessageRecord) : Prop where
  parent : ∀ i ∈ m.parent, i < t.messages.size
  fields : ∀ i ∈ m.fields, i < t.fields.size
  extensions : ∀ i ∈ m.extensions, i < t.fields.size
  messages : ∀ i ∈ m.messages, i < t.messages.size
  enums : ∀ i ∈ m.enums, i < t.enums.size
  fieldsByNumber : ∀ e ∈ m.fieldsByNumber.entries, e.2 < t.fields.size
  fieldsByName : ∀ e ∈ m.fieldsByName.entries, e.2 < t.fields.size

/-- Every place that the record of a field keeps lies inside its arena. -/
structure FieldInBounds (t : Tables) (f : FieldRecord) : Prop where
  containingType : ∀ i ∈ f.containingType, i < t.messages.size
  messageType : ∀ i ∈ f.messageType, i < t.messages.size
  enumType : ∀ i ∈ f.enumType, i < t.enums.size
  default : ∀ i, f.default = some (.enumValue i) → i < t.enumValues.size

/-- Every place that the record of an enum keeps lies inside its arena. -/
structure EnumInBounds (t : Tables) (e : EnumRecord) : Prop where
  parent : ∀ i ∈ e.parent, i < t.messages.size
  values : ∀ i ∈ e.values, i < t.enumValues.size
  valuesByNumber : ∀ v ∈ e.valuesByNumber.entries, v.2 < t.enumValues.size
  valuesByName : ∀ v ∈ e.valuesByName.entries, v.2 < t.enumValues.size

/-- Every place that is kept anywhere lies inside its arena. -/
structure InBounds (t : Tables) : Prop where
  messages : ∀ m ∈ t.messages, t.MessageInBounds m
  fields : ∀ f ∈ t.fields, t.FieldInBounds f
  enums : ∀ e ∈ t.enums, t.EnumInBounds e
  enumValues : ∀ v ∈ t.enumValues, v.enum < t.enums.size
  methods : ∀ m ∈ t.methods, (∀ i ∈ m.inputType, i < t.messages.size) ∧
    ∀ i ∈ m.outputType, i < t.messages.size
  messagesByName : ∀ e ∈ t.messagesByName.entries, e.2 < t.messages.size
  enumsByName : ∀ e ∈ t.enumsByName.entries, e.2 < t.enums.size
  methodsByName : ∀ e ∈ t.methodsByName.entries, e.2 < t.methods.size

/-- Everything that belongs to a record is in the lists of that record once, and in no others: all
fields and extensions together are all places of fields, and so with enum values. -/
structure Owned (t : Tables) : Prop where
  fields : (t.messages.toList.flatMap fun m => m.fields ++ m.extensions).Perm
    (List.range t.fields.size)
  containingType : ∀ (i : Nat) m, t.messages[i]? = some m → ∀ k ∈ m.fields ++ m.extensions,
    ∃ f, t.fields[k]? = some f ∧ f.containingType = some i
  messages : ∀ (i : Nat) m, t.messages[i]? = some m → m.messages.Nodup ∧
    ∀ k, k ∈ m.messages ↔ ∃ n, t.messages[k]? = some n ∧ n.parent = some i
  enums : ∀ (i : Nat) m, t.messages[i]? = some m → m.enums.Nodup ∧
    ∀ k, k ∈ m.enums ↔ ∃ e, t.enums[k]? = some e ∧ e.parent = some i
  values : (t.enums.toList.flatMap (·.values)).Perm (List.range t.enumValues.size)
  enum : ∀ (i : Nat) e, t.enums[i]? = some e → ∀ k ∈ e.values,
    ∃ v, t.enumValues[k]? = some v ∧ v.enum = i

/-- A field leads to a message just if its type is a message or group, and to an enum just if its
type is an enum. -/
structure TypesLinked (t : Tables) : Prop where
  message : ∀ f ∈ t.fields, f.messageType.isSome ↔ f.type = .message ∨ f.type = .group
  enum : ∀ f ∈ t.fields, f.enumType.isSome ↔ f.type = .enum

end Tables

/-- A link leads to a message just if its type is a message or group, to an enum just if its type is
an enum, and nowhere but to what has been declared. -/
structure TypeLink.Sound (link : TypeLink) (a : Inventory) : Prop where
  message : link.messageType.isSome ↔ link.type = .message ∨ link.type = .group
  enum : link.enumType.isSome ↔ link.type = .enum
  message_lt : ∀ i ∈ link.messageType, i < a.messages.length
  enum_lt : ∀ i ∈ link.enumType, i < a.enums.length

namespace Linker

variable {l : Linker}

/-! ## Links -/

/-- What a scalar keyword names is neither a message nor an enum. -/
theorem scalar?_sound {name : String} {t : FieldType} (h : FieldType.scalar? name = some t)
    (typeName : String) (a : Inventory) : TypeLink.Sound ⟨t, typeName, none, none⟩ a := by
  have hmem : t ∈ FieldType.scalars := List.mem_of_find?_eq_some h
  have hnone : ∀ t ∈ FieldType.scalars, t ≠ .message ∧ t ≠ .group ∧ t ≠ .enum := by decide
  obtain ⟨hmessage, hgroup, henum⟩ := hnone t hmem
  constructor <;> simp [hmessage, hgroup, henum]

/-- What a definition is as a type leads back to what it defines. -/
theorem typeLinkOf_sound {a : Inventory} (ha : a.Indexed) {d : Definition}
    (hd : d ∈ a.definitions) {isGroup : Bool} {link : TypeLink}
    (h : typeLinkOf d isGroup = some link) : link.Sound a := by
  unfold typeLinkOf at h
  split at h
  · next hkind =>
    obtain ⟨i, m, hi, rfl⟩ := ha.message_of_mem hd hkind
    obtain ⟨hlt, -⟩ := List.getElem?_eq_some_iff.mp hi
    obtain rfl := Option.some.inj h
    constructor <;> simp [Inventory.messageDefinition, hlt]
  · next hkind =>
    obtain ⟨i, m, hi, rfl⟩ := ha.message_of_mem hd hkind
    obtain ⟨hlt, -⟩ := List.getElem?_eq_some_iff.mp hi
    obtain rfl := Option.some.inj h
    constructor <;> simp [Inventory.messageDefinition, hlt]
  · next hkind =>
    obtain ⟨i, e, hi, rfl⟩ := ha.enum_of_mem hd hkind
    obtain ⟨hlt, -⟩ := List.getElem?_eq_some_iff.mp hi
    obtain rfl := Option.some.inj h
    constructor <;> simp [Inventory.enumDefinition, hlt]
  · exact absurd h (by simp)

/-- The link of every field is sound, whether its reference could be resolved or not. -/
theorem Coherent.linked_sound (hl : l.Coherent) (f : FieldEntry) :
    (l.linked f).link.Sound l.inventory := by
  cases h : l.typeLink? f with
  | none => constructor <;> simp [linked, h, TypeLink.unresolved]
  | some link =>
    simp only [linked, h, Option.getD_some]
    simp only [typeLink?] at h
    cases hscalar : FieldType.scalar? f.decl.typeName with
    | some t =>
      simp only [hscalar, Option.some.injEq] at h
      exact h ▸ scalar?_sound hscalar _ _
    | none =>
      simp only [hscalar] at h
      obtain ⟨d, hd, hlink⟩ := Option.bind_eq_some_iff.mp h
      exact typeLinkOf_sound hl.indexed (mem_of_meaning? hd) hlink

/-- The end of a method is a message. -/
theorem Coherent.methodEnd?_lt (hl : l.Coherent) {m : MethodEntry} {type : String} {i : Nat}
    (h : l.methodEnd? m type = some i) : i < l.inventory.messages.length := by
  obtain ⟨d, hd, hplace⟩ := Option.bind_eq_some_iff.mp h
  split at hplace
  · next hkind =>
    obtain ⟨j, m, hj, rfl⟩ := hl.indexed.message_of_mem (mem_of_meaning? hd) hkind
    obtain rfl := Option.some.inj hplace
    exact (List.getElem?_eq_some_iff.mp hj).1
  · exact absurd hplace (by simp)

/-! ## Places -/

theorem mem_memberRecords {r : FieldRecord} (h : r ∈ l.memberRecords) :
    ∃ f ∈ l.members, ∃ extensionScope, r = l.fieldRecord (l.linked f) extensionScope := by
  rcases List.mem_append.mp h with h | h <;> obtain ⟨f, hf, rfl⟩ := List.mem_map.mp h
  · exact ⟨f, List.mem_append_left _ hf, none, rfl⟩
  · exact ⟨f, List.mem_append_right _ hf, some f.scope, rfl⟩

/-- The record of a field stands at the place of the field. -/
theorem getElem?_memberRecords_field {k : Nat} {f : FieldEntry}
    (hf : l.inventory.fields[k]? = some f) :
    l.memberRecords[k]? = some (l.fieldRecord (l.linked f) none) := by
  have hlt := (List.getElem?_eq_some_iff.mp hf).1
  rw [memberRecords, List.getElem?_append_left (by simpa using hlt), List.getElem?_map, hf,
    Option.map_some]

theorem getElem?_linkedTables_message {i : Nat} {m : MessageHeader}
    (hm : l.inventory.messages[i]? = some m) :
    l.linkedTables.messages[i]? = some (l.linkedMessage i m) := by
  simp [linkedTables, hm]

theorem getElem?_linkedTables_field {k : Nat} {f : FieldEntry}
    (hf : l.inventory.fields[k]? = some f) :
    l.linkedTables.fields[k]? = some (l.fieldRecord (l.linked f) none) := by
  simp [linkedTables, getElem?_memberRecords_field hf]

theorem getElem?_linkedTables_enum {k : Nat} {e : EnumEntry} (he : l.inventory.enums[k]? = some e) :
    l.linkedTables.enums[k]? = some (enumRecord (l.firstValuePlace k) e) := by
  have hentry : l.enums[k]? = some e := by simpa [inventory] using he
  simp [linkedTables, getElem?_enumRecords, hentry]

@[simp] theorem length_memberRecords (l : Linker) : l.memberRecords.length = l.members.length := by
  simp [memberRecords, members]

theorem lt_of_mem_findIdxs {α : Type} {p : α → Bool} {xs : List α} {i : Nat}
    (h : i ∈ xs.findIdxs p) : i < xs.length := by
  obtain ⟨x, hx, -⟩ := mem_findIdxs.mp h
  exact (List.getElem?_eq_some_iff.mp hx).1

/-- The places of an index are among those that it is made from. -/
theorem snd_mem_of_mem_zip {α β : Type} {xs : List α} {ys : List β} {e : α × β}
    (h : e ∈ xs.zip ys) : e.2 ∈ ys := (List.of_mem_zip h).2

theorem Coherent.messageInBounds (hl : l.Coherent) {i : Nat} {m : MessageHeader}
    (hm : l.inventory.messages[i]? = some m) :
    l.linkedTables.MessageInBounds (l.linkedMessage i m) := by
  have hsize : l.linkedTables.fields.size = l.members.length := by simp [linkedTables]
  have hown : ∀ k ∈ l.inventory.fields.findIdxs (·.owner = some i), k < l.members.length := by
    intro k hk
    exact Nat.lt_of_lt_of_le (lt_of_mem_findIdxs hk) (by simp [members])
  have hall : ∀ k ∈ l.members.findIdxs (·.owner = some i), k < l.members.length :=
    fun k hk => lt_of_mem_findIdxs hk
  refine ⟨?_, ?_, ?_, ?_, ?_, ?_, ?_⟩
  · intro k hk
    have hlt := hl.nested.message_parent_lt (List.mem_of_getElem? hm) hk
    simpa [linkedTables] using hlt
  · rw [hsize]
    exact hown
  · rw [hsize]
    intro k hk
    apply hall
    rw [members, List.findIdxs_append]
    exact List.mem_append_right _ (by simpa [linkedMessage] using hk)
  · intro k hk
    simpa [linkedTables] using lt_of_mem_findIdxs hk
  · intro k hk
    simpa [linkedTables] using lt_of_mem_findIdxs hk
  · rw [hsize]
    intro e he
    exact hall _ (snd_mem_of_mem_zip (Index.mem_ofLast he))
  · rw [hsize]
    intro e he
    exact hown _ (snd_mem_of_mem_zip (Index.mem_ofLast he))

theorem Coherent.fieldInBounds (hl : l.Coherent) {f : FieldEntry} (hf : f ∈ l.members)
    (extensionScope : Option String) :
    l.linkedTables.FieldInBounds (l.fieldRecord (l.linked f) extensionScope) := by
  have hsound := hl.linked_sound f
  refine ⟨?_, ?_, ?_, ?_⟩
  · intro i hi
    obtain ⟨j, hj, howner⟩ := hl.exists_owner hf
    obtain rfl : j = i := Option.some.inj (howner.symm.trans hi)
    simpa [linkedTables] using hj
  · intro i hi
    simpa [linkedTables] using hsound.message_lt i hi
  · intro i hi
    simpa [linkedTables] using hsound.enum_lt i hi
  · intro p hp
    obtain ⟨i, e, k, v, -, he, hv, rfl⟩ := exists_of_default?_eq_enumValue hp
    simpa [linkedTables] using (List.getElem?_eq_some_iff.mp (getElem?_valueRecords he hv)).1

/-- The values of an enum belong to it. -/
theorem exists_of_mem_values {i : Nat} {e : EnumEntry} (he : l.enums[i]? = some e) {k : Nat}
    (hk : k ∈ (enumRecord (l.firstValuePlace i) e).values) :
    ∃ v, l.valueRecords[k]? = some v ∧ v.enum = i := by
  rw [values_enumRecord, List.mem_range'_1] at hk
  obtain ⟨j, rfl⟩ := Nat.exists_eq_add_of_le hk.1
  have hj : j < e.values.length := by omega
  exact ⟨_, getElem?_valueRecords he (List.getElem?_eq_getElem hj), rfl⟩

theorem Coherent.enumInBounds (hl : l.Coherent) {i : Nat} {e : EnumEntry}
    (he : l.enums[i]? = some e) :
    l.linkedTables.EnumInBounds (enumRecord (l.firstValuePlace i) e) := by
  have hvalues : ∀ k ∈ (enumRecord (l.firstValuePlace i) e).values,
      k < l.linkedTables.enumValues.size := by
    intro k hk
    obtain ⟨v, hv, -⟩ := exists_of_mem_values he hk
    simpa [linkedTables] using (List.getElem?_eq_some_iff.mp hv).1
  refine ⟨?_, hvalues, ?_, ?_⟩
  · intro k hk
    have hmem : e ∈ l.inventory.enums := Array.mem_toList_iff.mpr (Array.mem_of_getElem? he)
    simpa [linkedTables] using hl.nested.enum_parent_lt hmem hk
  · intro v hv
    obtain ⟨w, hw, rfl⟩ := List.mem_map.mp (Index.mem_ofFirst hv)
    exact hvalues _ (List.mem_map_of_mem (f := Prod.snd) hw)
  · intro v hv
    obtain ⟨w, hw, rfl⟩ := List.mem_map.mp (Index.mem_ofLast hv)
    exact hvalues _ (List.mem_map_of_mem (f := Prod.snd) hw)

/-- The places of an index of names are places of names. -/
theorem lt_of_mem_nameIndex {names : List String} {e : String × Nat}
    (h : e ∈ (nameIndex names).entries) : e.2 < names.length := by
  simpa using List.snd_lt_of_mem_zipIdx (Index.mem_ofLast h)

theorem Coherent.inBounds (hl : l.Coherent) : l.linkedTables.InBounds := by
  refine ⟨?_, ?_, ?_, ?_, ?_, ?_, ?_, ?_⟩
  · intro m hm
    obtain ⟨i, hi, rfl⟩ := List.mem_mapIdx.mp (List.mem_toArray.mp hm)
    exact hl.messageInBounds (List.getElem?_eq_getElem hi)
  · intro f hf
    obtain ⟨g, hg, extensionScope, rfl⟩ := mem_memberRecords (List.mem_toArray.mp hf)
    exact hl.fieldInBounds hg extensionScope
  · intro r hr
    obtain ⟨i, hi⟩ := List.mem_iff_getElem?.mp (List.mem_toArray.mp hr)
    rw [getElem?_enumRecords, Option.map_eq_some_iff] at hi
    obtain ⟨e, he, rfl⟩ := hi
    exact hl.enumInBounds he
  · intro v hv
    obtain ⟨e, he, hv⟩ := List.mem_flatMap.mp (List.mem_toArray.mp hv)
    obtain ⟨w, -, rfl⟩ := List.mem_map.mp hv
    simpa [linkedTables] using List.snd_lt_of_mem_zipIdx he
  · intro r hr
    obtain ⟨m, -, rfl⟩ := List.mem_map.mp (List.mem_toArray.mp hr)
    have hsize : l.linkedTables.messages.size = l.inventory.messages.length := by
      simp [linkedTables]
    rw [hsize]
    exact ⟨fun i hi => hl.methodEnd?_lt hi, fun i hi => hl.methodEnd?_lt hi⟩
  · intro e he
    simpa [linkedTables] using lt_of_mem_nameIndex he
  · intro e he
    simpa [linkedTables] using lt_of_mem_nameIndex he
  · intro e he
    simpa [linkedTables] using lt_of_mem_nameIndex he

/-! ## Owners -/

theorem Coherent.owned (hl : l.Coherent) : l.linkedTables.Owned := by
  -- extensions stand behind the fields in the arena of members as they do in the lists
  have hplaces (i : Nat) (m : MessageHeader) :
      (l.linkedMessage i m).fields ++ (l.linkedMessage i m).extensions =
        l.members.findIdxs (·.owner = some i) := by
    rw [members, List.findIdxs_append, Nat.zero_add]
    rfl
  have hmessage {i : Nat} {r : MessageRecord} (hr : l.linkedTables.messages[i]? = some r) :
      ∃ m, l.inventory.messages[i]? = some m ∧ r = l.linkedMessage i m := by
    simpa [linkedTables, eq_comm] using hr
  have henum {i : Nat} {r : EnumRecord} (hr : l.linkedTables.enums[i]? = some r) :
      ∃ e, l.enums[i]? = some e ∧ r = enumRecord (l.firstValuePlace i) e := by
    simpa [linkedTables, getElem?_enumRecords, eq_comm] using hr
  refine ⟨?_, ?_, ?_, ?_, ?_, ?_⟩
  · have hflat := flatMap_mapIdx (g := l.linkedMessage)
      (f := fun m : MessageRecord => m.fields ++ m.extensions) hplaces l.inventory.messages
    simp only [linkedTables, List.size_toArray, length_memberRecords]
    rw [hflat]
    exact perm_flatMap_findIdxs FieldEntry.owner fun f hf => hl.exists_owner hf
  · intro i r hr k hk
    obtain ⟨m, -, rfl⟩ := hmessage hr
    rw [hplaces, ← findIdxs_memberRecords] at hk
    obtain ⟨f, hf, howner⟩ := mem_findIdxs.mp hk
    exact ⟨f, by simpa [linkedTables] using hf, of_decide_eq_true howner⟩
  · intro i r hr
    obtain ⟨m, -, rfl⟩ := hmessage hr
    refine ⟨List.nodup_findIdxs, fun k => mem_findIdxs.trans ?_⟩
    simp [linkedTables, linkedMessage]
  · intro i r hr
    obtain ⟨m, -, rfl⟩ := hmessage hr
    refine ⟨List.nodup_findIdxs, fun k => mem_findIdxs.trans ?_⟩
    simp [linkedTables, getElem?_enumRecords, enumRecord, inventory]
  · simp only [linkedTables, List.size_toArray]
    rw [flatMap_values_enumRecords]
  · intro i r hr k hk
    obtain ⟨e, he, rfl⟩ := henum hr
    obtain ⟨v, hv, henum⟩ := exists_of_mem_values he hk
    exact ⟨v, by simpa [linkedTables] using hv, henum⟩

theorem Coherent.typesLinked (hl : l.Coherent) : l.linkedTables.TypesLinked := by
  have hsound : ∀ r ∈ l.linkedTables.fields, ∃ f extensionScope,
      r = l.fieldRecord (l.linked f) extensionScope := by
    intro r hr
    obtain ⟨f, -, extensionScope, hf⟩ := mem_memberRecords (List.mem_toArray.mp hr)
    exact ⟨f, extensionScope, hf⟩
  constructor
  · intro r hr
    obtain ⟨f, extensionScope, rfl⟩ := hsound r hr
    exact (hl.linked_sound f).message
  · intro r hr
    obtain ⟨f, extensionScope, rfl⟩ := hsound r hr
    exact (hl.linked_sound f).enum

/-- Whatever files of different names are declared: the tables that linking gives keep no place
outside their arenas, each field, nested message, nested enum and enum value belongs to the one
record that it names, and fields lead to messages and enums just where their types say so. -/
theorem integrity_of_link {files : List SchemaFile} (hnames : (files.map (·.name)).Nodup)
    {t : Tables} (hlink : (ofFiles files).link = (l, .ok t)) :
    t.InBounds ∧ t.Owned ∧ t.TypesLinked := by
  have hl := coherent_ofFiles hnames
  obtain ⟨rfl, -⟩ := hl.eq_linkedTables hlink
  exact ⟨hl.inBounds, hl.owned, hl.typesLinked⟩

end Linker

/-! ## Sample files -/

namespace Sample

/-- An optional field without options. -/
def field (name : String) (number : Nat) (type : String) : FieldDecl :=
  ⟨name, number, .named type none, some .optional, [], none, ⟨1, 1⟩⟩

/-- A message with fields and nothing else. -/
def message (name : String) (fields : List FieldDecl) : MessageDecl :=
  ⟨name, fields, [], [], [], [], [], [], [], [], ⟨1, 1⟩⟩

/-- A file with a message that holds an enum field with a default, a map, a group, a nested message
and a nested enum, and that is open for extensions. -/
def shapes : SchemaFile where
  name := Text.ofString "shapes.proto"
  dialect := .proto2
  package := some "geo"
  imports := []
  messages := [⟨"Shape",
    [{ field "color" 1 "Color" with
        options := [⟨"default", ⟨.ident "GREEN", none⟩, ⟨1, 1⟩⟩] },
      ⟨"corners", 2, .map "string" "Point" ⟨1, 1⟩, none, [], none, ⟨1, 1⟩⟩,
      ⟨"label", 3, .group "Label", some .repeated, [], none, ⟨1, 1⟩⟩],
    [message "Point" [field "x" 1 "int32", field "shape" 2 "Shape"],
      message "Label" [field "text" 1 "string"]],
    [⟨"Color", [⟨"RED", 0, [], ⟨1, 1⟩⟩, ⟨"GREEN", 1, [], ⟨1, 1⟩⟩], [], [], [], ⟨1, 1⟩⟩],
    [], [], [], [⟨100, none⟩], [], [], ⟨1, 1⟩⟩]
  enums := []
  services := []
  extendBlocks := []
  options := []

/-- A file that extends the message of the other and has a service. -/
def drawing : SchemaFile where
  name := Text.ofString "drawing.proto"
  dialect := .proto2
  package := some "geo.draw"
  imports := [⟨Text.ofString "shapes.proto", none, ⟨1, 1⟩⟩]
  messages := []
  enums := []
  services := [⟨"Canvas", [⟨"Draw", "geo.Shape", ".geo.Shape.Point", false, true, [], ⟨1, 1⟩⟩], [],
    ⟨1, 1⟩⟩]
  extendBlocks := [⟨"Shape", [field "trace" 100 "Shape.Point"], ⟨1, 1⟩⟩]
  options := []

/-- A file that declares the same message once more. -/
def again : SchemaFile :=
  { shapes with
    name := Text.ofString "again.proto"
    messages := [message "Shape" [field "x" 1 "int32"], message "Line" [field "from" 1 "Shape"]] }

end Sample

namespace Linker

/-- Whether linking gives tables can be evaluated. -/
theorem exists_tables {l : Linker} (h : l.link.2.toOption.isSome) :
    ∃ l' t, l.link = (l', .ok t) := by
  rcases hlink : l.link with ⟨l', _ | t⟩
  · rw [hlink] at h
    exact absurd h (by simp [Except.toOption])
  · exact ⟨l', t, rfl⟩

theorem integrity_of_link_sample :
    ∃ l t, (ofFiles [Sample.shapes, Sample.drawing, Sample.again]).link = (l, .ok t) ∧
      t.InBounds ∧ t.Owned ∧ t.TypesLinked := by
  have hlinks : ((ofFiles [Sample.shapes, Sample.drawing, Sample.again]).link).2.toOption.isSome :=
    by decide +kernel
  obtain ⟨l, t, h⟩ := exists_tables hlinks
  exact ⟨l, t, h, integrity_of_link (by decide +kernel) h⟩

end Linker

end ProtoSchema
