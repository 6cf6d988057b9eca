import ProtoSchema.Proofs.Descriptor.Rendered
import ProtoSchema.Proofs.Linker.Spelled
import ProtoSchema.Proofs.Tables.Complete
import ProtoSchema.Proofs.Tables.Preorder

/-!
# Linked tables can be written

If nothing was noted while files without pointed packages were declared and linked, then everything
that is written of the records can be read again (`Coherent.writes`): what is declared is named by
words, what is referred to is a scalar or a path, and a default is what its literal is converted to.
-/

namespace ProtoSchema

open Dotted

namespace Linker

variable {l : Linker} {o : Outline}

/-! ## Names -/

/-- The record of a message comes from its header. -/
theorem exists_header {m : MessageRecord} {i : Nat} (hm : l.linkedTables.messages[i]? = some m) :
    ∃ header, l.inventory.messages[i]? = some header ∧ m = l.linkedMessage i header := by
  rw [linkedTables, List.getElem?_toArray, List.getElem?_mapIdx, Option.map_eq_some_iff] at hm
  obtain ⟨header, hheader, rfl⟩ := hm
  exact ⟨header, hheader, rfl⟩

/-- The record of an enum comes from what was entered. -/
theorem exists_enumEntry {r : EnumRecord} {i : Nat} (hr : l.linkedTables.enums[i]? = some r) :
    ∃ e ∈ l.inventory.enums, r = enumRecord (l.firstValuePlace i) e := by
  rw [linkedTables, List.getElem?_toArray, getElem?_enumRecords, Option.map_eq_some_iff] at hr
  obtain ⟨e, he, rfl⟩ := hr
  exact ⟨e, Array.mem_toList_iff.mpr (Array.mem_of_getElem? he), rfl⟩

/-- The record of an enum value has the name of the value of an enum. -/
theorem exists_enumValue {r : EnumValueRecord} (hr : r ∈ l.linkedTables.enumValues) :
    ∃ e ∈ l.inventory.enums, ∃ v ∈ e.values, r.name = v.name := by
  obtain ⟨j, hj, hget⟩ := List.mem_iff_getElem.mp (List.mem_toArray.mp hr)
  obtain ⟨i, e, k, v, he, hv, rfl⟩ := exists_of_lt_length_valueRecords hj
  have hrecord := getElem?_valueRecords he hv
  rw [List.getElem?_eq_getElem hj, hget] at hrecord
  obtain rfl := Option.some.inj hrecord
  exact ⟨e, Array.mem_toList_iff.mpr (Array.mem_of_getElem? he), v, List.mem_of_getElem? hv, rfl⟩

section Outlined

variable (h : l.inventory.Outlined o)
include h

/-- A message stands in the outline. -/
theorem exists_messageOutline {header : MessageHeader} (hm : header ∈ l.inventory.messages) :
    ∃ mo ∈ o.messages, mo.toMessageSite = header.site := by
  have hsite := List.mem_map_of_mem (f := MessageHeader.site) hm
  rw [h.messages] at hsite
  exact List.mem_map.mp hsite

variable (hspelled : o.Spelled)
include hspelled

theorem spelled_of_mem_members {f : FieldEntry} (hf : f ∈ l.members) : f.Spelled := by
  rcases List.mem_append.mp hf with hf | hf
  · have hown := List.mem_map_of_mem (f := FieldEntry.unowned) hf
    rw [h.fields] at hown
    obtain ⟨hname, hfull, honeof⟩ := hspelled.fields _ hown
    exact ⟨hname, hfull, honeof⟩
  · obtain ⟨e, he, owner, -, rfl⟩ := exists_of_mem_attachedTo hf
    rw [h.extensions] at he
    obtain ⟨hname, hfull, honeof⟩ := hspelled.extensions e he
    exact ⟨hname, hfull, honeof⟩

theorem spelled_of_mem_messages {m : MessageRecord} (hm : m ∈ l.linkedTables.messages)
    (hentry : m.isMapEntry = false) : IsWord m.name ∧ IsPath m.fullName := by
  obtain ⟨i, hi⟩ := Array.getElem?_of_mem hm
  obtain ⟨header, hheader, rfl⟩ := exists_header hi
  obtain ⟨mo, hmo, hsite⟩ := exists_messageOutline h (List.mem_of_getElem? hheader)
  have hnames := hspelled.messages mo hmo ((congrArg MessageSite.isMapEntry hsite).trans hentry)
  rw [hsite] at hnames
  exact hnames

theorem spelled_of_mem_enums {e : EnumEntry} (he : e ∈ l.inventory.enums) :
    (IsWord e.name ∧ IsPath e.fullName) ∧ ∀ v ∈ e.values, IsWord v.name := by
  have hsite := List.mem_map_of_mem (f := EnumEntry.site) he
  rw [h.enums] at hsite
  exact hspelled.enums _ hsite

end Outlined

/-! ## Types -/

/-- A linked field refers to a scalar, a message or an enum. -/
theorem exists_refersTo {t : Tables} (hbounds : t.InBounds) (htypes : t.TypesLinked)
    {f : FieldRecord} (hf : f ∈ t.fields) (h : f.type ≠ .unresolved) :
    ∃ type, t.RefersTo f type := by
  have hscalar : f.type ∈ FieldType.scalars ∨ f.type = .message ∨ f.type = .group ∨
      f.type = .enum := by
    cases htype : f.type <;> first | exact absurd htype h | decide
  have hmessage (hlinked : f.type = .message ∨ f.type = .group) :
      ∃ m, f.messageType.bind (t.messages[·]?) = some m := by
    obtain ⟨place, hplace⟩ := Option.isSome_iff_exists.mp ((htypes.message f hf).mpr hlinked)
    have hlt := (hbounds.fields f hf).messageType place hplace
    exact ⟨t.messages[place], by simp [hplace, hlt]⟩
  rcases hscalar with hscalar | htype | htype | htype
  · exact ⟨_, Tables.refersTo_scalar hscalar⟩
  · obtain ⟨m, hm⟩ := hmessage (.inl htype)
    exact ⟨_, by rw [Tables.RefersTo, htype]; exact ⟨m, hm, rfl⟩⟩
  · obtain ⟨m, hm⟩ := hmessage (.inr htype)
    exact ⟨_, by rw [Tables.RefersTo, htype]; exact ⟨m, hm, rfl⟩⟩
  · obtain ⟨place, hplace⟩ := Option.isSome_iff_exists.mp ((htypes.enum f hf).mpr htype)
    have hlt := (hbounds.fields f hf).enumType place hplace
    exact ⟨_, by rw [Tables.RefersTo, htype]; exact ⟨t.enums[place], by simp [hplace, hlt], rfl⟩⟩

/-- What a reference means has one of the full names that it may stand for. -/
theorem fullName_mem_candidates {scope name : String} {file : FileScope} {d : Definition}
    (h : l.meaning? scope name file = some d) : d.fullName ∈ candidates scope name := by
  obtain ⟨fullName, hmem, hd⟩ := List.exists_of_findSome?_eq_some h
  have hfound := List.find?_some (Option.filter_eq_some_iff.mp hd).1
  rwa [of_decide_eq_true hfound]

/-- A field of a defined type refers to it by its full name. -/
theorem Coherent.refersTo_definition (hl : l.Coherent) {d : Definition} (hd : d ∈ l.definitions)
    {isGroup : Bool} {r : FieldRecord} (h : typeLinkOf d isGroup = some r.link) :
    l.linkedTables.RefersTo r ("." ++ d.fullName) := by
  have hmessage (hkind : d.kind = .message) (hplace : d.place = r.messageType) :
      ∃ m, r.messageType.bind (l.linkedTables.messages[·]?) = some m ∧
        "." ++ d.fullName = "." ++ m.fullName := by
    obtain ⟨i, m, hi, rfl⟩ := hl.indexed.message_of_mem hd hkind
    refine ⟨l.linkedMessage i m, ?_, rfl⟩
    rw [← hplace]
    simp [Inventory.messageDefinition, linkedTables, hi]
  unfold typeLinkOf at h
  split at h
  · next hkind =>
    obtain ⟨htype, -, hplace, -⟩ := TypeLink.mk.inj (Option.some.inj h)
    rw [Tables.RefersTo, ← htype]
    exact hmessage hkind hplace
  · next hkind =>
    obtain ⟨htype, -, hplace, -⟩ := TypeLink.mk.inj (Option.some.inj h)
    rw [Tables.RefersTo, ← htype]
    exact hmessage hkind hplace
  · next hkind =>
    obtain ⟨htype, -, -, hplace⟩ := TypeLink.mk.inj (Option.some.inj h)
    obtain ⟨i, e, hi, rfl⟩ := hl.indexed.enum_of_mem hd hkind
    have hi' : l.enums[i]? = some e := by simpa [inventory] using hi
    rw [Tables.RefersTo, ← htype]
    refine ⟨enumRecord (l.firstValuePlace i) e, ?_, rfl⟩
    rw [← hplace]
    simp [Inventory.enumDefinition, linkedTables, getElem?_enumRecords, hi']
  · cases h

/-- A field that refers to its type by words is linked to a scalar or a path. -/
theorem Coherent.isTypeText (hl : l.Coherent) (hdefinitions : ∀ d ∈ l.definitions, d.Spelled)
    {f : FieldEntry} (hreference : IsReference f.decl.typeName) (hlink : (l.typeLink? f).isSome)
    {extensionScope : Option String} {type : String}
    (h : l.linkedTables.RefersTo (l.fieldRecord (l.linked f) extensionScope) type) :
    IsTypeText type := by
  obtain ⟨link, hlink⟩ := Option.isSome_iff_exists.mp hlink
  have hrecord : (l.fieldRecord (l.linked f) extensionScope).link = link := by
    simp [FieldRecord.link, fieldRecord, linked, hlink]
  simp only [typeLink?] at hlink
  split at hlink
  · next t ht =>
    obtain rfl := Option.some.inj hlink
    have htype : (l.fieldRecord (l.linked f) extensionScope).type ∈ FieldType.scalars := by
      change (l.fieldRecord (l.linked f) extensionScope).link.type ∈ _
      rw [hrecord]
      exact List.mem_of_find?_eq_some ht
    refine .inr ⟨_, htype, ?_⟩
    rw [← h.typeReference, (Tables.refersTo_scalar htype).typeReference]
  · obtain ⟨d, hd, hkind⟩ := Option.bind_eq_some_iff.mp hlink
    have hmem := mem_of_meaning? hd
    have hpackage : d.kind ≠ .package := by
      rintro hpackage
      simp [typeLinkOf, hpackage] at hkind
    have hpath : IsPath d.fullName :=
      (hdefinitions d hmem).isPath hpackage hreference (fullName_mem_candidates hd)
    refine .inl ⟨d.fullName, hpath, ?_⟩
    rw [← hrecord] at hkind
    rw [← h.typeReference, (hl.refersTo_definition hmem hkind).typeReference]

/-! ## Defaults -/

/-- The default of an enum field is found again by the name of its value. -/
theorem enumDefault_of_denotes {enum : Option Nat} {value value' : Value} {x : DefaultValue}
    (h : l.enumDefault enum value = .ok x) (hvalue : l.linkedTables.Denotes x value') :
    l.enumDefault enum value' = .ok x := by
  obtain ⟨i, e, k, v, -, he, hv, rfl, rfl⟩ := exists_of_enumDefault_eq_ok h
  obtain ⟨r, hr, rfl⟩ := hvalue
  have hplace : l.valueRecords[l.firstValuePlace i + k]? = some r := by
    simpa [linkedTables] using hr
  obtain rfl := Option.some.inj ((getElem?_valueRecords he hv).symm.trans hplace)
  exact h

/-- A floating default is converted from everything that its literal can be read as. -/
theorem exists_floatDefault {value : Value} {type : FieldType} (h : value.IsFloating) :
    ∃ x, value.floatDefault type = .ok x := by
  rcases h with ⟨x, rfl⟩ | rfl | rfl <;> exact ⟨_, rfl⟩

/-- The default of a floating type is floating. -/
theorem exists_float_of_floatDefault {value : Value} {type : FieldType} {x : DefaultValue}
    (h : value.floatDefault type = .ok x) : ∃ y, x = .float y := by
  unfold Value.floatDefault at h
  split at h
  · split at h
    · exact ⟨_, (Except.ok.inj h).symm⟩
    · cases h
  · exact ⟨_, (Except.ok.inj h).symm⟩
  · split at h
    · exact ⟨_, (Except.ok.inj h).symm⟩
    · cases h
  · cases h

theorem integerDefault_of_denotes {value value' : Value} {type : FieldType} {low high : Int}
    {x : DefaultValue} (h : value.integerDefault type low high = .ok x)
    (hvalue : l.linkedTables.Denotes x value') : value'.integerDefault type low high = .ok x := by
  cases value with
  | int i =>
    have hrefl := h
    simp only [Value.integerDefault] at h
    split at h
    · obtain rfl := Except.ok.inj h
      obtain rfl : value' = .int i := hvalue
      exact hrefl
    · cases h
  | _ => cases h

theorem boolDefault_of_denotes {value value' : Value} {x : DefaultValue}
    (h : value.boolDefault = .ok x) (hvalue : l.linkedTables.Denotes x value') :
    value'.boolDefault = .ok x := by
  unfold Value.boolDefault at h
  split at h
  · next b hb =>
    obtain rfl := Except.ok.inj h
    obtain rfl : value' = .ident (if b then "true" else "false") := hvalue
    cases b <;> rfl
  · cases h

theorem stringDefault_of_denotes {value value' : Value} {x : DefaultValue}
    (h : value.stringDefault = .ok x) (hvalue : l.linkedTables.Denotes x value') :
    value'.stringDefault = .ok x := by
  unfold Value.stringDefault at h
  split at h
  · split at h
    · next s hs =>
      obtain rfl := Except.ok.inj h
      obtain rfl : value' = .string s := hvalue
      simp [Value.stringDefault, Text.ofString, Text.toString?_ofChars]
    · cases h
  · cases h

theorem bytesDefault_of_denotes {value value' : Value} {x : DefaultValue}
    (h : value.bytesDefault = .ok x) (hvalue : l.linkedTables.Denotes x value') :
    value'.bytesDefault = .ok x := by
  unfold Value.bytesDefault at h
  split at h
  · next text =>
    obtain rfl := Except.ok.inj h
    obtain rfl : value' = .string (.ofBytes text.toBytes) := hvalue
    simp [Value.bytesDefault, Text.toBytes_ofBytes]
  · cases h

/-- A default is converted again from everything that its literal can be read as. -/
theorem convertsTo_of_denotes {f : FieldRecord} {value value' : Value} {x : DefaultValue}
    (h : l.convertDefault f.link value = .ok x) (hvalue : l.linkedTables.Denotes x value') :
    l.ConvertsTo f value' x := by
  have hfloat {type : FieldType} (hkind : type ∈ [.float, .double]) (htype : f.type = type)
      (h : value.floatDefault type = .ok x) : ∃ y, value'.floatDefault type = .ok y ∧
        (f.type ≠ .float → f.type ≠ .double → y = x) := by
    obtain ⟨z, rfl⟩ := exists_float_of_floatDefault h
    obtain ⟨y, hy⟩ := @exists_floatDefault value' type hvalue
    refine ⟨y, hy, fun hfloat hdouble => ?_⟩
    simp [← htype, hfloat, hdouble] at hkind
  unfold ConvertsTo
  unfold convertDefault at h ⊢
  cases hrange : f.link.type.integerRange? with
  | some range =>
    simp only [hrange, mapError_eq_ok] at h ⊢
    exact ⟨x, integerDefault_of_denotes h hvalue, fun _ _ => rfl⟩
  | none =>
    simp only [hrange] at h ⊢
    cases htype : f.link.type with
    | float | double =>
      simp only [htype] at h ⊢
      exact hfloat (by simp) htype h
    | bool =>
      simp only [htype, mapError_eq_ok] at h ⊢
      exact ⟨x, boolDefault_of_denotes h hvalue, fun _ _ => rfl⟩
    | string =>
      simp only [htype, mapError_eq_ok] at h ⊢
      exact ⟨x, stringDefault_of_denotes h hvalue, fun _ _ => rfl⟩
    | bytes =>
      simp only [htype, mapError_eq_ok] at h ⊢
      exact ⟨x, bytesDefault_of_denotes h hvalue, fun _ _ => rfl⟩
    | _ =>
      simp only [htype, mapError_eq_ok] at h ⊢
      exact ⟨x, enumDefault_of_denotes h hvalue, fun _ _ => rfl⟩

/-! ## Tables -/

/-- The entry of a map has a key of a type that may key maps, and a value that is referred to by
words. -/
theorem Coherent.exists_entry (hl : l.Coherent) (h : l.inventory.Outlined o)
    (hholds : o.Holds none []) (hspelled : o.Spelled) {i : Nat} {m : MessageHeader}
    (hm : l.inventory.messages[i]? = some m) (hentry : m.isMapEntry = true) :
    ∃ k ∈ l.inventory.fields, ∃ v ∈ l.inventory.fields,
      (l.linkedMessage i m).fields.map (l.linkedTables.fields[·]?) =
        [some (l.fieldRecord (l.linked k) none), some (l.fieldRecord (l.linked v) none)] ∧
      FieldType.isMapKeyName k.decl.typeName = true ∧ IsReference v.decl.typeName := by
  obtain ⟨mo, hmo, hsite, hdecls⟩ := hl.exists_outline h hholds hm
  obtain ⟨f, key, value, position, hfields, hkey, hvalue⟩ :=
    hspelled.entries mo hmo ((congrArg MessageSite.isMapEntry hsite).trans hentry)
  rw [hfields] at hdecls
  obtain ⟨k, rest, hown, hk, hrest⟩ := List.map_eq_cons_iff.mp hdecls
  obtain ⟨v, rest, rfl, hv, hrest⟩ := List.map_eq_cons_iff.mp hrest
  obtain rfl := List.map_eq_nil_iff.mp hrest
  have hmem {f : FieldEntry} (hf : f ∈ [k, v]) : f ∈ l.inventory.fields := by
    rw [← hown] at hf
    exact List.mem_of_mem_filter hf
  refine ⟨k, hmem (by simp), v, hmem (by simp), ?_, ?_, ?_⟩
  · rw [map_fields_linkedMessage, hown]
    rfl
  · rw [hk]
    exact hkey
  · rw [hv]
    exact hvalue

/-- The record of a field whose type is the keyword of a scalar has it as its type. -/
theorem type_of_isMapKeyName {f : FieldEntry}
    (h : FieldType.isMapKeyName f.decl.typeName = true) :
    (l.linked f).link.type ∈ FieldType.scalars ∧
      (l.linked f).link.type.keyword = f.decl.typeName := by
  obtain ⟨type, hscalar⟩ : ∃ type, FieldType.scalar? f.decl.typeName = some type := by
    cases hscalar : FieldType.scalar? f.decl.typeName with
    | none => simp [FieldType.isMapKeyName, hscalar] at h
    | some type => exact ⟨type, rfl⟩
  have htype : (l.linked f).link.type = type := by simp [linked, typeLink?, hscalar]
  rw [htype]
  exact ⟨List.mem_of_find?_eq_some hscalar, by simpa using List.find?_some hscalar⟩

/-- Everything that is written of resolved tables can be read again. -/
theorem Coherent.writes (hl : l.Coherent) (hresolved : l.Resolved)
    (hnesting : Nesting 0 none l.inventory.messages) (h : l.inventory.Outlined o)
    (hholds : o.Holds none []) (hspelled : o.Spelled) : l.Writes l.linkedTables := by
  have hbounds := hl.inBounds
  have hfield {r : FieldRecord} (hr : r ∈ l.linkedTables.fields) :
      ∃ f ∈ l.members, ∃ extensionScope, r = l.fieldRecord (l.linked f) extensionScope :=
    mem_memberRecords (List.mem_toArray.mp hr)
  have hrefers {f : FieldEntry} (hf : f ∈ l.members) {extensionScope : Option String}
      (hr : l.fieldRecord (l.linked f) extensionScope ∈ l.linkedTables.fields) :
      ∃ type, l.linkedTables.RefersTo (l.fieldRecord (l.linked f) extensionScope) type :=
    exists_refersTo hbounds hl.typesLinked hr (type_ne_unresolved (hresolved.types f hf))
  have hdefinitions : ∀ d ∈ l.definitions, d.Spelled := by
    intro d hd
    obtain ⟨d', hd', heq⟩ := List.mem_map.mp ((h.definitions _).mp (List.mem_map_of_mem hd))
    -- being spelled does not depend on the place
    have hunplaced : d'.unplaced.Spelled := hspelled.definitions d' hd'
    rw [heq] at hunplaced
    exact hunplaced
  refine ⟨fun m => spelled_of_mem_messages h hspelled, ?_, ?_, ?_, ?_, ?_, ?_, ?_, ?_, ?_, ?_, ?_⟩
  · intro r hr
    obtain ⟨i, hi⟩ := Array.getElem?_of_mem hr
    obtain ⟨e, he, rfl⟩ := exists_enumEntry hi
    exact (spelled_of_mem_enums h hspelled he).1
  · intro v hv
    obtain ⟨e, he, v', hv', hname⟩ := exists_enumValue hv
    rw [hname]
    exact (spelled_of_mem_enums h hspelled he).2 v' hv'
  · intro r hr
    obtain ⟨f, hf, extensionScope, rfl⟩ := hfield hr
    exact (spelled_of_mem_members h hspelled hf).name
  · intro r hr
    obtain ⟨f, hf, extensionScope, rfl⟩ := hfield hr
    have hwords := spelled_of_mem_members h hspelled hf
    exact ⟨hwords.fullName.newline_notMem,
      fun oneof honeof => (hwords.oneof oneof honeof).isPart.isDotted.newline_notMem⟩
  · intro r hr _
    obtain ⟨f, hf, extensionScope, rfl⟩ := hfield hr
    exact hrefers hf hr
  · intro r _ entry hentry
    obtain ⟨hlink, hmap⟩ := Tables.entry?_eq_some.mp hentry
    obtain ⟨i, -, hi⟩ := Option.bind_eq_some_iff.mp hlink
    obtain ⟨header, hheader, rfl⟩ := exists_header hi
    obtain ⟨k, -, v, hv, hfields, hkey, hvalue⟩ := hl.exists_entry h hholds hspelled hheader hmap
    obtain ⟨hscalar, hkeyword⟩ := type_of_isMapKeyName (l := l) hkey
    have hmem : l.fieldRecord (l.linked v) none ∈ l.linkedTables.fields :=
      List.mem_toArray.mpr (List.mem_append_left _ (List.mem_map_of_mem hv))
    have hv' := List.mem_append_left l.attached hv
    obtain ⟨type, htype⟩ := hrefers hv' hmem
    refine ⟨_, _, type, hfields, hscalar, ?_, htype,
      hl.isTypeText hdefinitions hvalue (hresolved.types v hv') htype⟩
    rw [show (l.fieldRecord (l.linked k) none).type.keyword = _ from hkeyword]
    exact hkey
  · intro r hr x hx
    obtain ⟨f, hf, extensionScope, rfl⟩ := hfield hr
    refine ⟨?_, ?_⟩
    · cases x with
      | enumValue place =>
        have hlt := (hbounds.fields _ hr).default place hx
        exact ⟨_, by simp [Tables.literal?, hlt]; rfl⟩
      | _ => exact ⟨_, rfl⟩
    · intro value hvalue
      obtain ⟨-, -, o, -, hconvert⟩ := convertDefault_of_default? hx
      exact convertsTo_of_denotes hconvert hvalue
  · exact fun m hm => (hbounds.messages m hm).fields
  · exact fun m hm => (hbounds.messages m hm).enums
  · exact fun e he => (hbounds.enums e he).values
  · intro p m hm q hq
    have hlt : p < l.linkedTables.messages.size := (Array.getElem?_eq_some_iff.mp hm).1
    refine (preordered_linkedTables hnesting).lt_of_mem hlt ?_
    rw [Tables.inside, hm]
    exact hq

end Linker

end ProtoSchema
