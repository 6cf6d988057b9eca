import ProtoSchema.Proofs.Linker.Retold

/-!
# Linkers that repeat others

A linker repeats another one if it has the same messages and fields and the same nested enums, all at
the same places, and nothing else (`Linker.Repeated`). Then whatever the fields of the one refer to
has its like at the same place in the other, so that this one can be linked as well, and every field
gets the same link (`Repeated.typeLink`), but for groups, which are told again as messages.

Tables tell others again if they have the same messages with the same fields and enums, each at the
same place (`Tables.RetoldBy`). A field is the same but for a group, and for the default of a floating
type; where a message is declared, what it reserves and what it is extended by is not told. The tables
of a linker that repeats another one tell those of the other again (`Repeated.retoldBy`).
-/

namespace ProtoSchema

open Dotted

/-! ## Groups as messages -/

/-- The type of a field whose type is told again: a group is told as a message. -/
def FieldType.ungrouped : FieldType → FieldType
  | .group => .message
  | t => t

/-- The link of a field whose type is told again. -/
def TypeLink.ungrouped (link : TypeLink) : TypeLink := { link with type := link.type.ungrouped }

theorem FieldType.ungrouped_of_ne {t : FieldType} (h : t ≠ .group) : t.ungrouped = t := by
  unfold ungrouped
  split
  · exact absurd rfl h
  · rfl

theorem FieldType.isPackable_ungrouped (t : FieldType) : t.ungrouped.isPackable = t.isPackable := by
  cases t <;> rfl

namespace Linker

variable {l l' : Linker} {file' : FileScope}

/-- A linker repeats another one in a file: its messages and fields are like those of the other at
the same places, and so are its enums, which are those of the other that are nested in messages and
come first. It has no extensions and no methods. -/
structure Repeated (l l' : Linker) (file' : FileScope) : Prop where
  coherent : l.Coherent
  coherent' : l'.Coherent
  files : l'.files = [file']
  messages : l.inventory.messages.Forall₂ (fun m m' => m.site.Alike m'.site) l'.inventory.messages
  fields : l.inventory.fields.Forall₂ (fun e e' => l.Repeats file' e.unowned e'.unowned)
    l'.inventory.fields
  enums : ∃ es others, l.inventory.enums = es ++ others ∧
    es.Forall₂ (fun e e' => e.site.Alike e'.site) l'.inventory.enums ∧ (∀ e ∈ es, e.parent.isSome) ∧
      ∀ e ∈ others, e.parent = none
  extensions : l'.inventory.extensions = []
  methods : l'.inventory.methods = []

/-- Fields refer to enums only if these are nested in messages. -/
def EnumsNested (l : Linker) : Prop :=
  ∀ e ∈ l.inventory.fields, ∀ link, l.typeLink? e = some link → ∀ k, link.enumType = some k →
    ∃ entry, l.inventory.enums[k]? = some entry ∧ entry.parent.isSome

namespace Repeated

variable (h : Repeated l l' file')
include h

/-! ## The same places -/

theorem exists_message {i : Nat} {m : MessageHeader} (hm : l.inventory.messages[i]? = some m) :
    ∃ m', l'.inventory.messages[i]? = some m' ∧ m.site.Alike m'.site :=
  getElem?_of_forall₂ h.messages hm

/-- What has one full name is nested in the same message. -/
theorem place_eq {file file'' : FileScope} {scope scope' name : String} {parent parent' : Option Nat}
    (hscope : l.inventory.Encloses file scope parent)
    (hscope' : l'.inventory.Encloses file'' scope' parent')
    (hfull : join scope' name = join scope name) (hnested : parent'.isSome = parent.isSome) :
    parent' = parent := by
  obtain rfl := join_left_injective hfull
  cases parent with
  | none => simpa using hnested
  | some i =>
    obtain ⟨j, rfl⟩ := Option.isSome_iff_exists.mp hnested
    obtain ⟨m, hm, hname, -⟩ := hscope
    obtain ⟨m', hm', halike⟩ := h.exists_message hm
    obtain ⟨n, hn, hname', -⟩ := hscope'
    have hsame : n.fullName = m'.fullName := (hname'.trans hname.symm).trans halike.fullName.symm
    have hdefinition := h.coherent'.indexed.eq_of_fullName
      (h.coherent'.indexed.messageDefinition_mem hn) (h.coherent'.indexed.messageDefinition_mem hm')
      hsame
    exact congrArg Definition.place hdefinition

theorem parent_message {m m' : MessageHeader} (hm : m ∈ l.inventory.messages)
    (hm' : m' ∈ l'.inventory.messages) (halike : m.site.Alike m'.site) : m'.parent = m.parent := by
  obtain ⟨scope, hscope, hfull⟩ := h.coherent.nested.messages m hm
  obtain ⟨scope', hscope', hfull'⟩ := h.coherent'.nested.messages m' hm'
  have hname : m'.name = m.name := halike.name
  have hsame : m'.fullName = m.fullName := halike.fullName
  rw [hfull, hfull', hname] at hsame
  exact h.place_eq hscope hscope' hsame halike.isNested

theorem parent_enum {e e' : EnumEntry} (he : e ∈ l.inventory.enums) (he' : e' ∈ l'.inventory.enums)
    (halike : e.site.Alike e'.site) : e'.parent = e.parent := by
  obtain ⟨scope, hscope, hfull⟩ := h.coherent.nested.enums e he
  obtain ⟨scope', hscope', hfull'⟩ := h.coherent'.nested.enums e' he'
  have hname : e'.name = e.name := halike.name
  have hsame : e'.fullName = e.fullName := halike.fullName
  rw [hfull, hfull', hname] at hsame
  exact h.place_eq hscope hscope' hsame halike.isNested

theorem owner_field {e e' : FieldEntry} (he : e ∈ l.inventory.fields) (he' : e' ∈ l'.inventory.fields)
    (hrepeats : l.Repeats file' e.unowned e'.unowned) : e'.owner = e.owner := by
  obtain ⟨howner, hscope, -⟩ := h.coherent.nested.fields e he
  obtain ⟨howner', hscope', -⟩ := h.coherent'.nested.fields e' he'
  have hsame : e'.scope = e.scope := hrepeats.scope
  exact h.place_eq hscope hscope' (congrArg (join · e.decl.name) hsame) (howner'.trans howner.symm)

/-- All messages are nested in the same messages. -/
theorem map_parent_messages :
    l'.inventory.messages.map (·.parent) = l.inventory.messages.map (·.parent) :=
  map_eq_map_of_forall₂ (fun _ _ hm => h.parent_message hm.1 hm.2.1 hm.2.2) (forall₂_mem_both h.messages)

/-- All fields belong to the same messages. -/
theorem map_owner_fields :
    l'.inventory.fields.map (·.owner) = l.inventory.fields.map (·.owner) :=
  map_eq_map_of_forall₂ (fun _ _ he => h.owner_field he.1 he.2.1 he.2.2) (forall₂_mem_both h.fields)

/-- An enum is like that at the same place, which is nested in a message. -/
theorem exists_enum {k : Nat} {e' : EnumEntry} (he' : l'.inventory.enums[k]? = some e') :
    ∃ e, l.inventory.enums[k]? = some e ∧ e.site.Alike e'.site ∧ e.parent.isSome := by
  obtain ⟨es, others, heq, halike, hnested, -⟩ := h.enums
  obtain ⟨e, he, hsite⟩ := getElem?_of_forall₂ halike.flip he'
  refine ⟨e, ?_, hsite, hnested e (List.mem_of_getElem? he)⟩
  rw [heq, List.getElem?_append_left (List.getElem?_eq_some_iff.mp he).1, he]

/-- An enum that is nested in a message is repeated. -/
theorem exists_enum_of_nested {k : Nat} {e : EnumEntry} (he : l.inventory.enums[k]? = some e)
    (hnested : e.parent.isSome) :
    ∃ e', l'.inventory.enums[k]? = some e' ∧ e.site.Alike e'.site := by
  obtain ⟨es, others, heq, halike, -, hothers⟩ := h.enums
  rw [heq] at he
  by_cases hk : k < es.length
  · rw [List.getElem?_append_left hk] at he
    exact getElem?_of_forall₂ halike he
  · rw [List.getElem?_append_right (Nat.not_lt.mp hk)] at he
    rw [hothers e (List.mem_of_getElem? he)] at hnested
    exact absurd hnested (by simp)

/-- The enums in a message are at the same places. -/
theorem findIdxs_enums (i : Nat) : l'.inventory.enums.findIdxs (·.parent = some i) =
    l.inventory.enums.findIdxs (·.parent = some i) := by
  obtain ⟨es, others, heq, halike, -, hothers⟩ := h.enums
  have hparents : l'.inventory.enums.map (·.parent) = es.map (·.parent) := by
    refine map_eq_map_of_forall₂ (fun _ _ he => h.parent_enum ?_ he.2.1 he.2.2) (forall₂_mem_both halike)
    rw [heq]
    exact List.mem_append_left _ he.1
  have hnone (n : Nat) : others.findIdxs (·.parent = some i) n = [] :=
    List.findIdxs_eq_nil_iff.mpr fun e he => by simp [hothers e he]
  rw [heq, List.findIdxs_append, hnone, List.append_nil]
  exact findIdxs_of_map_eq hparents (· = some i)

/-! ## Links -/

/-- A type that fields may have is defined at the same place. -/
theorem exists_definition {d : Definition} (hd : d ∈ l.definitions) {isGroup : Bool} {link : TypeLink}
    (hlink : typeLinkOf d isGroup = some link)
    (henum : ∀ k, link.enumType = some k →
      ∃ entry, l.inventory.enums[k]? = some entry ∧ entry.parent.isSome) :
    ∃ d' ∈ l'.definitions, d'.file = some file'.name ∧ d'.fullName = d.fullName ∧
      typeLinkOf d' false = some link.ungrouped := by
  have hfile {file : FileScope} (hfile : file ∈ l'.files) : some file.name = some file'.name := by
    rw [h.files, List.mem_singleton] at hfile
    rw [hfile]
  have hmessage (hkind : d.kind = .message) (type : FieldType) (htype : type.ungrouped = .message)
      (hlink : link = ⟨type, d.fullName, d.place, none⟩) : ∃ d' ∈ l'.definitions,
        d'.file = some file'.name ∧ d'.fullName = d.fullName ∧
          typeLinkOf d' false = some link.ungrouped := by
    obtain ⟨i, m, hm, rfl⟩ := h.coherent.indexed.message_of_mem hd hkind
    obtain ⟨m', hm', halike⟩ := h.exists_message hm
    refine ⟨_, h.coherent'.indexed.messageDefinition_mem hm', hfile ?_, halike.fullName, ?_⟩
    · exact h.coherent'.unlinked.inventory.messages m' (List.mem_of_getElem? hm')
    · rw [hlink]
      simp only [typeLinkOf, Inventory.messageDefinition, TypeLink.ungrouped, htype]
      exact congrArg (fun n => some (⟨.message, n, some i, none⟩ : TypeLink)) halike.fullName
  unfold typeLinkOf at hlink
  split at hlink
  · exact hmessage ‹_› .group rfl (Option.some.inj hlink).symm
  · exact hmessage ‹_› .message rfl (Option.some.inj hlink).symm
  · next hkind =>
    obtain ⟨k, e, he, rfl⟩ := h.coherent.indexed.enum_of_mem hd hkind
    obtain rfl := Option.some.inj hlink
    obtain ⟨e₀, he₀, hnested⟩ := henum k rfl
    obtain rfl := Option.some.inj (he.symm.trans he₀)
    obtain ⟨e', he', halike⟩ := h.exists_enum_of_nested he hnested
    refine ⟨_, h.coherent'.indexed.enumDefinition_mem he', hfile ?_, halike.fullName, ?_⟩
    · exact h.coherent'.unlinked.inventory.enums e' (List.mem_of_getElem? he')
    · exact congrArg (fun n => some (⟨.enum, n, none, some k⟩ : TypeLink)) halike.fullName
  · cases hlink

/-- A field that repeats another one gets the same link. -/
theorem typeLink {e e' : FieldEntry} (hrepeats : l.Repeats file' e e')
    (henum : ∀ link, l.typeLink? e = some link → ∀ k, link.enumType = some k →
      ∃ entry, l.inventory.enums[k]? = some entry ∧ entry.parent.isSome) :
    ∃ link, l.typeLink? e = some link ∧ l'.typeLink? e' = some link.ungrouped := by
  obtain ⟨link, hlink, hnamed⟩ := hrepeats.named
  refine ⟨link, hlink, ?_⟩
  unfold NamedBy at hnamed
  cases hscalar : FieldType.scalar? e'.decl.typeName with
  | some type =>
    have htype : type ≠ .group := by
      rintro rfl
      exact absurd (List.mem_of_find?_eq_some hscalar) (by decide)
    simp only [hscalar] at hnamed
    rw [hnamed, typeLink?, hscalar, TypeLink.ungrouped, FieldType.ungrouped_of_ne htype]
  | none =>
    simp only [hscalar] at hnamed
    obtain ⟨hhead, -, d, hd, isGroup, hdlink⟩ := hnamed
    obtain ⟨d', hd', hfile, hfull, hdlink'⟩ := h.exists_definition hd hdlink (henum link hlink)
    rw [fullName_of_typeLinkOf hdlink, ← hfull] at hhead
    have hmeaning : l'.meaning? e'.scope e'.decl.typeName e'.file = some d' :=
      h.coherent'.meaning?_of_head hd' (hrepeats.file ▸ hfile) hhead
    simp only [typeLink?, hscalar, hmeaning, Option.bind_some, hrepeats.isGroup, hdlink']

/-! ## Defaults -/

/-- The values of an enum that is repeated have the same places. -/
theorem firstValuePlace {k : Nat} (hk : k ≤ l'.inventory.enums.length) :
    l'.firstValuePlace k = l.firstValuePlace k := by
  obtain ⟨es, others, heq, halike, -⟩ := h.enums
  have hlength : k ≤ es.length := halike.length_eq ▸ hk
  have hcounts : l'.inventory.enums.map (·.values.length) = es.map (·.values.length) :=
    map_eq_map_of_forall₂ (fun _ _ he => he.values.length_eq.symm) halike
  have hplace (l : Linker) (k : Nat) :
      l.firstValuePlace k = (((l.inventory.enums.map (·.values.length)).take k).sum) := by
    rw [firstValuePlace_eq_length l k (·.values) fun _ => rfl, List.length_flatMap, List.map_take]
  rw [hplace, hplace, hcounts, heq, List.map_append, List.take_append_of_le_length (by simpa using hlength)]

/-- The default of an enum that is repeated is found at the same place. -/
theorem enumDefault {enum : Option Nat} {value : Value} {x : DefaultValue}
    (henum : ∀ k, enum = some k →
      ∃ entry, l.inventory.enums[k]? = some entry ∧ entry.parent.isSome)
    (hx : l.enumDefault enum value = .ok x) : l'.enumDefault enum value = .ok x := by
  obtain ⟨k, e, n, v, rfl, he, hv, rfl, rfl⟩ := exists_of_enumDefault_eq_ok hx
  obtain ⟨e₀, he₀, hnested⟩ := henum k rfl
  obtain ⟨e', he', halike⟩ := h.exists_enum_of_nested he₀ hnested
  have he₁ : l.inventory.enums[k]? = some e := by simpa [inventory] using he
  obtain rfl := Option.some.inj (he₁.symm.trans he₀)
  have he₂ : l'.enums[k]? = some e' := by simpa [inventory] using he'
  have hnames : e'.values.map (·.name) = e.values.map (·.name) :=
    map_eq_map_of_forall₂ (fun _ _ hv => hv.1) halike.values
  have hfind : e'.values.findIdx? (·.name = v.name) = e.values.findIdx? (·.name = v.name) := by
    have hmap (vs : List EnumValueDecl) : vs.findIdx? (·.name = v.name) =
        (vs.map (·.name)).findIdx? (· = v.name) := by
      rw [List.findIdx?_map]
      rfl
    rw [hmap, hmap, hnames]
  have hplace := h.firstValuePlace (List.getElem?_eq_some_iff.mp he').1.le
  have hfull : e'.fullName = e.fullName := halike.fullName
  rw [← hx]
  simp only [Linker.enumDefault, Option.bind_some, he, he₂, Option.map_some, hfind, hplace, hfull]

/-! ## Options -/

section Options

variable {e e' : FieldEntry} (hrepeats : l.Repeats file' e e') {link : TypeLink}
  (hlink : l.typeLink? e = some link) (hlink' : l'.typeLink? e' = some link.ungrouped)
  (henum : ∀ k, link.enumType = some k →
    ∃ entry, l.inventory.enums[k]? = some entry ∧ entry.parent.isSome)
  (hdialect : file'.dialect ≠ .proto3)
include h hrepeats hlink hlink' henum hdialect

/-- A default is set again: to the same value unless its type is floating. -/
theorem default {x : DefaultValue} (hx : (l.recordOf e).default = some x) :
    ∃ o, e'.decl.option? "default" = some o ∧ ∃ y,
      l'.defaultOf (l'.linked e') e'.label o.value.value = .ok (some y) ∧
        (link.type ≠ .float → link.type ≠ .double → y = x) := by
  obtain ⟨o, ho, y, hconvert, hy⟩ := hrepeats.options.default x hx
  have hrecord : (l.recordOf e).link = link := by
    simp [FieldRecord.link, recordOf, fieldRecord, linked, hlink]
  have hlinked : (l.linked e).link = link := by rw [linked, hlink, Option.getD_some]
  have hlinked' : (l'.linked e').link = link.ungrouped := by rw [linked, hlink', Option.getD_some]
  obtain ⟨-, hlabel, -⟩ := convertDefault_of_default? hx
  obtain ⟨hunresolved, hmessage, hgroup⟩ := type_of_default? hx
  rw [hlinked] at hunresolved hmessage hgroup
  have hsame : link.ungrouped = link := by
    rw [TypeLink.ungrouped, FieldType.ungrouped_of_ne hgroup]
  rw [hsame] at hlinked'
  rw [hrecord] at hconvert
  have hagain := convertDefault_of_enumDefault (h.enumDefault henum) hconvert
  refine ⟨o, ho, y, ?_, fun hfloat hdouble => hy ?_ ?_⟩
  · have hlabel' : e'.label ≠ .repeated := hrepeats.label ▸ hlabel
    have hfile : (l'.linked e').file.dialect ≠ .proto3 := hrepeats.file ▸ hdialect
    rw [defaultOf, if_neg hfile, if_neg hlabel', hlinked', hagain]
    cases htype : link.type <;> simp_all [Except.map]
  · exact fun htype => hfloat ((congrArg TypeLink.type hrecord).symm.trans htype)
  · exact fun htype => hdouble ((congrArg TypeLink.type hrecord).symm.trans htype)

/-- The record of a field that is repeated has a default just if the first one has, and it can be
had. -/
theorem defaults : l'.DefaultFits (l'.linked e') ∧
    (l'.recordOf e').default.isSome = (l.recordOf e).default.isSome ∧
      (link.type ≠ .float → link.type ≠ .double →
        (l'.recordOf e').default = (l.recordOf e).default) := by
  have hrecord : (l'.recordOf e').default = (e'.decl.option? "default").bind fun o =>
      (l'.defaultOf (l'.linked e') e'.label o.value.value).toOption.join := rfl
  unfold DefaultFits
  rw [hrecord, linked_decl]
  cases hx : (l.recordOf e).default with
  | none =>
    have hnone : e'.decl.option? "default" = none := hrepeats.options.no_default hx
    simp [hnone]
  | some x =>
    obtain ⟨o, ho, y, hdefault, hy⟩ :=
      h.default hrepeats hlink hlink' henum hdialect hx
    rw [ho, Option.bind_some, hdefault]
    refine ⟨fun o' ho' => ?_, rfl, fun hfloat hdouble => congrArg some (hy hfloat hdouble)⟩
    obtain rfl := Option.some.inj ho'
    exact ⟨_, hdefault⟩

omit h henum in
/-- A field that is repeated is packed just if the first one is, and this can be told. -/
theorem packed : (l'.linked e').PackedFits ∧ (l'.linked e').packed = (l.linked e).packed := by
  have hlinked : (l.linked e).link = link := by rw [linked, hlink, Option.getD_some]
  have hlinked' : (l'.linked e').link = link.ungrouped := by rw [linked, hlink', Option.getD_some]
  have hpackable : (l'.linked e').link.type.isPackable = (l.linked e).link.type.isPackable := by
    rw [hlinked, hlinked', TypeLink.ungrouped, FieldType.isPackable_ungrouped]
  have hlabel : (l'.linked e').label = (l.linked e).label := hrepeats.label
  have hfile : e'.file.dialect ≠ .proto3 := hrepeats.file ▸ hdialect
  unfold FieldEntry.PackedFits
  cases hpacked : (l.linked e).packed with
  | false =>
    have hnone : e'.decl.option? "packed" = none := hrepeats.options.unpacked hpacked
    simp [FieldEntry.packed, hnone, hfile]
  | true =>
    obtain ⟨o, ho, hflag⟩ := hrepeats.options.packed hpacked
    have ho' : e'.decl.option? "packed" = some o := ho
    have hboth : (l.linked e).label = .repeated ∧ (l.linked e).link.type.isPackable = true := by
      unfold FieldEntry.packed at hpacked
      split_ifs at hpacked with hskip
      simpa using hskip
    refine ⟨fun _ _ o' ho'' => ?_, ?_⟩
    · obtain rfl := Option.some.inj (ho'.symm.trans ho'')
      rw [hflag]
      rfl
    · simp [FieldEntry.packed, hlabel, hboth, hpackable, ho', hflag]

end Options

/-! ## Linking again -/

/-- Messages and enums of a linker that repeats another one are defined there as well, the enums in
messages. -/
theorem exists_like {d' : Definition} (hd' : d' ∈ l'.definitions)
    (hkind : d'.kind = .message ∨ d'.kind = .enum) :
    ∃ d ∈ l.definitions, d.kind = d'.kind ∧ d.fullName = d'.fullName ∧ (d'.kind = .enum →
      ∃ k e, d.place = some k ∧ l.inventory.enums[k]? = some e ∧ e.parent.isSome) := by
  rcases hkind with hkind | hkind
  · obtain ⟨i, m', hm', rfl⟩ := h.coherent'.indexed.message_of_mem hd' hkind
    obtain ⟨m, hm, halike⟩ := getElem?_of_forall₂ h.messages.flip hm'
    exact ⟨_, h.coherent.indexed.messageDefinition_mem hm, rfl, halike.fullName.symm, nofun⟩
  · obtain ⟨i, e', he', rfl⟩ := h.coherent'.indexed.enum_of_mem hd' hkind
    obtain ⟨e, he, halike, hnested⟩ := h.exists_enum he'
    exact ⟨_, h.coherent.indexed.enumDefinition_mem he, rfl, halike.fullName.symm,
      fun _ => ⟨i, e, rfl, he, hnested⟩⟩

/-- If a linker that repeats another one is resolved, then no field of the other refers to an enum
that is not repeated. -/
theorem enumsNested_of_resolved (hresolved : l'.Resolved) : l.EnumsNested := by
  intro e he link hlink k hk
  obtain ⟨e', he', hrepeats⟩ := exists_of_forall₂ h.fields.flip e he
  obtain ⟨link₀, hlink₀, hnamed⟩ := hrepeats.named
  obtain rfl := Option.some.inj (hlink₀.symm.trans hlink)
  unfold NamedBy at hnamed
  cases hscalar : FieldType.scalar? e'.unowned.decl.typeName with
  | some type =>
    simp only [hscalar] at hnamed
    rw [hnamed] at hk
    cases hk
  | none =>
    simp only [hscalar] at hnamed
    obtain ⟨-, honly, d, hd, isGroup, hdlink⟩ := hnamed
    obtain ⟨hkind, htype, hplace⟩ := enum_of_typeLinkOf hdlink hk
    -- the reference means a definition of the same name, which is the enum itself
    have hentered : { e'.unowned with owner := e'.owner } ∈ l'.inventory.fields := he'
    obtain ⟨link', hlink'⟩ := hresolved.exists_link hentered
    simp only [typeLink?, hscalar] at hlink'
    obtain ⟨d', hmeaning, hdlink'⟩ := Option.bind_eq_some_iff.mp hlink'
    have hfull : d'.fullName = d.fullName := by
      have hmem := fullName_of_meaning? hmeaning
      rw [honly htype, List.mem_singleton, fullName_of_typeLinkOf hdlink] at hmem
      exact hmem
    obtain ⟨d₀, hd₀, hsame, hfull₀, henum⟩ :=
      h.exists_like (mem_of_meaning? hmeaning) (kind_of_typeLinkOf hdlink')
    obtain rfl := h.coherent.indexed.eq_of_fullName hd hd₀ (hfull.symm.trans hfull₀.symm)
    obtain ⟨k', entry, hplace', hentry, hnested⟩ := henum (hsame.symm.trans hkind)
    obtain rfl := Option.some.inj (hplace.symm.trans hplace')
    exact ⟨entry, hentry, hnested⟩

/-- A linker that repeats a resolved one is resolved, and no default overflows. -/
theorem resolved (hnested : l.EnumsNested) (hdialect : file'.dialect ≠ .proto3) :
    l'.Resolved ∧ ∀ f ∈ l'.members, ¬ l'.Overflows (l'.linked f) := by
  have hattached : l'.attached = [] := by
    rw [attached, h.extensions]
    rfl
  have hfield : ∀ f ∈ l'.members, (l'.typeLink? f).isSome ∧ l'.DefaultFits (l'.linked f) ∧
      (l'.linked f).PackedFits := by
    intro f hf
    rw [members, hattached, List.append_nil] at hf
    obtain ⟨e, he, hrepeats⟩ := exists_of_forall₂ h.fields f hf
    obtain ⟨link, hlink, hlink'⟩ := h.typeLink hrepeats (hnested e he)
    have henum := hnested e he link hlink
    exact ⟨Option.isSome_iff_exists.mpr ⟨_, hlink'⟩,
      (h.defaults hrepeats hlink hlink' henum hdialect).1,
      (packed hrepeats hlink hlink' hdialect).1⟩
  refine ⟨⟨?_, fun f hf => (hfield f hf).1, ?_, fun f hf => (hfield f hf).2⟩, fun f hf => ?_⟩
  · rw [hattached, h.extensions]
    rfl
  · simp [h.methods]
  · rintro ⟨o, ho, e, hfailure⟩
    obtain ⟨d, hd⟩ := (hfield f hf).2.1 o ho
    cases hfailure.symm.trans hd

end Repeated

end Linker

/-! ## Tables that are told again -/

/-- A field is told again: with its name, number, label, type, packing and default. -/
structure FieldRecord.RetoldBy (f f' : FieldRecord) : Prop where
  name : f'.name = f.name
  fullName : f'.fullName = f.fullName
  number : f'.number = f.number
  type : f'.type = f.type.ungrouped
  typeName : f'.typeName = f.typeName
  messageType : f'.messageType = f.messageType
  enumType : f'.enumType = f.enumType
  containingType : f'.containingType = f.containingType
  label : f'.label = f.label
  packed : f'.packed = f.packed
  hasDefault : f'.default.isSome = f.default.isSome
  default : f.type ≠ .float → f.type ≠ .double → f'.default = f.default

/-- A message is told again, with its fields, its enums and the messages nested in it. -/
structure MessageRecord.RetoldBy (m m' : MessageRecord) : Prop where
  name : m'.name = m.name
  fullName : m'.fullName = m.fullName
  parent : m'.parent = m.parent
  isMapEntry : m'.isMapEntry = m.isMapEntry
  fields : m'.fields = m.fields
  messages : m'.messages = m.messages
  enums : m'.enums = m.enums

/-- An enum is told again, with its values. -/
structure EnumRecord.RetoldBy (e e' : EnumRecord) : Prop where
  name : e'.name = e.name
  fullName : e'.fullName = e.fullName
  parent : e'.parent = e.parent
  values : e'.values = e.values

/-- Tables tell the messages of others again, and with every message all its fields and enums, at the
same places. -/
structure Tables.RetoldBy (t t' : Tables) : Prop where
  size : t'.messages.size = t.messages.size
  messages : ∀ (i : Nat) (m : MessageRecord), t.messages[i]? = some m →
    ∃ m' : MessageRecord, t'.messages[i]? = some m' ∧ m.RetoldBy m'
  fields : ∀ m ∈ t.messages, ∀ k ∈ m.fields, ∃ f f' : FieldRecord,
    t.fields[k]? = some f ∧ t'.fields[k]? = some f' ∧ f.RetoldBy f'
  enums : ∀ m ∈ t.messages, ∀ k ∈ m.enums, ∃ e e' : EnumRecord,
    t.enums[k]? = some e ∧ t'.enums[k]? = some e' ∧ e.RetoldBy e' ∧
      ∀ p ∈ e.values, ∃ v, t.enumValues[p]? = some v ∧ t'.enumValues[p]? = some v

namespace Linker

variable {l l' : Linker} {file' : FileScope}

namespace Repeated

variable (h : Repeated l l' file')
include h

/-- A message has its fields, enums and messages at the same places. -/
theorem retoldBy_message {i : Nat} {m m' : MessageHeader} (hm : l.inventory.messages[i]? = some m)
    (hm' : l'.inventory.messages[i]? = some m') (halike : m.site.Alike m'.site) :
    (l.linkedMessage i m).RetoldBy (l'.linkedMessage i m') where
  name := halike.name
  fullName := halike.fullName
  parent := h.parent_message (List.mem_of_getElem? hm) (List.mem_of_getElem? hm') halike
  isMapEntry := halike.isMapEntry
  fields := findIdxs_of_map_eq h.map_owner_fields (· = some i)
  messages := findIdxs_of_map_eq h.map_parent_messages (· = some i)
  enums := h.findIdxs_enums i

/-- The record of a field is told again. -/
theorem retoldBy_field (hnested : l.EnumsNested) (hdialect : file'.dialect ≠ .proto3)
    {e e' : FieldEntry} (he : e ∈ l.inventory.fields) (he' : e' ∈ l'.inventory.fields)
    (hrepeats : l.Repeats file' e.unowned e'.unowned) :
    (l.fieldRecord (l.linked e) none).RetoldBy (l'.fieldRecord (l'.linked e') none) := by
  obtain ⟨link, hlink, hlink'⟩ := h.typeLink hrepeats (hnested e he)
  have henum := hnested e he link hlink
  obtain ⟨-, hhasDefault, hdefault⟩ := h.defaults hrepeats hlink hlink' henum hdialect
  have hlinked : (l.linked e).link = link := by
    rw [linked, show l.typeLink? e = some link from hlink, Option.getD_some]
  have hlinked' : (l'.linked e').link = link.ungrouped := by
    rw [linked, show l'.typeLink? e' = some link.ungrouped from hlink', Option.getD_some]
  have hlinks : (l'.linked e').link = (l.linked e).link.ungrouped := by rw [hlinked', hlinked]
  have howner : e'.owner = e.owner := h.owner_field he he' hrepeats
  exact {
    name := hrepeats.name
    fullName := hrepeats.fullName
    number := hrepeats.number
    type := congrArg TypeLink.type hlinks
    typeName := (congrArg TypeLink.typeName hlinks :)
    messageType := (congrArg TypeLink.messageType hlinks :)
    enumType := (congrArg TypeLink.enumType hlinks :)
    containingType := howner
    label := hrepeats.label
    packed := (packed hrepeats hlink hlink' hdialect).2
    hasDefault := hhasDefault
    default := fun hfloat hdouble => hdefault (hlinked ▸ hfloat) (hlinked ▸ hdouble) }

/-- The record of an enum is told again, with the records of its values. -/
theorem retoldBy_enum {k : Nat} {e e' : EnumEntry} (he : l.inventory.enums[k]? = some e)
    (he' : l'.inventory.enums[k]? = some e') (halike : e.site.Alike e'.site) :
    (enumRecord (l.firstValuePlace k) e).RetoldBy (enumRecord (l'.firstValuePlace k) e') ∧
      ∀ p ∈ (enumRecord (l.firstValuePlace k) e).values, ∃ v,
        l.linkedTables.enumValues[p]? = some v ∧ l'.linkedTables.enumValues[p]? = some v := by
  have hplace := h.firstValuePlace (List.getElem?_eq_some_iff.mp he').1.le
  have hentry : l.enums[k]? = some e := by simpa [inventory] using he
  have hentry' : l'.enums[k]? = some e' := by simpa [inventory] using he'
  refine ⟨⟨halike.name, halike.fullName, ?_, ?_⟩, fun p hp => ?_⟩
  · exact h.parent_enum (List.mem_of_getElem? he) (List.mem_of_getElem? he') halike
  · rw [values_enumRecord, values_enumRecord, hplace]
    exact congrArg (List.range' _) halike.values.length_eq.symm
  · rw [values_enumRecord, List.mem_range'] at hp
    obtain ⟨n, hn, rfl⟩ := hp
    rw [Nat.one_mul]
    obtain ⟨v', hv', hname, hnumber⟩ :=
      getElem?_of_forall₂ halike.values (List.getElem?_eq_getElem hn)
    have hfull : e'.fullName = e.fullName := halike.fullName
    have hrecord := getElem?_valueRecords hentry (List.getElem?_eq_getElem hn)
    have hrecord' := getElem?_valueRecords hentry' hv'
    rw [hplace, hname, hnumber, hfull] at hrecord'
    exact ⟨_, by simpa [linkedTables] using hrecord, by simpa [linkedTables] using hrecord'⟩

/-- The tables of a linker that repeats another one tell those of the other again. -/
theorem retoldBy (hnested : l.EnumsNested) (hdialect : file'.dialect ≠ .proto3) :
    l.linkedTables.RetoldBy l'.linkedTables where
  size := by simp [linkedTables, h.messages.length_eq]
  messages i m hm := by
    obtain ⟨header, hheader, rfl⟩ := exists_header hm
    obtain ⟨header', hheader', halike⟩ := h.exists_message hheader
    exact ⟨_, getElem?_linkedTables_message hheader', h.retoldBy_message hheader hheader' halike⟩
  fields m hm k hk := by
    obtain ⟨i, hi⟩ := Array.getElem?_of_mem hm
    obtain ⟨header, -, rfl⟩ := exists_header hi
    obtain ⟨e, he, -⟩ := mem_findIdxs.mp hk
    obtain ⟨e', he', hrepeats⟩ := getElem?_of_forall₂ h.fields he
    exact ⟨_, _, getElem?_linkedTables_field he, getElem?_linkedTables_field he',
      h.retoldBy_field hnested hdialect (List.mem_of_getElem? he) (List.mem_of_getElem? he') hrepeats⟩
  enums m hm k hk := by
    obtain ⟨i, hi⟩ := Array.getElem?_of_mem hm
    obtain ⟨header, -, rfl⟩ := exists_header hi
    obtain ⟨e, he, howner⟩ := mem_findIdxs.mp hk
    obtain ⟨e', he', halike⟩ := h.exists_enum_of_nested he (by simp [of_decide_eq_true howner])
    exact ⟨_, _, getElem?_linkedTables_enum he, getElem?_linkedTables_enum he',
      h.retoldBy_enum he he' halike⟩

end Repeated

end Linker

end ProtoSchema
