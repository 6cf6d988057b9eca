import ProtoSchema.Proofs.Descriptor.Writable
import ProtoSchema.Proofs.Linker.Contents
import ProtoSchema.Proofs.Linker.Reworded

/-!
# What mirrors the records of a message rewords the message

The records of a message tell what was declared in it: its fields, its enums with their values, and
the messages nested in it, all in their order. So a declaration that mirrors the records rewords the
message (`Linker.Alone.reworded_of_mirrors`), if no field but a map refers to the entry of a map.
-/

namespace ProtoSchema

open Dotted

/-! ## Names -/

/-- The words of a name make it up again. -/
theorem Dotted.ofWords_words (name : String) : ofWords (words name) = name := by
  apply String.toList_injective
  rw [ofWords, words, String.toList_intercalate, List.map_map]
  simp [Function.comp_def]

/-- A name without a point in front is tried inside of its scope first. -/
theorem Dotted.head?_candidates {name : String} (hname : ¬ IsPointed name) (scope : String) :
    (candidates scope name).head? = some (join scope name) := by
  have hcandidates : candidates scope name =
      (openings (scopeWords scope)).map fun ws => ofWords (ws ++ [name]) := by
    unfold candidates
    split
    · rename_i rest hrest
      exact absurd (by rw [IsPointed, hrest]; rfl) hname
    · rfl
  have hhead : ofWords (scopeWords scope ++ [name]) = join scope name := by
    by_cases hscope : scope = ""
    · simp [hscope, scopeWords, join, ofWords]
    · have hwords : words scope ≠ [] := by simp [words, List.splitOn_ne_nil]
      rw [scopeWords, if_neg (by simpa using hscope), ofWords_append_singleton hwords,
        ofWords_words, join_of_ne_empty hscope]
  rw [hcandidates, openings, List.range_succ, List.reverse_append, List.map_append]
  simp [hhead]

/-- The name of a map entry is no keyword. -/
theorem MapEntry.scalar?_name (field : String) : FieldType.scalar? (MapEntry.name field) = none := by
  have hkeywords : ∀ t ∈ FieldType.scalars, t.keyword.toList.getLast? ≠ some 'y' := by decide
  refine List.find?_eq_none.mpr fun t ht heq => hkeywords t ht ?_
  rw [eq_of_beq heq, MapEntry.name, String.toList_append]
  simp

/-- Among the fields that are declared in the messages of a file, only maps refer to entries of maps. -/
def Tables.MapsOnly (t : Tables) (f : SchemaFile) : Prop :=
  ∀ x ∈ f.declared, ∀ g ∈ x.2.fields, g.isMap = false → ∀ r ∈ t.fields,
    r.fullName = join x.1 g.name → r.extensionScope = none → t.entry? r = none

namespace Linker

variable {l : Linker} {f : SchemaFile}

/-! ## The records of fields -/

/-- What stands at the first place where a name is looked up, and is seen, is what the name means. -/
theorem Coherent.meaning?_of_seen (hl : l.Coherent) {scope name : String} {file : FileScope}
    {d : Definition} (hd : d ∈ l.definitions) (hseen : d.seenIn (l.visibleFrom file) = true)
    (hhead : (candidates scope name).head? = some d.fullName) :
    l.meaning? scope name file = some d := by
  obtain ⟨rest, hrest⟩ := List.head?_eq_some_iff.mp hhead
  have hdefined := (definition?_eq_some hl.indexed).mpr ⟨hd, rfl⟩
  rw [meaning?, lookup?, hrest, List.findSome?_cons, hdefined, Option.filter_some, hseen]
  rfl

/-- What belongs to a file is seen from there. -/
theorem Coherent.meaning?_of_head (hl : l.Coherent) {scope name : String} {file : FileScope}
    {d : Definition} (hd : d ∈ l.definitions) (hfile : d.file = some file.name)
    (hhead : (candidates scope name).head? = some d.fullName) :
    l.meaning? scope name file = some d :=
  hl.meaning?_of_seen hd (by simp [Definition.seenIn, hfile, visibleFrom]) hhead

/-- The record of a field, apart from the message that it belongs to. -/
def recordOf (l : Linker) (e : FieldEntry) : FieldRecord := l.fieldRecord (l.linked e) none

/-- Whether a field mirrors a record does not depend on the message that the record belongs to. -/
theorem mirrorsField_of_owned {t : Tables} {r : FieldRecord} {owner : Option Nat} {d : FieldDecl}
    (h : l.MirrorsField t { r with containingType := owner } d) : l.MirrorsField t r d :=
  ⟨h.name, h.number, h.type, ⟨h.options.no_default, h.options.default, h.options.unpacked,
    h.options.packed⟩⟩

/-- A field of a message is what was entered in the message's scope. -/
theorem Coherent.eq_entry (hl : l.Coherent) {e : FieldEntry} (he : e ∈ l.inventory.fields) {i : Nat}
    {m : MessageHeader} (hm : l.inventory.messages[i]? = some m) (howner : e.owner = some i) :
    e = { e.decl.entry m.file m.fullName with owner := some i } := by
  obtain ⟨-, hscope, hfull⟩ := hl.nested.fields e he
  obtain ⟨-, hlink⟩ := hl.unlinked.inventory.fields e he
  rw [howner] at hscope
  obtain ⟨m', hm', hname, hfile⟩ := hscope
  obtain rfl := Option.some.inj (hm'.symm.trans hm)
  cases e
  simp_all [FieldDecl.entry]

/-- One file alone has been declared, and all of it has been entered. -/
structure Alone (l : Linker) (f : SchemaFile) : Prop where
  coherent : l.Coherent
  outlined : l.inventory.Outlined f.outline
  spelled : f.outline.Spelled
  files : l.files = [f.scope]

namespace Alone

variable (h : l.Alone f)
include h

theorem apart : f.outline.Apart none := h.coherent.apart_of_outlined h.outlined

/-- Everything is in the one file. -/
theorem file_eq {m : MessageHeader} (hm : m ∈ l.inventory.messages) : m.file = f.scope := by
  have hfile := h.coherent.unlinked.inventory.messages m hm
  rw [h.files] at hfile
  exact List.mem_singleton.mp hfile

/-- Everything that is outlined has its place. -/
theorem exists_place {mo : MessageOutline} (hmo : mo ∈ f.outline.messages) :
    ∃ (i : Nat) (m : MessageHeader), l.inventory.messages[i]? = some m ∧ m.site = mo.toMessageSite := by
  have hsite : mo.toMessageSite ∈ l.inventory.messages.map MessageHeader.site := by
    rw [h.outlined.messages]
    exact List.mem_map_of_mem hmo
  obtain ⟨m, hm, hsite⟩ := List.mem_map.mp hsite
  obtain ⟨i, hi⟩ := List.getElem?_of_mem hm
  exact ⟨i, m, hi, hsite⟩

/-- The fields of a message are what was declared in it, entered in its scope. -/
theorem filter_owner {i : Nat} {m : MessageHeader} (hm : l.inventory.messages[i]? = some m)
    {mo : MessageOutline} (hmo : mo ∈ f.outline.messages) (hname : mo.fullName = m.fullName) :
    l.inventory.fields.filter (·.owner = some i) =
      mo.fields.map fun g => { g.entered.entry f.scope mo.fullName with owner := some i } := by
  obtain ⟨mo', hmo', hsite, hdecls⟩ := h.coherent.exists_outline h.outlined f.outline_holds hm
  have hsame := hname.trans (congrArg MessageSite.fullName hsite).symm
  obtain rfl := List.inj_on_of_nodup_map h.apart.1 hmo hmo' hsame
  have hentries : ∀ e ∈ l.inventory.fields.filter (·.owner = some i),
      { e.decl.entry f.scope mo.fullName with owner := some i } = e := by
    intro e he
    obtain ⟨he, howner⟩ := List.mem_filter.mp he
    rw [← h.file_eq (List.mem_of_getElem? hm), hname]
    exact (h.coherent.eq_entry he hm (of_decide_eq_true howner)).symm
  calc l.inventory.fields.filter (·.owner = some i)
      = (l.inventory.fields.filter (·.owner = some i)).map
          fun e => { e.decl.entry f.scope mo.fullName with owner := some i } :=
        ((List.map_congr_left hentries).trans (List.map_id _)).symm
    _ = ((l.inventory.fields.filter (·.owner = some i)).map (·.decl)).map
          fun d => { d.entry f.scope mo.fullName with owner := some i } := by
        rw [List.map_map]
        rfl
    _ = _ := by
        rw [hdecls, List.map_map]
        rfl

/-- The records of the fields of a message are those of what was declared in it. -/
theorem map_fields {i : Nat} {m : MessageHeader} (hm : l.inventory.messages[i]? = some m)
    {mo : MessageOutline} (hmo : mo ∈ f.outline.messages) (hname : mo.fullName = m.fullName) :
    (l.linkedMessage i m).fields.map (l.linkedTables.fields[·]?) = mo.fields.map fun g =>
      some { l.recordOf (g.entered.entry f.scope mo.fullName) with containingType := some i } := by
  rw [map_fields_linkedMessage, h.filter_owner hm hmo hname, List.map_map]
  rfl

/-! ## The records of messages and enums -/

/-- The messages nested in a message, other than the entries of maps, have their records in the order
in which they were declared. -/
theorem nested_eq {i : Nat} {m : MessageHeader} (hm : l.inventory.messages[i]? = some m)
    {ns : List MessageRecord}
    (hns : (l.linkedMessage i m).messages.map (l.linkedTables.messages[·]?) = ns.map some) :
    (ns.filter (!·.isMapEntry)).map (·.summary) =
      (f.outline.messagesIn m.fullName).map (·.summary) := by
  let inner := l.inventory.messages.filter (·.parent = some i)
  have hsummary : ns.map (·.summary) = inner.map (·.site.summary) := by
    have hrecord (k : Nat) : (l.linkedTables.messages[k]?).map MessageRecord.summary =
        (l.inventory.messages[k]?).map (·.site.summary) := by
      simp [linkedTables, linkedMessage, Function.comp_def, MessageRecord.summary,
        MessageSite.summary, MessageHeader.site]
    have hplaces := congrArg (List.map (Option.map MessageRecord.summary)) hns
    have hheaders := congrArg (List.map (Option.map fun m : MessageHeader => m.site.summary))
      (map_getElem?_findIdxs (·.parent = some i) l.inventory.messages)
    rw [List.map_map, List.map_map] at hplaces hheaders
    refine List.map_injective_iff.mpr (Option.some_injective _) ?_
    rw [List.map_map, List.map_map]
    exact hplaces.symm.trans ((List.map_congr_left fun k _ => hrecord k).trans hheaders)
  have hinside : ∀ m' ∈ l.inventory.messages, (m'.parent = some i ∧ m'.isMapEntry = false) ↔
      m'.site.LiesIn m.fullName := by
    intro m' hm'
    obtain ⟨scope, hscope, hfull⟩ := h.coherent.nested.messages m' hm'
    have hsame : m'.fullName = join m.fullName m'.name ↔ scope = m.fullName := by
      rw [hfull]
      exact ⟨join_left_injective, fun heq => by rw [heq]⟩
    rw [h.coherent.parent_eq_iff hscope hm, ← hsame]
    exact and_right_comm.trans and_assoc
  calc (ns.filter (!·.isMapEntry)).map (·.summary)
      = (ns.map (·.summary)).filter (!·.isMapEntry) := by rw [List.filter_map]; rfl
    _ = ((inner.filter (!·.isMapEntry)).map (·.site)).map (·.summary) := by
        rw [hsummary, List.filter_map, List.map_map]
        rfl
    _ = ((l.inventory.messages.map (·.site)).filter (·.LiesIn m.fullName)).map (·.summary) := by
        rw [List.filter_map, List.filter_filter]
        congr 2
        refine List.filter_congr fun m' hm' => ?_
        have hiff := hinside m' hm'
        simp only [Function.comp_apply, ← hiff]
        simp [and_comm]
    _ = _ := by rw [h.outlined.messages]; rfl

/-- An enum that mirrors a record has the name and the values that were declared. -/
theorem alike_of_mirrors {k : Nat} {e : EnumEntry} (he : l.inventory.enums[k]? = some e)
    {r : EnumRecord} (hr : l.linkedTables.enums[k]? = some r) {d : EnumDecl}
    (hd : l.linkedTables.MirrorsEnum r d) :
    d.Plain ∧ d.name = e.name ∧ e.values.Forall₂ EnumValueDecl.Alike d.values := by
  have hsite : f.outline.enums[k]? = some e.site := by
    rw [← h.outlined.enums, List.getElem?_map, he]
    rfl
  have hname : r.name = e.name := by
    have hrecord : l.enumRecords[k]? = some r := by simpa [linkedTables] using hr
    have hentry : l.enums[k]? = some e := by simpa [inventory] using he
    rw [getElem?_enumRecords, hentry, Option.map_some] at hrecord
    rw [← Option.some.inj hrecord]
    rfl
  have hvalues := forall₂_of_found (ownValues_eq h.outlined hsite hr) hd.values
  exact ⟨hd.plain, hd.name.trans hname, hvalues⟩

/-- Enums that mirror the records of the enums in a message reword what was declared in it. -/
theorem reworded_enums {i : Nat} {m : MessageHeader} (hm : l.inventory.messages[i]? = some m)
    {es : List EnumDecl} (hes : f.outline.enumsIn m.fullName =
      es.map (EnumDecl.site f.scope m.fullName true))
    {ds : List EnumDecl} (hds : (l.linkedMessage i m).enums.Forall₂ (fun place d => ∃ r,
      l.linkedTables.enums[place]? = some r ∧ l.linkedTables.MirrorsEnum r d) ds) :
    es.Forall₂ EnumDecl.Reworded ds := by
  let Like (e : EnumSite) (d : EnumDecl) : Prop :=
    d.Plain ∧ d.name = e.name ∧ e.values.Forall₂ EnumValueDecl.Alike d.values
  have hinside : ∀ e ∈ l.inventory.enums, e.parent = some i ↔ e.site.LiesIn m.fullName := by
    intro e he
    obtain ⟨scope, hscope, hfull⟩ := h.coherent.nested.enums e he
    have hsame : e.fullName = join m.fullName e.name ↔ scope = m.fullName := by
      rw [hfull]
      exact ⟨join_left_injective, fun heq => by rw [heq]⟩
    rw [h.coherent.parent_eq_iff hscope hm, ← hsame]
    rfl
  have hplaces : (l.linkedMessage i m).enums.Forall₂ (fun place d => ∃ e,
      l.inventory.enums[place]? = some e ∧ Like e.site d) ds := by
    refine (forall₂_mem hds).imp ?_
    rintro place d ⟨hplace, r, hr, hd⟩
    obtain ⟨e, he, -⟩ := mem_findIdxs.mp hplace
    exact ⟨e, he, h.alike_of_mirrors he hr hd⟩
  have hinner := forall₂_of_found (g := id)
    (map_getElem?_findIdxs (·.parent = some i) l.inventory.enums) hplaces
  have hsites : (l.inventory.enums.filter (·.parent = some i)).map (·.site) =
      es.map (EnumDecl.site f.scope m.fullName true) := by
    rw [← hes, Outline.enumsIn, ← h.outlined.enums, List.filter_map]
    congr 1
    exact List.filter_congr fun e he => decide_eq_decide.mpr (hinside e he)
  have hlike := List.forall₂_map_left_iff (f := EnumEntry.site) (R := Like) |>.mpr hinner
  rw [hsites, List.forall₂_map_left_iff] at hlike
  exact hlike.imp fun _ _ h => ⟨h.1, h.2.1, h.2.2⟩

/-! ## Maps -/

/-- A message that is declared in the file. -/
theorem exists_declared {x : String × MessageDecl} (hx : x ∈ f.declared) :
    ∃ mo ∈ f.outline.messages, mo.fullName = x.1 ∧ mo.fields = x.2.fields ∧ IsPath x.1 := by
  obtain ⟨ms, es, hcontains⟩ := f.outline_contains
  obtain ⟨mo, hmo, hname, hentry, hfields⟩ := hcontains.declared x hx
  exact ⟨mo, hmo, hname, hfields, hname ▸ (h.spelled.messages mo hmo hentry).2⟩

/-- A field that is declared in a message is entered in it. -/
theorem entered_mem {i : Nat} {m : MessageHeader} (hm : l.inventory.messages[i]? = some m)
    {mo : MessageOutline} (hmo : mo ∈ f.outline.messages) (hname : mo.fullName = m.fullName)
    {g : FieldDecl} (hg : g ∈ mo.fields) :
    { g.entered.entry f.scope mo.fullName with owner := some i } ∈ l.inventory.fields := by
  refine List.mem_of_mem_filter (p := (·.owner = some i)) ?_
  rw [h.filter_owner hm hmo hname]
  exact List.mem_map_of_mem hg

/-- A field that is declared in the file is entered. -/
theorem exists_entered {x : String × MessageDecl} (hx : x ∈ f.declared) {g : FieldDecl}
    (hg : g ∈ x.2.fields) :
    ∃ i, { g.entered.entry f.scope x.1 with owner := some i } ∈ l.inventory.fields := by
  obtain ⟨mo, hmo, hname, hfields, -⟩ := h.exists_declared hx
  obtain ⟨i, m, hm, hsite⟩ := h.exists_place hmo
  refine ⟨i, hname ▸ h.entered_mem hm hmo (congrArg MessageSite.fullName hsite).symm ?_⟩
  rwa [hfields]

/-- The name of a field that is declared in the file is a word. -/
theorem isWord_name {x : String × MessageDecl} (hx : x ∈ f.declared) {g : FieldDecl}
    (hg : g ∈ x.2.fields) : IsWord g.name := by
  obtain ⟨i, hentered⟩ := h.exists_entered hx hg
  rw [← g.name_entered]
  exact (spelled_of_mem_members h.outlined h.spelled (List.mem_append_left _ hentered)).name

/-- A map is linked to its entry, which has the key and the value of the map. -/
theorem exists_entry {x : String × MessageDecl} (hx : x ∈ f.declared) {g : FieldDecl}
    (hg : g ∈ x.2.fields) {key value : String} {position : Position}
    (hshape : g.shape = .map key value position) :
    let entry := join x.1 (MapEntry.name g.name)
    ∃ j m, l.typeLink? ((mapField g).entry f.scope x.1) = some ⟨.message, entry, some j, none⟩ ∧
      l.linkedTables.entry? (l.recordOf ((mapField g).entry f.scope x.1)) =
        some (l.linkedMessage j m) ∧
      (l.linkedMessage j m).fields.map (l.linkedTables.fields[·]?) =
        [keyField g key, valueField g value position].map (fun p =>
          some { l.recordOf (p.entry f.scope entry) with containingType := some j }) ∧
      ∀ p ∈ [keyField g key, valueField g value position],
        { p.entry f.scope entry with owner := some j } ∈ l.inventory.fields := by
  intro entry
  obtain ⟨ms, es, hcontains⟩ := f.outline_contains
  have hmo := hcontains.entries x hx g hg key value position hshape
  obtain ⟨j, m, hm, hsite⟩ := h.exists_place hmo
  have hfull : m.fullName = entry := congrArg MessageSite.fullName hsite
  have hentry : m.isMapEntry = true := congrArg MessageSite.isMapEntry hsite
  have hlink : l.typeLink? ((mapField g).entry f.scope x.1) =
      some ⟨.message, entry, some j, none⟩ := by
    have hmeaning : l.meaning? x.1 (MapEntry.name g.name) f.scope =
        some (Inventory.messageDefinition j m) := by
      refine h.coherent.meaning?_of_head (h.coherent.indexed.messageDefinition_mem hm) ?_ ?_
      · exact congrArg some (congrArg FileScope.name (h.file_eq (List.mem_of_getElem? hm)))
      · rw [head?_candidates (MapEntry.isPart_name (h.isWord_name hx hg)).not_isPointed]
        exact congrArg some hfull.symm
    have hname : ((mapField g).entry f.scope x.1).decl.typeName = MapEntry.name g.name := rfl
    rw [typeLink?, hname, MapEntry.scalar?_name]
    simp only
    rw [show ((mapField g).entry f.scope x.1).scope = x.1 from rfl,
      show ((mapField g).entry f.scope x.1).file = f.scope from rfl, hmeaning, Option.bind_some]
    exact congrArg (fun n => some (⟨.message, n, some j, none⟩ : TypeLink)) hfull
  refine ⟨j, m, hlink, ?_, h.map_fields hm hmo hfull.symm, fun p hp => ?_⟩
  · simp [Tables.entry?, recordOf, fieldRecord, linked, hlink, getElem?_linkedTables_message hm,
      linkedMessage, hentry]
  · have hentered := h.entered_mem hm hmo hfull.symm hp
    rcases List.mem_pair.mp hp with rfl | rfl
    exacts [hentered, hentered]

end Alone

/-! ## Messages -/

/-- A field that is declared in a file is told again: with its name and number, as a map if it is one,
and with everything that its record tells. -/
structure Retells (l : Linker) (f : SchemaFile) (scope : String) (g g' : FieldDecl) : Prop where
  declared : ∃ m, (scope, m) ∈ f.declared ∧ g ∈ m.fields
  alike : g.Alike g'
  mirrors : l.MirrorsField l.linkedTables (l.recordOf (g.entered.entry f.scope scope)) g'

namespace Alone

theorem entry?_eq_none (h : l.Alone f) (hmaps : l.linkedTables.MapsOnly f)
    {x : String × MessageDecl} (hx : x ∈ f.declared) {g : FieldDecl} (hg : g ∈ x.2.fields)
    (hmap : g.isMap = false) :
    l.linkedTables.entry? (l.recordOf (g.entry f.scope x.1)) = none := by
  obtain ⟨i, hentered⟩ := h.exists_entered hx hg
  rw [FieldDecl.entered_of_not_isMap hmap] at hentered
  have hrecord : { l.recordOf (g.entry f.scope x.1) with containingType := some i } ∈
      l.linkedTables.fields :=
    List.mem_toArray.mpr (List.mem_append_left _ (List.mem_map_of_mem hentered))
  have hnone := hmaps x hx g hg hmap _ hrecord rfl rfl
  exact hnone

/-- A declaration that mirrors the record of a field tells it again. -/
theorem retells_of_mirrors (h : l.Alone f) (hmaps : l.linkedTables.MapsOnly f)
    {x : String × MessageDecl} (hx : x ∈ f.declared) {g : FieldDecl} (hg : g ∈ x.2.fields)
    {g' : FieldDecl}
    (hd : l.MirrorsField l.linkedTables (l.recordOf (g.entered.entry f.scope x.1)) g') :
    l.Retells f x.1 g g' := by
  refine ⟨⟨x.2, hx, hg⟩, ⟨hd.name.trans g.name_entered, hd.number.trans g.number_entered, ?_⟩, hd⟩
  · have htype := hd.type
    unfold Tables.MirrorsType at htype
    cases hmap : g.isMap with
    | false =>
      rw [FieldDecl.entered_of_not_isMap hmap, h.entry?_eq_none hmaps hx hg hmap] at htype
      obtain ⟨-, type, position, hshape, -⟩ := htype
      simp [FieldDecl.isMap, hshape]
    | true =>
      obtain ⟨key, value, position, hshape⟩ := FieldDecl.isMap_iff.mp hmap
      obtain ⟨j, m, -, hentry, -⟩ := h.exists_entry hx hg hshape
      rw [FieldDecl.entered_of_map hshape, hentry] at htype
      obtain ⟨_, _, keyType, valueType, position', -, hshape', -⟩ := htype
      exact FieldDecl.isMap_iff.mpr ⟨keyType, valueType, position', hshape'⟩

mutual

/-- What mirrors the record of a declared message rewords the message. -/
theorem reworded_of_mirrors (h : l.Alone f) (hmaps : l.linkedTables.MapsOnly f)
    {scope : String} : (m : MessageDecl) →
    (∀ x ∈ m.declared scope, x ∈ f.declared) → ∀ {r : MessageRecord}, r ∈ l.linkedTables.messages →
      r.name = m.name → r.fullName = join scope m.name → ∀ {d : MessageDecl},
        l.Mirrors l.linkedTables r d → m.Reworded (l.Retells f) scope d
  | ⟨name, fields, messages, enums, extendBlocks, oneofs, options, extensionRanges, reservedRanges,
      reservedNames, position⟩, hdeclared, r, hr, hname, hfull, d, hd => by
    obtain ⟨hplain, hd, hfields, henums, hplaces, hmessages⟩ := hd
    obtain ⟨i, hi⟩ := Array.getElem?_of_mem hr
    obtain ⟨header, hheader, rfl⟩ := exists_header hi
    have hself := hdeclared _ (by rw [MessageDecl.declared]; exact List.mem_cons_self)
    obtain ⟨mo, hmo, hmoname, hmofields, -⟩ := h.exists_declared hself
    obtain ⟨ms, es, hcontains⟩ := f.outline_contains
    obtain ⟨hmessagesIn, henumsIn⟩ := hcontains.inside h.apart _ hself
    have hfull' : header.fullName = join scope name := hfull
    rw [MessageDecl.Reworded]
    refine ⟨hplain, hd.trans hname, ?_, ?_, ?_⟩
    · have hown := forall₂_of_found (h.map_fields hheader hmo (hmoname.trans hfull'.symm)) hfields
      rw [hmoname, hmofields] at hown
      refine (forall₂_mem hown).imp fun g g' ⟨hg, hmirrors⟩ => ?_
      exact h.retells_of_mirrors hmaps hself hg (mirrorsField_of_owned hmirrors)
    · refine h.reworded_enums hheader ?_ henums
      rw [hfull']
      exact henumsIn
    · have hnested := h.nested_eq hheader hplaces
      rw [hfull', hmessagesIn, List.map_map] at hnested
      refine rewordedAll_of_mirrors h hmaps messages ?_ ?_ hnested hmessages
      · intro x hx
        refine hdeclared x ?_
        rw [MessageDecl.declared]
        exact List.mem_cons_of_mem _ hx
      · intro n hn
        have hplace : some n ∈ (l.linkedMessage i header).messages.map
            (l.linkedTables.messages[·]?) := by
          rw [hplaces]
          exact List.mem_map_of_mem (List.mem_of_mem_filter hn)
        obtain ⟨k, -, hk⟩ := List.mem_map.mp hplace
        exact Array.mem_of_getElem? hk

theorem rewordedAll_of_mirrors (h : l.Alone f) (hmaps : l.linkedTables.MapsOnly f)
    {scope : String} : (ms : List MessageDecl) →
    (∀ x ∈ MessageDecl.declaredAll scope ms, x ∈ f.declared) → ∀ {rs : List MessageRecord},
      (∀ r ∈ rs, r ∈ l.linkedTables.messages) →
      rs.map (·.summary) = ms.map (fun m => (m.site f.scope scope true).summary) →
        ∀ {ds : List MessageDecl}, rs.Forall₂ (l.Mirrors l.linkedTables) ds →
          MessageDecl.RewordedAll (l.Retells f) scope ms ds
  | [], _, rs, _, hnames, ds, hds => by
    obtain rfl := List.map_eq_nil_iff.mp hnames
    rw [MessageDecl.RewordedAll]
    exact List.forall₂_nil_left_iff.mp hds
  | m :: ms, hdeclared, rs, hrs, hnames, ds, hds => by
    obtain ⟨r, rest, rfl, hfirst, hrest⟩ := List.map_eq_cons_iff.mp hnames
    obtain ⟨d, ds', hd, hds', rfl⟩ := List.forall₂_cons_left_iff.mp hds
    rw [MessageDecl.declaredAll] at hdeclared
    rw [MessageDecl.RewordedAll]
    refine ⟨d, ds', rfl, ?_, ?_⟩
    · exact reworded_of_mirrors h hmaps m (fun x hx => hdeclared x (List.mem_append_left _ hx))
        (hrs r List.mem_cons_self) (congrArg MessageSummary.name hfirst)
        (congrArg MessageSummary.fullName hfirst) hd
    · exact rewordedAll_of_mirrors h hmaps ms
        (fun x hx => hdeclared x (List.mem_append_right _ hx))
        (fun r hr => hrs r (List.mem_cons_of_mem _ hr)) hrest hds'

end

end Alone

/-! ## References -/

/-- A reference names a link: it is the keyword of a scalar, or the first full name that is tried for
it is that of a message or an enum, and no other name is tried for an enum. -/
def NamedBy (l : Linker) (link : TypeLink) (scope name : String) : Prop :=
  match FieldType.scalar? name with
  | some type => link = ⟨type, name, none, none⟩
  | none => (candidates scope name).head? = some link.typeName ∧
      (link.type = .enum → candidates scope name = [link.typeName]) ∧
      ∃ d ∈ l.definitions, ∃ isGroup, typeLinkOf d isGroup = some link

/-- In a resolved linker every field has a link. -/
theorem Resolved.exists_link (h : l.Resolved) {e : FieldEntry} {owner : Option Nat}
    (he : { e with owner } ∈ l.inventory.fields) : ∃ link, l.typeLink? e = some link :=
  Option.isSome_iff_exists.mp (h.types { e with owner } (List.mem_append_left _ he))

theorem fullName_of_typeLinkOf {d : Definition} {isGroup : Bool} {link : TypeLink}
    (h : typeLinkOf d isGroup = some link) : link.typeName = d.fullName := by
  unfold typeLinkOf at h
  split at h
  · rw [← Option.some.inj h]
  · rw [← Option.some.inj h]
  · rw [← Option.some.inj h]
  · cases h

/-- Only messages and enums are types. -/
theorem kind_of_typeLinkOf {d : Definition} {isGroup : Bool} {link : TypeLink}
    (h : typeLinkOf d isGroup = some link) : d.kind = .message ∨ d.kind = .enum := by
  unfold typeLinkOf at h
  split at h
  · exact .inl ‹_›
  · exact .inl ‹_›
  · exact .inr ‹_›
  · cases h

/-- What is linked as an enum is one. -/
theorem enum_of_typeLinkOf {d : Definition} {isGroup : Bool} {link : TypeLink}
    (h : typeLinkOf d isGroup = some link) {k : Nat} (hk : link.enumType = some k) :
    d.kind = .enum ∧ link.type = .enum ∧ d.place = some k := by
  unfold typeLinkOf at h
  split at h <;> cases h
  · cases hk
  · cases hk
  · exact ⟨‹_›, rfl, hk⟩

/-- A field that refers to no scalar is linked to a definition. -/
theorem exists_definition {e : FieldEntry} {link : TypeLink} (hlink : l.typeLink? e = some link)
    (hscalar : FieldType.scalar? e.decl.typeName = none) :
    ∃ d ∈ l.definitions, ∃ isGroup, typeLinkOf d isGroup = some link := by
  simp only [typeLink?, hscalar] at hlink
  obtain ⟨d, hd, hdlink⟩ := Option.bind_eq_some_iff.mp hlink
  exact ⟨d, mem_of_meaning? hd, _, hdlink⟩

/-- What a field refers to in its record names its link. -/
theorem Coherent.namedBy_of_refersTo (hl : l.Coherent) {e : FieldEntry} {link : TypeLink}
    (hlink : l.typeLink? e = some link) {name : String}
    (hname : l.linkedTables.RefersTo (l.recordOf e) name) (scope : String) :
    l.NamedBy link scope name := by
  have hrecord : (l.recordOf e).link = link := by
    simp [FieldRecord.link, recordOf, fieldRecord, linked, hlink]
  have hunique {name' : String} (hname' : l.linkedTables.RefersTo (l.recordOf e) name') :
      name = name' := hname.typeReference.symm.trans hname'.typeReference
  cases hscalar : FieldType.scalar? e.decl.typeName with
  | some type =>
    simp only [typeLink?, hscalar] at hlink
    obtain rfl := Option.some.inj hlink
    have htype : (l.recordOf e).type = type := congrArg TypeLink.type hrecord
    have hmem := List.mem_of_find?_eq_some hscalar
    have hkeyword : type.keyword = e.decl.typeName :=
      eq_of_beq (List.find?_some (p := fun t : FieldType => t.keyword == e.decl.typeName) hscalar)
    obtain rfl : name = e.decl.typeName := by
      rw [hunique (Tables.refersTo_scalar (htype.symm ▸ hmem)), htype, hkeyword]
    rw [NamedBy, hscalar]
  | none =>
    obtain ⟨d, hd, isGroup, hdlink⟩ := exists_definition hlink hscalar
    obtain rfl := hunique (hl.refersTo_definition hd (hdlink.trans (congrArg some hrecord.symm)))
    have hscalar : FieldType.scalar? ("." ++ d.fullName) = none := by
      have hkeywords : ∀ t ∈ FieldType.scalars, t.keyword.toList.head? ≠ some '.' := by decide
      refine List.find?_eq_none.mpr fun t ht heq => hkeywords t ht ?_
      rw [eq_of_beq heq, String.toList_append]
      rfl
    have hcandidates : candidates scope ("." ++ d.fullName) = [link.typeName] := by
      rw [candidates_of_point, fullName_of_typeLinkOf hdlink]
    rw [NamedBy, hscalar]
    exact ⟨congrArg List.head? hcandidates, fun _ => hcandidates, d, hd, _, hdlink⟩

/-- An entry in the file `file'` repeats one of the linker `l`: it has the same name, number and
label, and its type and its options say what is kept in the record of the other. -/
structure Repeats (l : Linker) (file' : FileScope) (e e' : FieldEntry) : Prop where
  scope : e'.scope = e.scope
  fullName : e'.fullName = e.fullName
  name : e'.decl.name = e.decl.name
  number : e'.decl.number = e.decl.number
  label : e'.label = e.label
  file : e'.file = file'
  isGroup : e'.decl.isGroup = false
  named : ∃ link, l.typeLink? e = some link ∧ l.NamedBy link e'.scope e'.decl.typeName
  options : l.MirrorsOptions (l.recordOf e) e'.decl.options

/-- A record without a default that is not packed asks for no options. -/
theorem mirrorsOptions_nil {r : FieldRecord} (hdefault : r.default = none) (hpacked : r.packed = false) :
    l.MirrorsOptions r [] :=
  ⟨fun _ => rfl, by simp [hdefault], fun _ => rfl, by simp [hpacked]⟩

namespace Alone

variable (h : l.Alone f) (hresolved : l.Resolved)
include h hresolved

/-- A field that is told again is entered again. -/
theorem repeats_entered {file' : FileScope} {scope : String} {g g' : FieldDecl}
    (hg : l.Retells f scope g g') :
    l.Repeats file' (g.entered.entry f.scope scope) (g'.entered.entry file' scope) := by
  obtain ⟨⟨m, hm, hgm⟩, halike, hmirrors⟩ := hg
  obtain ⟨i, hentered⟩ := h.exists_entered hm hgm
  have hname : g'.entered.name = g.entered.name := by
    rw [FieldDecl.name_entered, FieldDecl.name_entered, halike.name]
  have hnumber : g'.entered.number = g.entered.number := by
    rw [FieldDecl.number_entered, FieldDecl.number_entered, halike.number]
  have hfull : join scope g'.entered.name = join scope g.entered.name := by rw [hname]
  cases hmap : g.isMap with
  | false =>
    have hmap' := halike.isMap.trans hmap
    have htype := hmirrors.type
    unfold Tables.MirrorsType at htype
    split at htype
    · obtain ⟨hlabel, type, position, hshape, hrefers⟩ := htype
      obtain ⟨link, hlink⟩ := hresolved.exists_link hentered
      have hentered' := FieldDecl.entered_of_not_isMap hmap'
      refine ⟨rfl, hfull, hname, hnumber, ?_, rfl, ?_, ⟨link, hlink, ?_⟩, ?_⟩
      · simp [FieldEntry.label, FieldDecl.entry, hentered', hlabel]
        rfl
      · simp [FieldDecl.entry, hentered', FieldDecl.isGroup, hshape]
      · have htypeName : (g'.entered.entry file' scope).decl.typeName = type := by
          simp [FieldDecl.entry, hentered', FieldDecl.typeName, hshape]
        rw [htypeName]
        exact h.coherent.namedBy_of_refersTo hlink hrefers _
      · have hoptions := hmirrors.options
        rwa [← hentered'] at hoptions
    · obtain ⟨key, value, keyType, valueType, position, -, hshape, -⟩ := htype
      exact absurd (FieldDecl.isMap_iff.mpr ⟨keyType, valueType, position, hshape⟩) (by simp [hmap'])
  | true =>
    obtain ⟨key, value, position, hshape⟩ := FieldDecl.isMap_iff.mp hmap
    obtain ⟨key', value', position', hshape'⟩ := FieldDecl.isMap_iff.mp (halike.isMap.trans hmap)
    obtain ⟨j, n, hlink, -⟩ := h.exists_entry hm hgm hshape
    have hentered := FieldDecl.entered_of_map hshape
    have hentered' := FieldDecl.entered_of_map hshape'
    have hoptions := hmirrors.options
    rw [hentered] at hname hnumber hfull hoptions ⊢
    rw [hentered'] at hname hnumber hfull ⊢
    refine ⟨rfl, hfull, hname, hnumber, rfl, rfl, rfl, ⟨_, hlink, ?_⟩, hoptions⟩
    have htypeName : ((mapField g').entry file' scope).decl.typeName = MapEntry.name g.name :=
      congrArg MapEntry.name halike.name
    rw [htypeName, NamedBy, MapEntry.scalar?_name]
    refine ⟨head?_candidates (MapEntry.isPart_name (h.isWord_name hm hgm)).not_isPointed _,
      fun henum => absurd henum (by simp), ?_⟩
    exact exists_definition hlink (MapEntry.scalar?_name g.name)

/-- The key and the value of a map that is told again are entered again. -/
theorem repeats_parts {file' : FileScope} {scope : String} {g g' : FieldDecl}
    (hg : l.Retells f scope g g') {key value key' value' : String} {position position' : Position}
    (hshape : g.shape = .map key value position) (hshape' : g'.shape = .map key' value' position') :
    let entry := join scope (MapEntry.name g.name)
    l.Repeats file' ((keyField g key).entry f.scope entry) ((keyField g' key').entry file' entry) ∧
      l.Repeats file' ((valueField g value position).entry f.scope entry)
        ((valueField g' value' position').entry file' entry) := by
  intro entry
  obtain ⟨⟨m, hm, hgm⟩, halike, hmirrors⟩ := hg
  obtain ⟨j, n, -, hentry, hfields, hentered⟩ := h.exists_entry hm hgm hshape
  have htype := hmirrors.type
  rw [Tables.MirrorsType, FieldDecl.entered_of_map hshape, hentry] at htype
  obtain ⟨k, v, keyType, valueType, position'', hkv, hshape'', hkey, hvalue⟩ := htype
  obtain ⟨rfl, rfl, rfl⟩ := FieldShape.map.inj (hshape'.symm.trans hshape'')
  simp only [hfields, List.map_cons, List.map_nil, List.cons.injEq, Option.some.injEq, and_true] at hkv
  obtain ⟨rfl, rfl⟩ := hkv
  obtain ⟨link, hkeyLink⟩ := hresolved.exists_link (hentered _ List.mem_cons_self)
  obtain ⟨link', hvalueLink⟩ :=
    hresolved.exists_link (hentered _ (List.mem_cons_of_mem _ List.mem_cons_self))
  constructor
  · exact ⟨rfl, rfl, rfl, rfl, rfl, rfl, rfl, ⟨link, hkeyLink,
      h.coherent.namedBy_of_refersTo hkeyLink hkey _⟩, mirrorsOptions_nil rfl rfl⟩
  · exact ⟨rfl, rfl, rfl, rfl, rfl, rfl, rfl, ⟨link', hvalueLink,
      h.coherent.namedBy_of_refersTo hvalueLink hvalue _⟩, mirrorsOptions_nil rfl rfl⟩

/-- Fields that are told again are entered as fields that repeat them. -/
theorem rewords (file' : FileScope) :
    Rewords f.scope file' (l.Retells f) (l.Repeats file') where
  alike _ _ _ hg := hg.alike
  entered _ _ _ hg := h.repeats_entered hresolved hg
  parts _ _ _ hg _ _ _ _ _ _ hshape hshape' := h.repeats_parts hresolved hg hshape hshape'

end Alone

end Linker

end ProtoSchema
