import ProtoSchema.Proofs.Linker.Retold
import ProtoSchema.Proofs.Pool.Steady
import ProtoSchema.Proofs.Schema.Fields
import ProtoSchema.Proofs.Schema.Listing
import ProtoSchema.Proofs.Schema.Worded
import ProtoSchema.Proofs.Tables.Numbers
import ProtoSchema.Proofs.Tables.Origins

/-!
# Map fields and their entries

A map field refers to its entry by name, from the scope of its message, as any other field does. The
entry is the first thing that is found there, since it stands right in that scope and in the same
file. So every map field that was kept leads to the entry that was made for it, and every entry has
one such field (`Linker.maps_of_link`).
-/

namespace ProtoSchema

open Dotted

/-! ## What holds of map fields -/

namespace Tables

variable (t : Tables) (files : List SchemaFile)

/-- At place `k` stands the record of a field that the message at place `owner` is declared with and
that keeps the rules of this message. Extensions are no such fields. -/
structure Keeps (k owner : Nat) (r : FieldRecord) (f : FieldDecl) : Prop where
  record : t.fields[k]? = some r
  containingType : r.containingType = some owner
  own : r.extensionScope = none
  name : r.name = f.name
  accepted : ∃ m d, t.messages[owner]? = some m ∧
    DeclaredAs files (t.messages.toList.map MessageRecord.source) owner d ∧
    f ∈ d.accepted m.fullName

/-- A message is the entry of a map field with a key type: it is nested in the message that holds
the field and has a key and a value, and nothing else. -/
structure IsEntryOf (e : MessageRecord) (owner : Nat) (f : FieldDecl) (key : String) : Prop where
  isMapEntry : e.isMapEntry = true
  name : e.name = MapEntry.name f.name
  parent : e.parent = some owner
  extensions : e.extensions = []
  messages : e.messages = []
  enums : e.enums = []
  fields : ∃ (a b : Nat) (k v : FieldRecord), e.fields = [a, b] ∧
    t.fields[a]? = some k ∧ k.name = "key" ∧ k.number = 1 ∧
    FieldType.scalar? key = some k.type ∧ k.type ∉ [.float, .double, .bytes] ∧
    t.fields[b]? = some v ∧ v.name = "value" ∧ v.number = 2

/-- The record of a map field repeats the entry of the field. -/
structure RepeatsEntry (r : FieldRecord) (owner : Nat) (f : FieldDecl) (key : String) : Prop where
  number : r.number = f.number
  label : r.label = .repeated
  type : r.type = .message
  packed : r.packed = false
  default : r.default = none
  entry : ∃ (j : Nat) (e : MessageRecord), r.messageType = some j ∧ t.messages[j]? = some e ∧
    t.IsEntryOf e owner f key

/-- Every field of a message comes from the declaration of the message. Every map field that is kept
repeats its entry, and every entry is repeated by one map field that is kept. -/
structure MapsEntered : Prop where
  kept : ∀ (i : Nat) m, t.messages[i]? = some m → m.isMapEntry = false → ∀ k ∈ m.fields,
    ∃ r, ∃! f, t.Keeps files k i r f
  fields : ∀ k i r f key value position, t.Keeps files k i r f →
    f.shape = .map key value position → t.RepeatsEntry r i f key
  entries : ∀ (j : Nat) e, t.messages[j]? = some e → e.isMapEntry = true →
    ∃! k, ∃ i r f key value position, t.Keeps files k i r f ∧
      f.shape = .map key value position ∧ r.messageType = some j

end Tables

/-! ## Declarations of files that were read -/

/-- What holds of all messages in some files, at any depth, holds of the declarations of
messages. -/
theorem DeclaredAs.forall {files : List SchemaFile} {sources : List MessageSource} {i : Nat}
    {d : MessageDecl} {P : MessageDecl → Prop} (h : DeclaredAs files sources i d)
    (hfiles : ∀ f ∈ files, MessageDecl.ForallIn P f.messages) : d.Forall P := by
  induction h with
  | top _ _ _ hf _ hd =>
    exact MessageDecl.forallIn_iff.mp (hfiles _ hf) _ (List.mem_of_find?_eq_some hd)
  | @nested _ _ _ e _ _ _ _ _ hd ih =>
    obtain ⟨_, _, messages, _, _, _, _, _, _, _, _⟩ := e
    rw [MessageDecl.Forall] at ih
    exact MessageDecl.forallIn_iff.mp ih.2 _ (List.mem_of_find?_eq_some hd)

theorem MessageDecl.Forall.self {P : MessageDecl → Prop} {m : MessageDecl} (h : m.Forall P) :
    P m := by
  obtain ⟨_, _, _, _, _, _, _, _, _, _, _⟩ := m
  rw [MessageDecl.Forall] at h
  exact h.1

/-- The key of a map is a keyword of a type that may key maps. -/
theorem FieldDecl.isMapKeyName_of_problem? {dialect : Dialect} {f : FieldDecl}
    {key value : String} {position : Position} (hshape : f.shape = .map key value position)
    (h : f.problem? dialect = none) : FieldType.isMapKeyName key = true := by
  unfold problem? at h
  rw [hshape] at h
  simpa using h

theorem FieldType.exists_of_isMapKeyName {key : String} (h : isMapKeyName key = true) :
    ∃ t, scalar? key = some t ∧ t ∉ [float, double, bytes] := by
  unfold isMapKeyName at h
  split at h
  · cases h
  · cases h
  · cases h
  · cases h
  · next t hdouble hfloat hbytes ht =>
    exact ⟨t, ht, by simpa using ⟨hfloat, hdouble, hbytes⟩⟩

namespace Linker

variable {files : List SchemaFile} {l l' : Linker} {i k : Nat} {f : FieldDecl} {b b' : MapBlock}

/-- What is known of a linker that some files were declared to which have been read, one of each
name. -/
structure Known (files : List SchemaFile) (l : Linker) : Prop where
  read : ∀ f ∈ files, f.IsRead
  distinct : (files.map (·.name)).Nodup
  coherent : l.Coherent
  sourced : Sourced files l
  traced : Traced files l

theorem known_ofFiles (hread : ∀ f ∈ files, f.IsRead) (hnames : (files.map (·.name)).Nodup) :
    Known files (ofFiles files) :=
  ⟨hread, hnames, coherent_ofFiles hnames, sourced_ofFiles files, traced_ofFiles files⟩

theorem getElem?_sources {m : MessageHeader} (hm : l.inventory.messages[i]? = some m) :
    l.sources[i]? = some m.source := by
  rw [sources, List.getElem?_map, hm, Option.map_some]

/-- A message with a declaration is no map entry. -/
theorem not_mapEntry_of_declaredAs {d : MessageDecl} (h : DeclaredAs files l.sources i d)
    {m : MessageHeader} (hm : l.inventory.messages[i]? = some m) : m.isMapEntry = false :=
  h.not_mapEntry (getElem?_sources hm)

/-- A message with a field that keeps the rules of its declaration is no map entry. -/
theorem Accepts.ne_entry (hf : Accepts files l i f) (hb : b.StandsIn files l) : i ≠ b.entry := by
  obtain ⟨m, d, hm, hd, -⟩ := hf
  obtain ⟨_, _, hentry⟩ := hb.entry
  rintro rfl
  obtain rfl := Option.some.inj (hm.symm.trans hentry)
  exact absurd (not_mapEntry_of_declaredAs hd hm) (by simp)

theorem FieldAt.unique {j : Nat} {g : FieldDecl} (hf : l.FieldAt k i f) (hg : l.FieldAt k j g) :
    i = j ∧ f = g := by
  obtain ⟨e, he, howner, rfl⟩ := hf
  obtain ⟨e', he', howner', rfl⟩ := hg
  obtain rfl := Option.some.inj (he.symm.trans he')
  exact ⟨Option.some.inj (howner.symm.trans howner'), rfl⟩

theorem recordOf_type_of_scalar? {e : FieldEntry} {t : FieldType}
    (ht : FieldType.scalar? e.decl.typeName = some t) : (l.recordOf e).type = t := by
  simp [recordOf, fieldRecord, linked, typeLink?, ht]

/-! ## Blocks of map fields -/

namespace Known

variable (h : Known files l)
include h

theorem worded (hf : Accepts files l i f) : f.Worded := by
  obtain ⟨m, d, -, hd, hmem⟩ := hf
  have hworded : d.Forall MessageDecl.Worded := hd.forall fun file hfile => by
    obtain ⟨text, hparse⟩ := h.read file hfile
    exact (SchemaFile.worded_of_parse hparse).messages
  exact hworded.self.fields f (FieldRules.accepted_subset _ _ hmem)

theorem isMapKeyName (hb : b.StandsIn files l) : FieldType.isMapKeyName b.key = true := by
  obtain ⟨m, d, -, hd, hmem⟩ := hb.accepted
  have hproblem : d.Forall (MessageDecl.ForallFields fun x =>
      ∃ dialect, x.problem? dialect = none) := hd.forall fun file hfile => by
    obtain ⟨text, hparse⟩ := h.read file hfile
    refine MessageDecl.ForallIn.imp (fun m hm => ?_) _ (SchemaFile.problem?_of_parse hparse).1
    exact ⟨fun x hx => ⟨_, hm.1 x hx⟩, fun e he x hx => ⟨_, hm.2 e he x hx⟩⟩
  obtain ⟨dialect, hfield⟩ := hproblem.self.1 _ (FieldRules.accepted_subset _ _ hmem)
  exact FieldDecl.isMapKeyName_of_problem? hb.shape hfield

/-- A field that keeps the rules of its message is told by its name. -/
theorem eq_of_accepts {g : FieldDecl} (hf : Accepts files l i f) (hg : Accepts files l i g)
    (hname : f.name = g.name) : f = g := by
  obtain ⟨m, d, hm, hd, hmem⟩ := hf
  obtain ⟨m', d', hm', hd', hmem'⟩ := hg
  obtain rfl := Option.some.inj (hm.symm.trans hm')
  obtain rfl := hd.unique h.distinct hd'
  exact MessageDecl.eq_of_accepted hmem hmem' hname

/-- A message has one key field at most. -/
theorem eq_first (hb : b.StandsIn files l) (hb' : b'.StandsIn files l)
    (hentry : b.entry = b'.entry) : b.first = b'.first := by
  obtain ⟨m, -⟩ := hb.entry
  have hkey {b : MapBlock} (hb : b.StandsIn files l) {j : Nat} (hj : b.entry = j) :
      (l.linkedMessage j m).fieldsByName.find? "key" = some b.first := by
    obtain ⟨e, he, howner, hdecl⟩ := hb.key
    exact (h.sourced.find?_fieldsByName j m "key" b.first).mpr
      ⟨e, he, hj ▸ howner, congrArg FieldDecl.name hdecl⟩
  exact Option.some.inj ((hkey hb hentry).symm.trans (hkey hb' rfl))

/-- The only fields of an entry are its key and its value. -/
theorem places_entry (hb : b.StandsIn files l) :
    l.inventory.fields.findIdxs (·.owner = some b.entry) = [b.first, b.first + 1] := by
  refine List.Subset.antisymm_of_sortedLT (fun k hk => ?_) (fun k hk => ?_)
    List.pairwise_findIdxs.sortedLT (by simp [List.sortedLT_iff_pairwise])
  · obtain ⟨e, he, howner⟩ := mem_findIdxs.mp hk
    have hfield : l.FieldAt k b.entry e.decl := ⟨e, he, of_decide_eq_true howner, rfl⟩
    cases h.traced.fields k (List.getElem?_eq_some_iff.mp he).1 with
    | plain haccepted _ hfield' =>
      exact absurd (hfield'.unique hfield).1 (haccepted.ne_entry hb)
    | map hb' hk =>
      exact absurd ((hk ▸ hb'.field).unique hfield).1 (hb'.accepted.ne_entry hb)
    | key hb' hk => simp [hk, h.eq_first hb' hb ((hk ▸ hb'.key).unique hfield).1]
    | value hb' hk => simp [hk, h.eq_first hb' hb ((hk ▸ hb'.value).unique hfield).1]
  · have hfields : ∃ f, l.FieldAt k b.entry f := by
      rcases List.mem_cons.mp hk with rfl | hk
      · exact ⟨_, hb.key⟩
      · exact List.mem_singleton.mp hk ▸ ⟨_, hb.value⟩
    obtain ⟨_, e, he, howner, -⟩ := hfields
    exact mem_findIdxs.mpr ⟨e, he, decide_eq_true howner⟩

/-- The fields of a message that is no entry are named by fields that keep its rules. -/
theorem exists_accepts {m : MessageHeader} (hm : l.inventory.messages[i]? = some m)
    (hplain : m.isMapEntry = false) {g : FieldDecl} (hfield : l.FieldAt k i g) :
    ∃ f, g.name = f.name ∧ Accepts files l i f := by
  have hentry {b : MapBlock} (hb : b.StandsIn files l) : b.entry ≠ i := by
    rintro rfl
    obtain ⟨_, _, hm'⟩ := hb.entry
    obtain rfl := Option.some.inj (hm.symm.trans hm')
    cases hplain
  obtain ⟨e, he, -⟩ := id hfield
  cases h.traced.fields k (List.getElem?_eq_some_iff.mp he).1 with
  | plain haccepted _ hfield' =>
    obtain ⟨rfl, rfl⟩ := hfield'.unique hfield
    exact ⟨_, rfl, haccepted⟩
  | @map b hb hk =>
    obtain ⟨rfl, rfl⟩ := (hk ▸ hb.field).unique hfield
    exact ⟨b.field, rfl, hb.accepted⟩
  | key hb hk => exact absurd ((hk ▸ hb.key).unique hfield).1 (hentry hb)
  | value hb hk => exact absurd ((hk ▸ hb.value).unique hfield).1 (hentry hb)

/-- A map field that was kept has made a block. -/
theorem exists_block {key value : String} {position : Position} {g : FieldDecl}
    (hf : Accepts files l i f) (hshape : f.shape = .map key value position)
    (hfield : l.FieldAt k i g) (hname : g.name = f.name) :
    ∃ b : MapBlock, b.StandsIn files l ∧ k = b.first + 2 ∧ b.owner = i ∧ b.field = f := by
  obtain ⟨e, he, -⟩ := id hfield
  cases h.traced.fields k (List.getElem?_eq_some_iff.mp he).1 with
  | plain haccepted hmap hfield' =>
    obtain ⟨rfl, rfl⟩ := hfield'.unique hfield
    rw [h.eq_of_accepts haccepted hf hname, FieldDecl.isMap, hshape] at hmap
    cases hmap
  | @map b hb hk =>
    obtain ⟨rfl, rfl⟩ := (hk ▸ hb.field).unique hfield
    exact ⟨b, hb, hk, rfl, h.eq_of_accepts hb.accepted hf hname⟩
  | key hb hk => exact absurd (((hk ▸ hb.key).unique hfield).1).symm (hf.ne_entry hb)
  | value hb hk => exact absurd (((hk ▸ hb.value).unique hfield).1).symm (hf.ne_entry hb)

/-! ## Records -/

/-- The record of an entry tells nothing but its key and its value. -/
theorem isEntryOf (hb : b.StandsIn files l) {m : MessageHeader}
    (hm : l.inventory.messages[b.entry]? = some m) :
    l.linkedTables.IsEntryOf (l.linkedMessage b.entry m) b.owner b.field b.key := by
  obtain ⟨_, _, hentry⟩ := hb.entry
  obtain rfl := Option.some.inj (hm.symm.trans hentry)
  -- whatever else might belong to the entry would belong to a message with a declaration
  have hdeclared {d : MessageDecl} (hd : DeclaredAs files l.sources b.entry d) : False :=
    absurd (not_mapEntry_of_declaredAs hd hm) (by simp)
  have hnested {parent : Option Nat} (hp : IsDeclared files l parent) : parent ≠ some b.entry := by
    intro heq
    obtain ⟨d, hd⟩ := hp b.entry heq
    exact hdeclared hd
  have hrecord {k : Nat} {e : FieldEntry} (he : l.inventory.fields[k]? = some e) :
      l.linkedTables.fields[k]? = some (l.recordOf e) := by
    rw [linkedTables, List.getElem?_toArray]
    exact getElem?_memberRecords_field he
  obtain ⟨t, ht, hkinds⟩ := FieldType.exists_of_isMapKeyName (h.isMapKeyName hb)
  obtain ⟨k, hk, -, hkdecl⟩ := hb.key
  obtain ⟨v, hv, -, hvdecl⟩ := hb.value
  have htype : (l.recordOf k).type = t :=
    recordOf_type_of_scalar? (by rw [hkdecl]; exact ht)
  refine ⟨rfl, rfl, rfl, List.findIdxs_eq_nil_iff.mpr fun x hx => ?_,
    List.findIdxs_eq_nil_iff.mpr fun x hx => decide_eq_false (hnested (h.traced.messages x hx)),
    List.findIdxs_eq_nil_iff.mpr fun x hx => decide_eq_false (hnested (h.traced.enums x hx)),
    b.first, b.first + 1, _, _, h.places_entry hb, hrecord hk, congrArg FieldDecl.name hkdecl,
    congrArg FieldDecl.number hkdecl, htype ▸ ht, htype ▸ hkinds, hrecord hv,
    congrArg FieldDecl.name hvdecl, congrArg FieldDecl.number hvdecl⟩
  obtain ⟨e, -, owner, htarget, rfl⟩ := exists_of_mem_attachedTo hx
  refine decide_eq_false fun howner => ?_
  obtain ⟨d, hd, -⟩ := h.sourced.exists_opensNumber (Option.some.inj howner ▸ htarget)
  exact hdeclared hd

/-- The name of an entry means the entry in the scope of the message that holds the map field. -/
theorem linked_link (hb : b.StandsIn files l) {e : FieldEntry}
    (he : l.inventory.fields[b.first + 2]? = some e) :
    ∃ fullName, (l.linked e).link = ⟨.message, fullName, some b.entry, none⟩ := by
  obtain ⟨m, hm, hentry⟩ := hb.entry
  obtain ⟨e', he', howner, hdecl⟩ := hb.field
  obtain rfl := Option.some.inj (he.symm.trans he')
  have heq := h.coherent.eq_entry (List.mem_of_getElem? he) hm howner
  have hname : e.decl.typeName = MapEntry.name b.field.name := congrArg FieldDecl.typeName hdecl
  have hhead : (candidates e.scope (MapEntry.name b.field.name)).head? =
      some (join m.fullName (MapEntry.name b.field.name)) := by
    rw [show e.scope = m.fullName from congrArg FieldEntry.scope heq]
    exact head?_candidates (MapEntry.isPart_name (h.worded hb.accepted).name).not_isPointed _
  have hmeaning : l.meaning? e.scope (MapEntry.name b.field.name) e.file = some _ :=
    h.coherent.meaning?_of_head (h.coherent.indexed.messageDefinition_mem hentry)
      (congrArg (fun e : FieldEntry => some e.file.name) heq).symm hhead
  have hlink : l.typeLink? e =
      some ⟨.message, join m.fullName (MapEntry.name b.field.name), some b.entry, none⟩ := by
    rw [typeLink?, hname, MapEntry.scalar?_name]
    simp only [hmeaning, Option.bind_some, hdecl]
    rfl
  exact ⟨_, by rw [linked, hlink, Option.getD_some]⟩

/-- A map field repeats its entry, whatever its options say. -/
theorem repeatsEntry (hb : b.StandsIn files l) {e : FieldEntry}
    (he : l.inventory.fields[b.first + 2]? = some e) :
    l.linkedTables.RepeatsEntry (l.recordOf e) b.owner b.field b.key ∧
      (l.recordOf e).messageType = some b.entry := by
  obtain ⟨_, -, hentry⟩ := hb.entry
  obtain ⟨e', he', -, hdecl⟩ := hb.field
  obtain rfl := Option.some.inj (he.symm.trans he')
  obtain ⟨fullName, hlinked⟩ := h.linked_link hb he
  have hlabel : (l.linked e).label = .repeated := by
    rw [FieldEntry.label, linked_decl, hdecl]
    rfl
  have hpackable : (l.linked e).link.type.isPackable = false := by
    rw [hlinked]
    rfl
  have hmessage : (l.recordOf e).messageType = some b.entry := congrArg TypeLink.messageType hlinked
  refine ⟨⟨?_, hlabel, congrArg TypeLink.type hlinked, if_pos (.inr (by simp [hpackable])), ?_,
    b.entry, _, hmessage, getElem?_linkedTables_message hentry, h.isEntryOf hb hentry⟩, hmessage⟩
  · change e.decl.number = b.field.number
    rw [hdecl]
    rfl
  · exact Option.eq_none_iff_forall_ne_some.mpr fun d hd =>
      (convertDefault_of_default? hd).2.1 hlabel

end Known

/-- What is kept in the tables has been entered. -/
theorem exists_entry_of_keeps {r : FieldRecord} (hkeeps : l.linkedTables.Keeps files k i r f) :
    ∃ e, l.inventory.fields[k]? = some e ∧ r = l.recordOf e ∧ l.FieldAt k i e.decl ∧
      e.decl.name = f.name ∧ Accepts files l i f := by
  obtain ⟨hrecord, howner, hown, hname, r', d, hr', hd, hmem⟩ := hkeeps
  rw [linkedTables, List.getElem?_toArray] at hrecord
  have hlt : k < l.inventory.fields.length := by
    by_contra hge
    obtain ⟨j, rfl⟩ := Nat.exists_eq_add_of_le (Nat.not_lt.mp hge)
    rw [memberRecords, List.getElem?_append_right (by simp), List.getElem?_map] at hrecord
    obtain ⟨x, -, rfl⟩ := Option.map_eq_some_iff.mp hrecord
    cases hown
  have he := List.getElem?_eq_getElem hlt
  obtain rfl := Option.some.inj (hrecord.symm.trans (getElem?_memberRecords_field he))
  have hm : ∃ m, l.inventory.messages[i]? = some m ∧ l.linkedMessage i m = r' := by
    simpa [linkedTables] using hr'
  obtain ⟨m, hm, rfl⟩ := hm
  exact ⟨_, he, rfl, ⟨_, he, howner, rfl⟩, hname, m, d, hm, sources_linkedTables l ▸ hd, hmem⟩

/-- What has been entered is kept in the tables. -/
theorem keeps_of_accepts {e : FieldEntry} (he : l.inventory.fields[k]? = some e)
    (howner : e.owner = some i) (hname : e.decl.name = f.name) (hf : Accepts files l i f) :
    l.linkedTables.Keeps files k i (l.recordOf e) f := by
  obtain ⟨m, d, hm, hd, hmem⟩ := hf
  refine ⟨?_, howner, rfl, hname, _, d, getElem?_linkedTables_message hm,
    sources_linkedTables l ▸ hd, hmem⟩
  rw [linkedTables, List.getElem?_toArray]
  exact getElem?_memberRecords_field he

/-! ## Linking -/

theorem Known.mapsEntered (h : Known files l) : l.linkedTables.MapsEntered files := by
  have hheader {i : Nat} {r : MessageRecord} (hr : l.linkedTables.messages[i]? = some r) :
      ∃ m, l.inventory.messages[i]? = some m ∧ l.linkedMessage i m = r := by
    simpa [linkedTables] using hr
  refine ⟨fun i r hr hplain k hk => ?_, fun k i r f key value position hkeeps hshape => ?_,
    fun j r hr hentry => ?_⟩
  · obtain ⟨m, hm, rfl⟩ := hheader hr
    obtain ⟨e, he, howner⟩ := mem_findIdxs.mp hk
    obtain ⟨f, hname, haccepted⟩ := h.exists_accepts hm hplain
      ⟨e, he, of_decide_eq_true howner, rfl⟩
    refine ⟨_, f, keeps_of_accepts he (of_decide_eq_true howner) hname haccepted, fun g hg => ?_⟩
    obtain ⟨e', he', -, -, hname', haccepted'⟩ := exists_entry_of_keeps hg
    obtain rfl := Option.some.inj (he.symm.trans he')
    exact h.eq_of_accepts haccepted' haccepted (hname'.symm.trans hname)
  · obtain ⟨e, he, rfl, hfield, hname, haccepted⟩ := exists_entry_of_keeps hkeeps
    obtain ⟨b, hb, rfl, rfl, rfl⟩ := h.exists_block haccepted hshape hfield hname
    obtain rfl : b.key = key := by
      have hshapes := hb.shape.symm.trans hshape
      injection hshapes
    exact (h.repeatsEntry hb he).1
  · obtain ⟨m, hm, rfl⟩ := hheader hr
    obtain ⟨b, hb, rfl⟩ := h.traced.entries j m hm hentry
    obtain ⟨e, he, howner, hdecl⟩ := hb.field
    have hname : e.decl.name = b.field.name := by rw [hdecl]; rfl
    refine ⟨b.first + 2, ⟨b.owner, l.recordOf e, b.field, b.key, b.value, b.position,
      keeps_of_accepts he howner hname hb.accepted, hb.shape,
      (h.repeatsEntry hb he).2⟩, ?_⟩
    rintro k ⟨i, r', f, key, value, position, hkeeps, hshape, htype⟩
    obtain ⟨e', he', rfl, hfield, hname, haccepted⟩ := exists_entry_of_keeps hkeeps
    obtain ⟨b', hb', rfl, -, -⟩ := h.exists_block haccepted hshape hfield hname
    have hsame : b'.entry = b.entry := Option.some.inj ((h.repeatsEntry hb' he').2.symm.trans htype)
    rw [h.eq_first hb' hb hsame]

end Linker

/-! ## A file with a map -/

namespace Sample

/-- The lexemes of a file with a message that has a map field. -/
def mapLexemes : List Lexed :=
  [(.keyword .kwMessage, ['m', 'e', 's', 's', 'a', 'g', 'e']), (.name, ['M']),
    (.mark .lbrace, ['\x7b']), (.keyword .kwMap, ['m', 'a', 'p']), (.mark .less, ['<']),
    (.name, ['i', 'n', 't', '3', '2']), (.mark .comma, [',']), (.name, ['b', 'o', 'o', 'l']),
    (.mark .greater, ['>']), (.name, ['a']), (.mark .equal, ['=']), (.int, ['1']),
    (.mark .semicolon, [';']), (.mark .rbrace, ['\x7d'])]

/-- The tree of this file. -/
def mapTree : Tree (.nonterminal .schemaFile) :=
  let leaf (k : Terminal) (lexeme : List Char) (column : Nat) : Tree (.terminal k) :=
    .leaf ⟨k, lexeme, ⟨1, column⟩⟩
  let word (lexeme : List Char) (column : Nat) : Tree (.part .name) :=
    .node ⟨.name, 0⟩ (.cons (leaf .name lexeme column) .nil)
  let type (lexeme : List Char) (column : Nat) : Tree (.part .fullIdent) :=
    .node ⟨.fullIdent, 3⟩ (.cons (word lexeme column) .nil)
  let number : Tree (.part .fieldNumber) :=
    .node ⟨.fieldNumber, 0⟩ (.cons (leaf .int ['1'] 38) .nil)
  let field : Tree (.part .mapFieldDecl) := .node ⟨.mapFieldDecl, 1⟩
    (.cons (leaf (.keyword .kwMap) ['m', 'a', 'p'] 13) (.cons (leaf (.mark .less) ['<'] 17)
      (.cons (type ['i', 'n', 't', '3', '2'] 19) (.cons (leaf (.mark .comma) [','] 25)
        (.cons (type ['b', 'o', 'o', 'l'] 27) (.cons (leaf (.mark .greater) ['>'] 32)
          (.cons (word ['a'] 34) (.cons (leaf (.mark .equal) ['='] 36) (.cons number
            (.cons (leaf (.mark .semicolon) [';'] 40) .nil))))))))))
  let items : Tree (.part .messageItems) := .node ⟨.messageItems, 0⟩
    (.cons (.node ⟨.messageItem, 2⟩ (.cons field .nil)) .nil)
  let message : Tree (.part .messageDecl) := .node ⟨.messageDecl, 0⟩
    (.cons (leaf (.keyword .kwMessage) ['m', 'e', 's', 's', 'a', 'g', 'e'] 1)
      (.cons (word ['M'] 9) (.cons (leaf (.mark .lbrace) ['\x7b'] 11) (.cons items
        (.cons (leaf (.mark .rbrace) ['\x7d'] 42) .nil)))))
  .node .bareFile (.cons (.node .firstItem
    (.cons (.node ⟨.topItem, 3⟩ (.cons message .nil)) .nil)) .nil)

/-- The map field. -/
def mapFieldDecl : FieldDecl :=
  ⟨"a", 1, .map "int32" "bool" ⟨1, 27⟩, none, [], none, ⟨1, 34⟩⟩

/-- The message with this field. -/
def mapped : MessageDecl := ⟨"M", [mapFieldDecl], [], [], [], [], [], [], [], [], ⟨1, 9⟩⟩

/-- The file with this message. -/
def mapFile (name : Text) : SchemaFile := ⟨name, .proto2, none, [], [mapped], [], [], [], []⟩

end Sample

theorem SchemaFile.parse_mapLexemes (name : Text) :
    SchemaFile.parse name (Lexed.spaced Sample.mapLexemes) = .ok (Sample.mapFile name) := by
  have hvalue : Sample.mapTree.value = .ok (Sample.mapFile "") := by
    with_unfolding_all rfl
  exact parse_spaced_tree (by decide) (by decide) hvalue rfl name

namespace Linker

/-- Whatever files are linked that have been read, one of each name: when linking gives tables,
every map field that was kept repeats the entry that was made for it, and every entry is repeated by
one such field. -/
theorem maps_of_link {files : List SchemaFile} (hread : ∀ f ∈ files, f.IsRead)
    (hnames : (files.map (·.name)).Nodup) {l : Linker} {t : Tables}
    (hlink : (ofFiles files).link = (l, .ok t)) : t.MapsEntered files := by
  obtain ⟨rfl, -⟩ := (coherent_ofFiles hnames).eq_linkedTables hlink
  exact (known_ofFiles hread hnames).mapsEntered

theorem maps_of_link_file :
    ∃ l t e, (ofFiles [Sample.mapFile "a.proto"]).link = (l, .ok t) ∧
      t.messages[1]? = some e ∧ e.isMapEntry = true ∧
      t.MapsEntered [Sample.mapFile "a.proto"] := by
  have hread : ∀ f ∈ [Sample.mapFile "a.proto"], f.IsRead := by
    intro f hf
    obtain rfl := List.mem_singleton.mp hf
    exact ⟨_, SchemaFile.parse_mapLexemes _⟩
  have hmap : ((ofFiles [Sample.mapFile "a.proto"]).link.2.toOption.bind (·.messages[1]?)).map
      MessageRecord.isMapEntry = some true := by
    decide +kernel
  obtain ⟨l, t, hlink⟩ := exists_tables (l := ofFiles [Sample.mapFile "a.proto"])
    (by decide +kernel)
  obtain ⟨e, he, hentry⟩ := Option.map_eq_some_iff.mp hmap
  rw [hlink] at he
  exact ⟨l, t, e, hlink, he, hentry, maps_of_link hread (by simp) hlink⟩

end Linker

end ProtoSchema
