import ProtoSchema.Proofs.Linker.Shuffled
import ProtoSchema.Proofs.Tables.Names

/-!
# Load order

If files can be declared and linked in one order without anything noted, then in every order, and
the tables are the same up to their places and the order of extensions (`renumbered_of_perm`):
linkers that hold shuffled outlines have renumbered tables.
-/

namespace ProtoSchema.Linker

variable {l l' : Linker}

theorem length_valueKeys (l : Linker) : l.valueKeys.length = l.valueRecords.length := by
  have hkeys :
      (l.inventory.enums.map fun e => (e.values.map fun v => (e.fullName, v.name)).length) =
        l.enums.toList.zipIdx.map fun e => (enumValueRecords e.2 e.1).length := by
    apply List.ext_getElem?
    intro i
    simp [inventory, enumValueRecords, Option.map_map, Function.comp_def]
  rw [valueKeys, valueRecords, List.length_flatMap, List.length_flatMap, hkeys]

/-! ## Members of a message -/

/-- The fields of a message stand among all members at their places. -/
theorem findIdxs_fields (l : Linker) (i : Nat) :
    l.inventory.fields.findIdxs (·.owner = some i) =
      l.scopedMembers.findIdxs fun f => f.1.owner = some i ∧ f.2 = none := by
  simp [scopedMembers, List.findIdxs_append, List.findIdxs_map, Function.comp_def,
    List.findIdxs_eq_nil_iff]

/-- The extensions of a message stand among all members behind all fields. -/
theorem findIdxs_attached (l : Linker) (i : Nat) :
    l.attached.findIdxs (·.owner = some i) l.inventory.fields.length =
      l.scopedMembers.findIdxs fun f => f.1.owner = some i ∧ f.2.isSome := by
  have hnone : l.inventory.fields.findIdxs (fun _ => false) = [] :=
    List.findIdxs_eq_nil_iff.mpr fun _ _ => rfl
  simp [scopedMembers, List.findIdxs_append, List.findIdxs_map, Function.comp_def, hnone]

/-- The declarations of the fields of a message. -/
def ownDecls (l : Linker) (i : Nat) : List FieldDecl :=
  (l.inventory.fields.filter (·.owner = some i)).map (·.decl)

/-- The fields of a message have the numbers of their declarations. -/
theorem map_memberKey_fields {i : Nat} {m : MessageHeader}
    (hm : l.inventory.messages[i]? = some m) :
    ((l.scopedMembers.filter fun f => f.1.owner = some i ∧ f.2 = none).map fun f =>
      l.memberKey f.1) = (l.ownDecls i).map fun d => (some m.fullName, d.number) := by
  have hown : l.scopedMembers.filter (fun f => f.1.owner = some i ∧ f.2 = none) =
      (l.inventory.fields.filter (·.owner = some i)).map fun f => (f, none) := by
    simp [scopedMembers, List.filter_append, List.filter_map, Function.comp_def]
  rw [hown, ownDecls, List.map_map, List.map_map]
  apply List.map_congr_left
  intro f hf
  have howner : f.owner = some i := of_decide_eq_true (List.mem_filter.mp hf).2
  simp [memberKey, howner, hm]

/-- The fields of a message have the names of their declarations. -/
theorem zip_findIdxs_fields (l : Linker) (i : Nat) :
    ((l.memberRecords.filter (·.containingType = some i)).map (·.name)).zip
        (l.inventory.fields.findIdxs (·.owner = some i)) =
      ((l.ownDecls i).map (·.name)).zip (l.inventory.fields.findIdxs (·.owner = some i)) := by
  let own := l.inventory.fields.findIdxs (·.owner = some i)
  let rest := l.attached.filter (·.owner = some i)
  have hnames : (l.memberRecords.filter (·.containingType = some i)).map (·.name) =
      (l.ownDecls i).map (·.name) ++ rest.map (·.decl.name) := by
    simp [memberRecords, ownDecls, rest, List.filter_append, List.filter_map, Function.comp_def,
      fieldRecord]
  have hlength : ((l.ownDecls i).map (·.name)).length = own.length := by
    have h := congrArg List.length (map_getElem?_findIdxs (·.owner = some i) l.inventory.fields)
    simpa [ownDecls, own] using h.symm
  have happend : ((l.ownDecls i).map (·.name) ++ rest.map (·.decl.name)).zip (own ++ []) =
      ((l.ownDecls i).map (·.name)).zip own ++ (rest.map (·.decl.name)).zip [] :=
    List.zip_append hlength
  rw [List.append_nil, List.zip_nil_right, List.append_nil] at happend
  rw [hnames, happend]

/-- The members of a message have different numbers if no two members have one key. -/
theorem nodup_numbers (h : (l.members.map l.memberKey).Nodup) (i : Nat) :
    ((l.memberRecords.filter (·.containingType = some i)).map fun f => (f.number : Int)).Nodup := by
  rw [memberKeys_eq, List.Nodup, List.pairwise_map] at h
  rw [memberRecords_eq, List.filter_map, List.map_map, List.Nodup, List.pairwise_map]
  refine (h.filter _).imp_of_mem fun {f g} hf hg hkey hnumber => hkey ?_
  have howner : f.1.owner = some i := of_decide_eq_true (List.mem_filter.mp hf).2
  have howner' : g.1.owner = some i := of_decide_eq_true (List.mem_filter.mp hg).2
  exact Prod.ext (by simp [memberKey, howner, howner']) (Int.ofNat.inj hnumber)

/-- The members of a message are found by their numbers. -/
theorem find?_fieldsByNumber (h : (l.members.map l.memberKey).Nodup) (i : Nat)
    (m : MessageHeader) (number : Int) (k : Nat) :
    (l.linkedMessage i m).fieldsByNumber.find? number = some k ↔
      ∃ f, l.memberRecords[k]? = some f ∧ f.containingType = some i ∧
        (f.number : Int) = number := by
  simp only [linkedMessage, ← findIdxs_memberRecords,
    Index.find?_ofLast_findIdxs (nodup_numbers h i), decide_eq_true_eq]

/-- Indexes of the same names in different orders find matching places. -/
theorem renumbered_nameIndex {names names' : List String} (h : names.Perm names')
    (hnodup : names'.Nodup) :
    (nameIndex names).Renumbered (matchPlace names names') (nameIndex names') := by
  have hnodup' : names.Nodup := h.nodup_iff.mpr hnodup
  refine .of_iff (fun _ _ => find?_nameIndex hnodup') (fun _ _ => find?_nameIndex hnodup) ?_ ?_
  · intro name i hi
    rw [getElem?_keys_matchPlace h hnodup, hi]
  · intro name j hj
    exact List.mem_iff_getElem?.mp (h.mem_iff.mpr (List.mem_of_getElem? hj))

/-! ## What is nested in a message -/

/-- What is nested in a message is in its file and has its full name from there. -/
theorem Coherent.parent_eq_iff_fullName (hl : l.Coherent) {file : FileScope}
    {scope : String} {parent : Option Nat} (name : String)
    (hscope : l.inventory.Encloses file scope parent) {i : Nat} {m : MessageHeader}
    (hm : l.inventory.messages[i]? = some m) :
    parent = some i ↔ (parent.isSome ∧ Dotted.join scope name = Dotted.join m.fullName name) ∧
      file = m.file := by
  constructor
  · rintro rfl
    obtain ⟨m', hm', rfl, rfl⟩ := hscope
    rw [Option.some.inj (hm'.symm.trans hm)]
    exact ⟨⟨rfl, rfl⟩, rfl⟩
  · rintro ⟨⟨hsome, hfull⟩, -⟩
    exact (hl.parent_eq_iff hscope hm).mpr ⟨hsome, Dotted.join_left_injective hfull⟩

theorem Coherent.sites_filter_parent (hl : l.Coherent) {i : Nat} {m : MessageHeader}
    (hm : l.inventory.messages[i]? = some m) :
    (l.inventory.messages.filter (·.parent = some i)).map MessageHeader.site =
      ((l.inventory.messages.map MessageHeader.site).filter (·.file = m.file)).filter
        fun s => s.isNested ∧ s.fullName = Dotted.join m.fullName s.name := by
  rw [List.filter_filter, List.filter_map]
  congr 1
  apply List.filter_congr
  intro x hx
  obtain ⟨scope, hscope, hfull⟩ := hl.nested.messages x hx
  simp [hl.parent_eq_iff_fullName x.name hscope hm, MessageHeader.site, hfull]

theorem Coherent.enumSites_filter_parent (hl : l.Coherent) {i : Nat} {m : MessageHeader}
    (hm : l.inventory.messages[i]? = some m) :
    (l.inventory.enums.filter (·.parent = some i)).map EnumEntry.site =
      ((l.inventory.enums.map EnumEntry.site).filter (·.file = m.file)).filter
        fun s => s.isNested ∧ s.fullName = Dotted.join m.fullName s.name := by
  rw [List.filter_filter, List.filter_map]
  congr 1
  apply List.filter_congr
  intro x hx
  obtain ⟨scope, hscope, hfull⟩ := hl.nested.enums x hx
  simp [hl.parent_eq_iff_fullName x.name hscope hm, EnumEntry.site, hfull]

namespace Shuffled

variable (h : l.Shuffled l')
include h

theorem getElem?_message {i : Nat} {m : MessageHeader}
    (hm : l.inventory.messages[i]? = some m) :
    l'.inventory.messages[(renumbering l l').message i]? =
      some (m.renumber (renumbering l l')) := by
  rw [h.message, hm, Option.map_some]

/-- The messages nested in one are those nested in it at its new place, in the same order. -/
theorem findIdxs_messages {i : Nat} {m : MessageHeader}
    (hm : l.inventory.messages[i]? = some m) :
    l'.inventory.messages.findIdxs (·.parent = some ((renumbering l l').message i)) =
      (l.inventory.messages.findIdxs (·.parent = some i)).map (renumbering l l').message := by
  have hsites : (l'.inventory.messages.filter
      (·.parent = some ((renumbering l l').message i))).map MessageHeader.site =
      (l.inventory.messages.filter (·.parent = some i)).map MessageHeader.site := by
    obtain ⟨o, o', ho, ho', hshuffled, -⟩ := h.outlines
    rw [h.coherent.sites_filter_parent hm, h.coherent'.sites_filter_parent (h.getElem?_message hm),
      ho.messages, ho'.messages]
    have hfile : (o'.messages.map MessageOutline.toMessageSite).filter (·.file = m.file) =
        (o.messages.map MessageOutline.toMessageSite).filter (·.file = m.file) := by
      rw [List.filter_map, List.filter_map]
      exact congrArg (List.map _) (hshuffled.messagesIn m.file)
    exact congrArg (List.filter _) hfile
  refine findIdxs_eq_map_matchPlace ?_ h.coherent'.indexed.nodup_messages
  have hnames := congrArg (List.map MessageSite.fullName) hsites
  rwa [List.map_map, List.map_map] at hnames

/-- The enums nested in a message are those nested in it at its new place, in the same order. -/
theorem findIdxs_enums {i : Nat} {m : MessageHeader} (hm : l.inventory.messages[i]? = some m) :
    l'.inventory.enums.findIdxs (·.parent = some ((renumbering l l').message i)) =
      (l.inventory.enums.findIdxs (·.parent = some i)).map (renumbering l l').enum := by
  have hsites : (l'.inventory.enums.filter
      (·.parent = some ((renumbering l l').message i))).map EnumEntry.site =
      (l.inventory.enums.filter (·.parent = some i)).map EnumEntry.site := by
    obtain ⟨o, o', ho, ho', hshuffled, -⟩ := h.outlines
    rw [h.coherent.enumSites_filter_parent hm,
      h.coherent'.enumSites_filter_parent (h.getElem?_message hm), ho.enums, ho'.enums]
    exact congrArg (List.filter _) (hshuffled.enumsIn m.file)
  refine findIdxs_eq_map_matchPlace ?_ h.coherent'.indexed.nodup_enums
  have hnames := congrArg (List.map EnumSite.fullName) hsites
  rwa [List.map_map, List.map_map] at hnames

/-- A message has the same fields at its new place, in the same order. -/
theorem ownDecls {i : Nat} {m : MessageHeader} (hm : l.inventory.messages[i]? = some m) :
    l'.ownDecls ((renumbering l l').message i) = l.ownDecls i := by
  obtain ⟨o, o', ho, ho', hshuffled, -, hholds, hholds'⟩ := h.outlines
  obtain ⟨mo, hmo, hsite, hdecls⟩ := h.coherent.exists_outline ho hholds hm
  obtain ⟨mo', hmo', hsite', hdecls'⟩ :=
    h.coherent'.exists_outline ho' hholds' (h.getElem?_message hm)
  have hname : mo.fullName = m.fullName := (congrArg MessageSite.fullName hsite :)
  have hname' : mo'.fullName = m.fullName := (congrArg MessageSite.fullName hsite' :)
  have hsame : mo' = mo :=
    List.inj_on_of_nodup_map (h.coherent.apart_of_outlined ho).1
      (hshuffled.messages.mem_iff.mp hmo') hmo (hname'.trans hname.symm)
  rw [Linker.ownDecls, Linker.ownDecls, hdecls, hdecls', hsame]

/-- A member is owned by a message just if it is at its new place. -/
theorem owner_renumber_iff {f : FieldEntry} (hf : f ∈ l.members) {i : Nat}
    (hi : i < l.inventory.messages.length) :
    f.owner.map (renumbering l l').message = some ((renumbering l l').message i) ↔
      f.owner = some i := by
  constructor
  · intro howner
    refine h.reordered.eq_of_map_message_eq ?_ (by simpa using hi) (howner.trans rfl)
    intro j hj
    obtain ⟨k, hk, howner'⟩ := h.coherent.exists_owner hf
    rw [Option.mem_def, howner', Option.some.injEq] at hj
    exact hj ▸ hk
  · intro howner
    rw [howner, Option.map_some]

variable (hattachable : l.Attachable l.inventory.fields l.inventory.extensions)
include hattachable

theorem findIdxs_fields {i : Nat} {m : MessageHeader} (hm : l.inventory.messages[i]? = some m) :
    l'.inventory.fields.findIdxs (·.owner = some ((renumbering l l').message i)) =
      (l.inventory.fields.findIdxs (·.owner = some i)).map (renumbering l l').field := by
  rw [Linker.findIdxs_fields, Linker.findIdxs_fields, renumbering_field]
  refine findIdxs_eq_map_matchPlace ?_ (h.nodup_scopedKeys hattachable)
  rw [map_memberKey_fields hm, map_memberKey_fields (h.getElem?_message hm), h.ownDecls hm]
  rfl

/-- A message has the same extensions at its new place, in some order. -/
theorem perm_findIdxs_attached {i : Nat} (hi : i < l.inventory.messages.length) :
    (l'.attached.findIdxs (·.owner = some ((renumbering l l').message i))
        l'.inventory.fields.length).Perm
      ((l.attached.findIdxs (·.owner = some i) l.inventory.fields.length).map
        (renumbering l l').field) := by
  rw [findIdxs_attached, findIdxs_attached, renumbering_field]
  refine perm_findIdxs_matchPlace ?_ (h.nodup_scopedKeys hattachable)
  have hperm := ((h.reordered.scopedMembers h.coherent hattachable).filter
    fun f => f.1.owner = some ((renumbering l l').message i) ∧ f.2.isSome).map
      fun f => l'.memberKey f.1
  -- a member belongs to the message at its new place just if it did at the old one
  have hsame : l.scopedMembers.filter ((fun f => decide
      (f.1.owner = some ((renumbering l l').message i) ∧ f.2.isSome)) ∘
        Prod.map (·.renumber (renumbering l l')) id) =
      l.scopedMembers.filter fun f => f.1.owner = some i ∧ f.2.isSome := by
    apply List.filter_congr
    intro f hf
    have hmem : f.1 ∈ l.members := map_fst_scopedMembers l ▸ List.mem_map_of_mem hf
    have howner := h.owner_renumber_iff hmem hi
    exact decide_eq_decide.mpr (and_congr_left fun _ => howner)
  rw [List.filter_map, hsame, List.map_map] at hperm
  refine hperm.trans (.of_eq (List.map_congr_left fun f _ => ?_))
  exact h.memberKey_renumber f.1

/-! ## Records -/

/-- The record of a member, at its new place. -/
theorem memberRecord (k : Nat) : l'.memberRecords[(renumbering l l').field k]? =
    (l.memberRecords[k]?).map (·.renumber (renumbering l l')) := by
  rw [memberRecords_eq, memberRecords_eq, List.getElem?_map, List.getElem?_map,
    h.scopedMember hattachable, Option.map_map, Option.map_map]
  congr 1
  funext f
  exact h.reordered.fieldRecord f.1 f.2

omit hattachable in
theorem methodRecord (k : Nat) :
    (l'.inventory.methods.map l'.methodRecord)[(renumbering l l').method k]? =
      ((l.inventory.methods.map l.methodRecord)[k]?).map (·.renumber (renumbering l l')) := by
  have hentry : l'.inventory.methods[(renumbering l l').method k]? =
      (l.inventory.methods[k]?).map id :=
    getElem?_matchPlace (fun m hm => h.methods_perm.mem_iff.mpr hm) (fun _ _ => rfl)
      h.coherent'.indexed.nodup_methods k
  rw [List.getElem?_map, List.getElem?_map, hentry, Option.map_map, Option.map_map]
  congr 1
  funext m
  exact h.reordered.methodRecord m

omit hattachable in
/-- The record of an enum, at its new place. -/
theorem enumRecord {i : Nat} {e : EnumEntry} (he : l.enums[i]? = some e) :
    (enumRecord (l.firstValuePlace i) e).Renumbered (renumbering l l')
      (enumRecord (l'.firstValuePlace ((renumbering l l').enum i))
        (e.renumber (renumbering l l'))) := by
  let placed := e.values.zipIdx (l.firstValuePlace i)
  have hplaced : e.values.zipIdx (l'.firstValuePlace ((renumbering l l').enum i)) =
      placed.map (Prod.map id (renumbering l l').enumValue) := by
    apply List.ext_getElem?
    intro k
    by_cases hk : k < e.values.length
    · simp [placed, hk, h.enumValue he hk]
    · simp [placed, hk]
  have hentries {κ : Type} (key : EnumValueDecl → κ) :
      (placed.map (Prod.map id (renumbering l l').enumValue)).map (fun v => (key v.1, v.2)) =
        (placed.map fun v => (key v.1, v.2)).map
          (Prod.map id (renumbering l l').enumValue) := by
    rw [List.map_map, List.map_map]
    rfl
  refine ⟨rfl, rfl, rfl, rfl, ?_, ?_, ?_⟩
  · simp only [Linker.enumRecord, EnumEntry.renumber, hplaced, List.map_map]
    rfl
  · simp only [Linker.enumRecord, EnumEntry.renumber, hplaced, hentries (·.number)]
    exact .ofFirst _ _
  · simp only [Linker.enumRecord, EnumEntry.renumber, hplaced, hentries (·.name)]
    exact .ofLast _ _

omit hattachable in
theorem enumValueRecord (j : Nat) : l'.valueRecords[(renumbering l l').enumValue j]? =
    (l.valueRecords[j]?).map (·.renumber (renumbering l l')) := by
  by_cases hj : j < l.valueRecords.length
  · obtain ⟨i, e, k, v, he, hv, rfl⟩ := exists_of_lt_length_valueRecords hj
    obtain ⟨hk, -⟩ := List.getElem?_eq_some_iff.mp hv
    have he' : l'.enums[(renumbering l l').enum i]? = some (e.renumber (renumbering l l')) := by
      rw [h.reordered.enum, he, Option.map_some]
    rw [h.enumValue he hk, getElem?_valueRecords he hv, getElem?_valueRecords he' hv]
    rfl
  -- a place behind all values leads behind all values
  · have hbehind : (renumbering l l').enumValue j = l'.valueRecords.length := by
      rw [← length_valueKeys]
      refine matchPlace_of_none ?_
      rw [List.getElem?_eq_none_iff, length_valueKeys]
      exact Nat.le_of_not_lt hj
    rw [hbehind, List.getElem?_eq_none (Nat.le_refl _), List.getElem?_eq_none (Nat.le_of_not_lt hj)]
    rfl

/-! ## Tables -/

/-- The places of each arena correspond one to one. -/
theorem placesMatch : l.linkedTables.PlacesMatch (renumbering l l') l'.linkedTables := by
  have hkeys := h.memberKeys_perm hattachable
  have hmessage : OneToOne (renumbering l l').message _ _ :=
    bijOn_matchPlace h.messageNames_perm h.coherent'.indexed.nodup_messages
  have hfield : OneToOne (renumbering l l').field _ _ :=
    bijOn_matchPlace hkeys (hkeys.nodup_iff.mp (h.nodup_memberKeys hattachable))
  have henum : OneToOne (renumbering l l').enum _ _ :=
    bijOn_matchPlace h.enumNames_perm h.coherent'.indexed.nodup_enums
  have hvalue : OneToOne (renumbering l l').enumValue _ _ :=
    bijOn_matchPlace h.valueKeys_perm (h.valueKeys_perm.nodup_iff.mp h.nodup_valueKeys)
  have hmethod : OneToOne (renumbering l l').method _ _ :=
    bijOn_matchPlace (h.methods_perm.symm.map (·.fullName)) h.coherent'.indexed.nodup_methods
  rw [length_valueKeys, length_valueKeys] at hvalue
  refine ⟨?_, ?_, ?_, ?_, ?_⟩
  · simpa [linkedTables] using hmessage
  · simpa [linkedTables] using hfield
  · simpa [linkedTables, inventory] using henum
  · simpa [linkedTables] using hvalue
  · simpa [linkedTables] using hmethod

theorem fieldsByNumber {i : Nat} {m : MessageHeader} (hm : l.inventory.messages[i]? = some m) :
    (l.linkedMessage i m).fieldsByNumber.Renumbered (renumbering l l').field
      (l'.linkedMessage ((renumbering l l').message i)
        (m.renumber (renumbering l l'))).fieldsByNumber := by
  have hkeys := h.nodup_memberKeys hattachable
  have hkeys' := (h.memberKeys_perm hattachable).nodup_iff.mp hkeys
  refine .of_iff (find?_fieldsByNumber hkeys _ _) (find?_fieldsByNumber hkeys' _ _) ?_ ?_
  · rintro _ k ⟨f, hf, howner, rfl⟩
    refine ⟨f.renumber (renumbering l l'), ?_, ?_, rfl⟩
    · rw [h.memberRecord hattachable, hf, Option.map_some]
    · simp [FieldRecord.renumber, howner]
  -- what is found in the new order stands at a place that comes from an old one
  · rintro number j ⟨f', hf', howner', rfl⟩
    have hj : j ∈ Set.Iio l'.linkedTables.fields.size := by
      simpa [linkedTables] using (List.getElem?_eq_some_iff.mp hf').1
    obtain ⟨k, hk, rfl⟩ := (h.placesMatch hattachable).field.surjOn hj
    rw [h.memberRecord hattachable, Option.map_eq_some_iff] at hf'
    obtain ⟨r, hr, rfl⟩ := hf'
    obtain ⟨f, hf, extensionScope, rfl⟩ := mem_memberRecords (List.mem_of_getElem? hr)
    have howner := (h.owner_renumber_iff hf (List.getElem?_eq_some_iff.mp hm).1).mp howner'
    exact ⟨k, _, hr, howner, rfl⟩

theorem fieldsByName {i : Nat} {m : MessageHeader} (hm : l.inventory.messages[i]? = some m) :
    (l.linkedMessage i m).fieldsByName.Renumbered (renumbering l l').field
      (l'.linkedMessage ((renumbering l l').message i)
        (m.renumber (renumbering l l'))).fieldsByName := by
  simp only [linkedMessage, zip_findIdxs_fields]
  rw [h.ownDecls hm, h.findIdxs_fields hattachable hm, List.zip_map_right]
  exact .ofLast _ _

/-- The record of a message, at its new place. -/
theorem messageRecord {i : Nat} {m : MessageHeader} (hm : l.inventory.messages[i]? = some m) :
    (l.linkedMessage i m).Renumbered (renumbering l l')
      (l'.linkedMessage ((renumbering l l').message i) (m.renumber (renumbering l l'))) where
  name := rfl
  fullName := rfl
  file := rfl
  parent := rfl
  fields := h.findIdxs_fields hattachable hm
  extensions := h.perm_findIdxs_attached hattachable (List.getElem?_eq_some_iff.mp hm).1
  messages := h.findIdxs_messages hm
  enums := h.findIdxs_enums hm
  fieldsByNumber := h.fieldsByNumber hattachable hm
  fieldsByName := h.fieldsByName hattachable hm
  isMapEntry := rfl

/-- Linkers that hold shuffled outlines have renumbered tables. -/
theorem renumbered : l.linkedTables.Renumbered (renumbering l l') l'.linkedTables where
  places := h.placesMatch hattachable
  messages i r hr := by
    have hr' : (l.inventory.messages.mapIdx l.linkedMessage)[i]? = some r := by
      simpa [linkedTables] using hr
    rw [List.getElem?_mapIdx, Option.map_eq_some_iff] at hr'
    obtain ⟨m, hm, rfl⟩ := hr'
    refine ⟨_, ?_, h.messageRecord hattachable hm⟩
    simp [linkedTables, h.getElem?_message hm]
  fields i := by simpa [linkedTables] using h.memberRecord hattachable i
  enums i r hr := by
    have hr' : l.enumRecords[i]? = some r := by simpa [linkedTables] using hr
    rw [getElem?_enumRecords, Option.map_eq_some_iff] at hr'
    obtain ⟨e, he, rfl⟩ := hr'
    refine ⟨_, ?_, h.enumRecord he⟩
    simp [linkedTables, getElem?_enumRecords, h.reordered.enum, he]
  enumValues j := by simpa [linkedTables] using h.enumValueRecord j
  methods i := by simpa [linkedTables] using h.methodRecord i
  messagesByName :=
    renumbered_nameIndex h.messageNames_perm h.coherent'.indexed.nodup_messages
  enumsByName := by
    rw [linkedTables, linkedTables, map_fullName_enumRecords, map_fullName_enumRecords]
    exact renumbered_nameIndex h.enumNames_perm h.coherent'.indexed.nodup_enums
  methodsByName :=
    renumbered_nameIndex (h.methods_perm.symm.map (·.fullName)) h.coherent'.indexed.nodup_methods

end Shuffled

/-- If files of different names are declared and linked without anything noted, then so they are in
every other order, and the tables are the same up to the places of their records and the order of
the extensions of each message. -/
theorem renumbered_of_perm {files files' : List SchemaFile} (h : files'.Perm files)
    (hnames : (files.map (·.name)).Nodup) {l : Linker} {t : Tables}
    (hlink : (ofFiles files).link = (l, .ok t)) (hclean : l.reports = []) :
    ∃ l' t' ρ, (ofFiles files').link = (l', .ok t') ∧ l'.reports = [] ∧ t.Renumbered ρ t' := by
  have hl := coherent_ofFiles hnames
  obtain ⟨rfl, -, hreports⟩ := hl.eq_linkedTables hlink
  obtain ⟨hdeclared, hresolved⟩ := hreports.mp hclean
  have hattachable := length_attachedTo_eq_iff.mp hresolved.attached
  have hshuffled := shuffled_ofFiles h hnames hdeclared
  have hreordered := hshuffled.reordered
  -- in the other order linking ends as well: its defaults are the same
  have hends : ∀ f ∈ (ofFiles files').members,
      ¬ (ofFiles files').Overflows ((ofFiles files').linked f) := by
    intro f' hf'
    obtain ⟨f, hf, rfl⟩ := List.mem_map.mp ((hreordered.members hl hattachable).mem_iff.mp hf')
    rw [hreordered.linked]
    exact hreordered.not_overflows (hl.not_overflows hlink f hf)
  obtain ⟨l', hlink', -, hreports'⟩ := hshuffled.coherent'.link_eq hends
  refine ⟨l', _, _, hlink', ?_, hshuffled.renumbered hattachable⟩
  exact hreports'.mpr ⟨reports_ofFiles_of_perm h hnames hdeclared,
    hreordered.resolved hl hresolved⟩

theorem renumbered_of_perm_sample :
    ∃ l t l' t' ρ, (ofFiles [Sample.shapes, Sample.drawing]).link = (l, .ok t) ∧
      (ofFiles [Sample.drawing, Sample.shapes]).link = (l', .ok t') ∧ l'.reports = [] ∧
      t.Renumbered ρ t' := by
  have hlinks : ((ofFiles [Sample.shapes, Sample.drawing]).link).2.toOption.isSome := by
    decide +kernel
  have hclean : ((ofFiles [Sample.shapes, Sample.drawing]).link).1.reports.isEmpty := by
    decide +kernel
  obtain ⟨l, t, h⟩ := exists_tables hlinks
  rw [h] at hclean
  obtain ⟨l', t', ρ, hrenumbered⟩ :=
    renumbered_of_perm (.swap Sample.shapes Sample.drawing []) (by decide +kernel) h
      (List.isEmpty_iff.mp hclean)
  exact ⟨l, t, l', t', ρ, h, hrenumbered⟩

end ProtoSchema.Linker
