import ProtoSchema.Proofs.Tables.Sources

/-!
# Numbers and names of the members of a message

A number is refused twice where it is taken: by the fields of the message while these are declared,
and by all members while extensions are attached. So the indexes of a message, in which a later
member would hide one before it, lead to every member (`numbers_of_link`).
-/

namespace ProtoSchema

/-- The members of the message at place `i`. Its indexes lead to all of them, each by its number and
the fields also by their names; the fields keep the limits of the language and of the declaration of
the message, and extensions have the numbers that this leaves to them. -/
structure Tables.Numbered (t : Tables) (files : List SchemaFile) (i : Nat) (m : MessageRecord) :
    Prop where
  present : ∀ k ∈ m.fields ++ m.extensions, (t.fields[k]?).isSome
  byNumber : ∀ number k, m.fieldsByNumber.find? number = some k ↔
    k ∈ m.fields ++ m.extensions ∧ ∃ f, t.fields[k]? = some f ∧ (f.number : Int) = number
  length_byNumber : m.fieldsByNumber.entries.length = m.fields.length + m.extensions.length
  byName : ∀ name k, m.fieldsByName.find? name = some k ↔
    k ∈ m.fields ∧ ∃ f, t.fields[k]? = some f ∧ f.name = name
  length_byName : m.fieldsByName.entries.length = m.fields.length
  declared : m.isMapEntry = false →
    ∃! d, DeclaredAs files (t.messages.toList.map MessageRecord.source) i d
  fields : ∀ k ∈ m.fields, ∀ f, t.fields[k]? = some f → IsFieldNumber f.number ∧
    ∀ d, DeclaredAs files (t.messages.toList.map MessageRecord.source) i d →
      ¬ d.ReservesNumber f.number ∧ ¬ d.ReservesName f.name
  extensions : ∀ k ∈ m.extensions, ∀ f, t.fields[k]? = some f →
    ∃ d, DeclaredAs files (t.messages.toList.map MessageRecord.source) i d ∧ d.OpensNumber f.number

namespace Linker

variable {l l' : Linker} {files : List SchemaFile}

/-! ## Members -/

/-- The members of a message keep different numbers when extensions are attached one by one. -/
theorem nodup_numbers_attachedTo {members : List FieldEntry} (es : List ExtensionEntry)
    (h : ∀ i, ((members.filter (·.owner = some i)).map (·.decl.number)).Nodup) (i : Nat) :
    (((members ++ l.attachedTo members es).filter (·.owner = some i)).map
      (·.decl.number)).Nodup := by
  induction es generalizing members with
  | nil => simpa [attachedTo] using h i
  | cons e es ih =>
    rw [attachedTo]
    cases howner : l.extensionOwner? members e with
    | none => exact ih h
    | some owner =>
      have hfree : ∀ f ∈ members, f.owner = some owner → f.decl.number ≠ e.field.decl.number := by
        simpa using (Option.filter_eq_some_iff.mp howner).2
      let f : FieldEntry := { e.field with owner := some owner }
      have hstep : ∀ i, (((members ++ [f]).filter (·.owner = some i)).map
          (·.decl.number)).Nodup := by
        intro i
        by_cases hi : owner = i
        · subst hi
          have hlast : [f].filter (·.owner = some owner) = [f] := by simp [f]
          rw [List.filter_append, hlast]
          refine nodup_map_append_singleton (h owner) ?_
          simpa [f] using hfree
        · have hnone : [f].filter (·.owner = some i) = [] := by simp [f, hi]
          rw [List.filter_append, hnone, List.append_nil]
          exact h i
      simpa [f] using ih hstep

theorem Sourced.nodup_memberNumbers (h : Sourced files l) (i : Nat) :
    ((l.memberRecords.filter (·.containingType = some i)).map
      fun f => (f.number : Int)).Nodup := by
  have hown : ∀ i, ((l.inventory.fields.filter (·.owner = some i)).map
      (·.decl.number)).Nodup := by
    intro i
    have hnumbers := h.numbers i
    rwa [ownDecls, List.map_map] at hnumbers
  have hmembers : (l.memberRecords.filter (·.containingType = some i)).map (·.number) =
      (l.members.filter (·.owner = some i)).map (·.decl.number) := by
    rw [memberRecords_eq, ← map_fst_scopedMembers, List.filter_map, List.filter_map, List.map_map,
      List.map_map]
    rfl
  have hnodup := nodup_numbers_attachedTo (l := l) l.inventory.extensions hown i
  rw [← attached, ← members, ← hmembers] at hnodup
  have hmap := hnodup.map (f := fun n : Nat => (n : Int)) fun a b hab => Int.ofNat.inj hab
  rwa [List.map_map] at hmap

theorem members_linkedMessage (l : Linker) (i : Nat) (m : MessageHeader) :
    (l.linkedMessage i m).fields ++ (l.linkedMessage i m).extensions =
      l.memberRecords.findIdxs (·.containingType = some i) := by
  rw [findIdxs_memberRecords, members, List.findIdxs_append, Nat.zero_add]
  rfl

/-- The record of an attached extension stands behind those of all fields. -/
theorem getElem?_memberRecords_attached {k : Nat} {f : FieldEntry}
    (hf : l.attached[k]? = some f) :
    l.memberRecords[l.inventory.fields.length + k]? =
      some (l.fieldRecord (l.linked f) (some f.scope)) := by
  rw [memberRecords, List.getElem?_append_right (by simp), List.length_map,
    Nat.add_sub_cancel_left, List.getElem?_map, hf, Option.map_some]

/-! ## Indexes -/

/-- The fields of a message are found by their names. -/
theorem Sourced.find?_fieldsByName (h : Sourced files l) (i : Nat) (m : MessageHeader)
    (name : String) (k : Nat) :
    (l.linkedMessage i m).fieldsByName.find? name = some k ↔
      ∃ f, l.inventory.fields[k]? = some f ∧ f.owner = some i ∧ f.decl.name = name := by
  have hnames := h.names i
  rw [ownDecls, List.map_map] at hnames
  have hfind := @Index.find?_ofLast_findIdxs _ _ _ (fun f : FieldEntry => f.decl.name)
    (fun f => decide (f.owner = some i)) l.inventory.fields hnames name k
  simp only [decide_eq_true_eq] at hfind
  rw [← hfind, linkedMessage]
  simp only [zip_findIdxs_fields, ownDecls, List.map_map]
  rfl

theorem length_filter_eq_length_findIdxs {α : Type} (p : α → Bool) (xs : List α) :
    (xs.filter p).length = (xs.findIdxs p).length := by
  simpa using (congrArg List.length (map_getElem?_findIdxs p xs)).symm

theorem Sourced.length_fieldsByNumber (h : Sourced files l) (i : Nat) (m : MessageHeader) :
    (l.linkedMessage i m).fieldsByNumber.entries.length =
      (l.linkedMessage i m).fields.length + (l.linkedMessage i m).extensions.length := by
  let records := l.memberRecords.filter (·.containingType = some i)
  have hlength : records.length =
      (l.memberRecords.findIdxs (·.containingType = some i)).length :=
    length_filter_eq_length_findIdxs _ _
  have hkeys : ((records.map fun f => (f.number : Int)).zip
      (l.memberRecords.findIdxs (·.containingType = some i))).map Prod.fst =
        records.map fun f => (f.number : Int) :=
    List.map_fst_zip (by simp [hlength])
  rw [← List.length_append, members_linkedMessage, linkedMessage, ← findIdxs_memberRecords]
  rw [Index.entries_ofLast (by rw [hkeys]; exact h.nodup_memberNumbers i), List.length_zip,
    List.length_map, hlength, Nat.min_self]

theorem Sourced.length_fieldsByName (h : Sourced files l) (i : Nat) (m : MessageHeader) :
    (l.linkedMessage i m).fieldsByName.entries.length = (l.linkedMessage i m).fields.length := by
  let own := l.inventory.fields.findIdxs (·.owner = some i)
  have hlength : (l.ownDecls i).length = own.length := by
    rw [ownDecls, List.length_map, length_filter_eq_length_findIdxs]
  have hkeys : (((l.ownDecls i).map (·.name)).zip own).map Prod.fst =
      (l.ownDecls i).map (·.name) :=
    List.map_fst_zip (by simp [hlength])
  simp only [linkedMessage, zip_findIdxs_fields]
  rw [Index.entries_ofLast (by rw [hkeys]; exact h.names i), List.length_zip, List.length_map,
    hlength, Nat.min_self]

/-! ## Limits -/

theorem sources_linkedTables (l : Linker) :
    l.linkedTables.messages.toList.map MessageRecord.source = l.sources := by
  rw [linkedTables, sources]
  exact (map_eq_map_mapIdx (by intros; rfl) _).symm

/-- A message that leaves a number to extensions has a declaration that does. -/
theorem Sourced.opensNumber (h : Sourced files l) {i n : Nat} {m : MessageHeader}
    (hm : l.inventory.messages[i]? = some m)
    (hopen : NumberRange.anyContains m.extensionRanges maxFieldNumber n = true) :
    ∃ d, DeclaredAs files l.sources i d ∧ d.OpensNumber n := by
  have hplain : m.isMapEntry = false := by
    -- a map entry has no numbers for extensions
    cases hentry : m.isMapEntry with
    | false => rfl
    | true =>
      rw [h.entries m (List.mem_of_getElem? hm) hentry] at hopen
      exact absurd hopen (by simp [NumberRange.anyContains])
  obtain ⟨d, hdeclared, hranges⟩ := h.messages i m hm hplain
  refine ⟨d, hdeclared, ?_⟩
  rw [MessageDecl.OpensNumber, hranges]
  exact NumberRange.anyContains_iff.mp hopen

/-- An extension is attached to a message only if the declaration of this leaves its number to
extensions. -/
theorem Sourced.exists_opensNumber (h : Sourced files l) {e : ExtensionEntry} {owner : Nat}
    (htarget : l.target? e = some owner) :
    ∃ d, DeclaredAs files l.sources owner d ∧ d.OpensNumber e.field.decl.number := by
  obtain ⟨d, -, hd⟩ := Option.bind_eq_some_iff.mp htarget
  split at hd
  · obtain ⟨-, hany⟩ := Option.filter_eq_some_iff.mp hd
    obtain ⟨m, hm, hopen⟩ := (Option.any_eq_true ..).mp hany
    exact h.opensNumber hm hopen
  · exact absurd hd (by simp)

theorem Sourced.numbered (h : Sourced files l) (hnames : (files.map (·.name)).Nodup) {i : Nat}
    {m : MessageHeader} (hm : l.inventory.messages[i]? = some m) :
    l.linkedTables.Numbered files i (l.linkedMessage i m) := by
  have hfields (k : Nat) : l.linkedTables.fields[k]? = l.memberRecords[k]? := by
    simp [linkedTables]
  have hplace {k : Nat} (hk : k ∈ (l.linkedMessage i m).fields) :
      ∃ f, l.inventory.fields[k]? = some f ∧ f.owner = some i := by
    obtain ⟨f, hf, howner⟩ := mem_findIdxs.mp hk
    exact ⟨f, hf, of_decide_eq_true howner⟩
  constructor
  · intro k hk
    rw [members_linkedMessage] at hk
    obtain ⟨f, hf, -⟩ := mem_findIdxs.mp hk
    rw [hfields, hf, Option.isSome_some]
  · intro number k
    rw [members_linkedMessage, mem_findIdxs]
    simp only [linkedMessage, ← findIdxs_memberRecords,
      Index.find?_ofLast_findIdxs (h.nodup_memberNumbers i), decide_eq_true_eq, hfields]
    constructor
    · rintro ⟨f, hf, howner, hnumber⟩
      exact ⟨⟨f, hf, howner⟩, f, hf, hnumber⟩
    · rintro ⟨⟨f, hf, howner⟩, g, hg, hnumber⟩
      obtain rfl := Option.some.inj (hf.symm.trans hg)
      exact ⟨f, hf, howner, hnumber⟩
  · exact h.length_fieldsByNumber i m
  · intro name k
    rw [h.find?_fieldsByName]
    constructor
    · rintro ⟨f, hf, howner, hname⟩
      refine ⟨mem_findIdxs.mpr ⟨f, hf, decide_eq_true howner⟩, l.fieldRecord (l.linked f) none, ?_,
        hname⟩
      rw [hfields, getElem?_memberRecords_field hf]
    · rintro ⟨hk, r, hr, hname⟩
      obtain ⟨f, hf, howner⟩ := hplace hk
      rw [hfields, getElem?_memberRecords_field hf, Option.some.injEq] at hr
      exact ⟨f, hf, howner, (congrArg FieldRecord.name hr).trans hname⟩
  · exact h.length_fieldsByName i m
  · intro hplain
    rw [sources_linkedTables]
    obtain ⟨d, hd, -⟩ := h.messages i m hm hplain
    exact ⟨d, hd, fun d' hd' => hd'.unique hnames hd⟩
  · intro k hk r hr
    rw [sources_linkedTables]
    obtain ⟨f, hf, howner⟩ := hplace hk
    rw [hfields, getElem?_memberRecords_field hf, Option.some.injEq] at hr
    obtain rfl := hr
    obtain ⟨hnumber, j, hj, s, hs, hfree⟩ := h.fields f (List.mem_of_getElem? hf)
    obtain rfl := Option.some.inj (hj.symm.trans howner)
    refine ⟨hnumber, fun d hd => ?_⟩
    obtain ⟨d', hd', hpermits⟩ := hfree (hd.not_mapEntry hs)
    obtain rfl := hd'.unique hnames hd
    exact hpermits
  · intro k hk r hr
    rw [sources_linkedTables]
    have hplaces : (l.linkedMessage i m).extensions =
        l.attached.findIdxs (·.owner = some i) l.inventory.fields.length := rfl
    rw [hplaces, List.findIdxs_start, List.mem_map] at hk
    obtain ⟨j, hj, rfl⟩ := hk
    obtain ⟨f, hf, howner⟩ := mem_findIdxs.mp hj
    rw [hfields, Nat.add_comm, getElem?_memberRecords_attached hf, Option.some.injEq] at hr
    obtain rfl := hr
    obtain ⟨e, -, owner, htarget, rfl⟩ := exists_of_mem_attachedTo (List.mem_of_getElem? hf)
    obtain rfl : owner = i := Option.some.inj (of_decide_eq_true howner)
    exact h.exists_opensNumber htarget

/-- Whatever files of different names are declared: when linking gives tables, each message has its
members under different numbers and its fields under different names, each within the limits that
the language and the declaration of the message set. -/
theorem numbers_of_link (hnames : (files.map (·.name)).Nodup) {t : Tables}
    (hlink : (ofFiles files).link = (l, .ok t)) {i : Nat} {m : MessageRecord}
    (hm : t.messages[i]? = some m) : t.Numbered files i m := by
  obtain ⟨rfl, -⟩ := (coherent_ofFiles hnames).eq_linkedTables hlink
  have hheader : ∃ h, (ofFiles files).inventory.messages[i]? = some h ∧
      m = (ofFiles files).linkedMessage i h := by
    simpa [linkedTables, eq_comm] using hm
  obtain ⟨h, hh, rfl⟩ := hheader
  exact (sourced_ofFiles files).numbered hnames hh

theorem numbers_of_link_sample :
    ∃ l t, (ofFiles [Sample.shapes, Sample.drawing, Sample.again]).link = (l, .ok t) ∧
      ∃ m, t.messages[0]? = some m ∧
        t.Numbered [Sample.shapes, Sample.drawing, Sample.again] 0 m := by
  have hlinks : (((ofFiles [Sample.shapes, Sample.drawing, Sample.again]).link).2.toOption.bind
      fun t => t.messages[0]?).isSome := by decide +kernel
  rcases hlink : (ofFiles [Sample.shapes, Sample.drawing, Sample.again]).link with ⟨l, _ | t⟩
  · rw [hlink] at hlinks
    exact absurd hlinks (by simp [Except.toOption])
  · rw [hlink] at hlinks
    obtain ⟨m, hm⟩ := Option.isSome_iff_exists.mp hlinks
    exact ⟨l, t, rfl, m, hm, numbers_of_link (by decide +kernel) hlink hm⟩

end Linker

end ProtoSchema
