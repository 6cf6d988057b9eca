import ProtoSchema.Proofs.Linker.Forgetting
import ProtoSchema.Proofs.Linker.Passes
import ProtoSchema.Proofs.Tables.Defaults
import ProtoSchema.Proofs.Tables.Sources

/-!
# The stages of linking

A linker that gives tables has gone through all stages of linking: it has linked its fields, attached
some of its extensions and linked these, linked its methods, and then made records of what is there
(`exists_stages_of_link`). So each record of a message is made from the message of its place, and
whatever this lists has a record (`Stages.exists_message`).

The stages are those of any linker, whatever it has linked before.
-/

namespace ProtoSchema

/-- What can be made of all items of a list is made of each. -/
theorem forall₂_of_mapM {α β ε : Type} {f : α → Except ε β} {xs : List α} {ys : List β}
    (h : xs.mapM f = .ok ys) : xs.Forall₂ (fun x y => f x = .ok y) ys := by
  induction xs generalizing ys with
  | nil =>
    obtain rfl := Except.ok.inj h
    exact .nil
  | cons x xs ih =>
    rw [List.mapM_cons] at h
    rcases hx : f x with e | y
    · rw [hx] at h
      cases h
    · rcases hxs : xs.mapM f with e | ys'
      · simp only [hx, hxs, bind, Except.bind] at h
        cases h
      · simp only [hx, hxs, bind, Except.bind, pure, Except.pure, Except.ok.injEq] at h
        subst h
        exact .cons hx (ih hxs)

/-- The items at one place of two lists are related as all items are. -/
theorem exists_getElem?_of_forall₂ {α β : Type} {R : α → β → Prop} {xs : List α} {ys : List β}
    (h : xs.Forall₂ R ys) {i : Nat} {y : β} (hy : ys[i]? = some y) :
    ∃ x, xs[i]? = some x ∧ R x y := by
  obtain ⟨hi, rfl⟩ := List.getElem?_eq_some_iff.mp hy
  have hi' : i < xs.length := h.length_eq ▸ hi
  exact ⟨xs[i], List.getElem?_eq_getElem hi', h.get hi' hi⟩

/-- The record of a message repeats what the message has become, and all members that this lists have
records. -/
structure MessageEntry.RecordedAs (m : MessageEntry) (records : Array FieldRecord)
    (r : MessageRecord) : Prop where
  name : r.name = m.name
  fullName : r.fullName = m.fullName
  file : r.file = m.file.name
  parent : r.parent = m.parent
  isMapEntry : r.isMapEntry = m.isMapEntry
  fields : r.fields = m.fields
  extensions : r.extensions = m.extensions
  messages : r.messages = m.messages
  enums : r.enums = m.enums
  present : ∀ k ∈ m.fields ++ m.extensions, k < records.size

namespace Linker

variable {l l' : Linker} {t : Tables}

theorem recordedAs_of_messageRecord {records : Array FieldRecord} {m : MessageEntry}
    {r : MessageRecord} (h : messageRecord records m = .ok r) : m.RecordedAs records r := by
  unfold messageRecord at h
  simp only at h
  split at h
  · cases h
  · next found hfound =>
    obtain rfl := Except.ok.inj h
    refine ⟨rfl, rfl, rfl, rfl, rfl, rfl, rfl, rfl, rfl, fun k hk => ?_⟩
    obtain ⟨f, -, hf⟩ := exists_mem_of_mapM hfound hk
    exact (Array.getElem?_eq_some_iff.mp hf).1

/-- Linking a method changes nothing but what is remembered and noted. -/
theorem resolveMethodEnd_rest (l : Linker) (m : MethodEntry) (type : String) :
    ∃ visible reports, (l.resolveMethodEnd m type).1 = { l with visible, reports } := by
  obtain ⟨visible, reports, hrest⟩ := l.resolve_rest m.service type m.file (some m.decl.position)
  unfold resolveMethodEnd
  rcases heq : l.resolve m.service type m.file (some m.decl.position) with ⟨l₁, _ | d⟩ <;>
    simp only [heq] at hrest ⊢
  · exact ⟨visible, reports, hrest⟩
  · split_ifs
    · exact ⟨visible, reports, hrest⟩
    · exact ⟨visible, _, by rw [hrest]; rfl⟩

theorem linkMethods_rest (l : Linker) (ms : List MethodEntry) :
    ∃ visible reports, (l.linkMethods ms).1 = { l with visible, reports } := by
  induction ms generalizing l with
  | nil => exact ⟨l.visible, l.reports, rfl⟩
  | cons m ms ih =>
    obtain ⟨visible₁, reports₁, h₁⟩ := l.resolveMethodEnd_rest m m.decl.inputType
    obtain ⟨visible₂, reports₂, h₂⟩ :=
      (l.resolveMethodEnd m m.decl.inputType).1.resolveMethodEnd_rest m m.decl.outputType
    obtain ⟨visible₃, reports₃, h₃⟩ := ih _
    rw [linkMethods]
    exact ⟨visible₃, reports₃, h₃.trans (by rw [h₂, h₁])⟩

/-- What linking goes through when it ends with tables: `l₁` is the linker that has attached the
extensions at the places `attached`. Behind the linking of these, the linker is the one at the end
but for what is remembered and noted. -/
structure Stages (l l' : Linker) (t : Tables) (attached : List Nat) (l₁ : Linker) : Prop where
  attach : l.linkFields.attachExtensions [] (List.range l.linkFields.extensions.size) =
    (l₁, attached)
  rest : ∃ visible reports, l' = { l₁.linkExtensions attached with visible, reports }
  fields : t.fields = ((l'.fields.toList.map fun f => l'.fieldRecord f none) ++
    (l'.extensionsAt attached).map fun f => l'.fieldRecord f (some f.scope)).toArray
  messages : l'.messages.toList.Forall₂ (·.RecordedAs t.fields) t.messages.toList

theorem forall₂_of_tables {fields : List FieldRecord} {methods : List MethodRecord}
    (h : l.tables fields methods = .ok t) :
    l.messages.toList.Forall₂ (·.RecordedAs t.fields) t.messages.toList := by
  rw [fields_of_tables h]
  unfold tables at h
  rcases hmessages : l.messages.toList.mapM (messageRecord fields.toArray) with e | rs
  · rw [hmessages] at h
    cases h
  · rw [hmessages] at h
    obtain rfl := Except.ok.inj h
    exact (forall₂_of_mapM hmessages).imp fun _ _ => recordedAs_of_messageRecord

/-- Linking only gives tables behind its last stage. -/
theorem exists_stages_of_link (h : l.link = (l', .ok t)) : ∃ attached l₁, Stages l l' t attached l₁ := by
  unfold link at h
  simp only at h
  rcases hattach : l.linkFields.attachExtensions [] (List.range l.linkFields.extensions.size) with
    ⟨l₁, attached⟩
  simp only [hattach] at h
  obtain ⟨visible, reports, hmethods⟩ := (l₁.linkExtensions attached).linkMethods_rest
    (l₁.linkExtensions attached).methods.toList
  rcases heq : (l₁.linkExtensions attached).linkMethods
    (l₁.linkExtensions attached).methods.toList with ⟨l₂, methods⟩
  simp only [heq] at h hmethods
  -- nothing overflows, since records were made
  have hends : ∀ f ∈ (l₂.fields.toList.map fun f => (f, none)) ++
      (l₂.extensionsAt attached).map fun f => (f, some f.scope), ¬ l₂.Overflows f.1 := by
    intro f hf hover
    obtain ⟨l₃, e, hfails⟩ := fieldRecords_of_overflows ⟨f, hf, hover⟩
    rw [hfails] at h
    cases (Prod.mk.inj h).2
  obtain ⟨reports', hrecords, -⟩ := fieldRecords_eq _ hends
  rw [hrecords] at h
  obtain ⟨rfl, htables⟩ := Prod.mk.inj h
  refine ⟨attached, l₁, hattach, ⟨visible, reports', by rw [hmethods]⟩, ?_,
    forall₂_of_tables htables⟩
  rw [fields_of_tables htables, List.map_append, List.map_map, List.map_map]
  rfl

namespace Stages

variable {attached : List Nat} {l₁ : Linker}

/-- Each record of a message is made from the message at its place. -/
theorem exists_message (h : Stages l l' t attached l₁) {i : Nat} {r : MessageRecord}
    (hr : t.messages[i]? = some r) :
    ∃ m, l'.messages[i]? = some m ∧ m.RecordedAs t.fields r := by
  have hr' : t.messages.toList[i]? = some r := by simpa using hr
  obtain ⟨m, hm, hrecorded⟩ := exists_getElem?_of_forall₂ h.messages hr'
  exact ⟨m, by simpa using hm, hrecorded⟩

/-- The fields of messages have the first records. -/
theorem getElem?_field (h : Stages l l' t attached l₁) {k : Nat} {f : FieldEntry}
    (hf : l'.fields[k]? = some f) : t.fields[k]? = some (l'.fieldRecord f none) := by
  have hlt : k < l'.fields.size := (Array.getElem?_eq_some_iff.mp hf).1
  rw [h.fields, List.getElem?_toArray, List.getElem?_append_left (by simpa using hlt),
    List.getElem?_map, Array.getElem?_toList, hf, Option.map_some]

/-- The attached extensions have the records behind these. -/
theorem getElem?_extension (h : Stages l l' t attached l₁)
    (hpresent : ∀ p ∈ attached, p < l'.extensions.size) {j p : Nat} {e : ExtensionEntry}
    (hj : attached[j]? = some p) (he : l'.extensions[p]? = some e) :
    t.fields[l'.fields.size + j]? = some (l'.fieldRecord e.field (some e.field.scope)) := by
  have hat : l'.extensionsAt attached = attached.map fun p =>
      ((l'.extensions[p]?).map (·.field)).getD e.field := by
    unfold extensionsAt
    rw [List.filterMap_eq_map_iff_forall_eq_some]
    intro p hp
    simp [hpresent p hp]
  rw [h.fields, List.getElem?_toArray, List.getElem?_append_right (by simp)]
  simp [hat, hj, he]

/-- Each message has a record. -/
theorem exists_record (h : Stages l l' t attached l₁) {i : Nat} {m : MessageEntry}
    (hm : l'.messages[i]? = some m) :
    ∃ r, t.messages[i]? = some r ∧ m.RecordedAs t.fields r := by
  have hm' : l'.messages.toList[i]? = some m := by simpa using hm
  obtain ⟨r, hr, hrecorded⟩ := exists_getElem?_of_forall₂ h.messages.flip hm'
  exact ⟨r, by simpa using hr, hrecorded⟩

/-- The records of messages have the sources of the messages. -/
theorem sources (h : Stages l l' t attached l₁) :
    t.messages.toList.map MessageRecord.source = l'.sources := by
  have hsame : l'.sources = l'.messages.toList.map fun m => m.header.source := by
    simp [Linker.sources, inventory]
  have hequal : ((l'.messages.toList.map fun m => m.header.source).Forall₂ (· = ·)
      (t.messages.toList.map MessageRecord.source)) := by
    rw [List.forall₂_map_left_iff, List.forall₂_map_right_iff]
    refine h.messages.imp fun m r hrecorded => ?_
    simp [MessageHeader.source, MessageRecord.source, MessageEntry.header, hrecorded.name,
      hrecorded.file, hrecorded.parent, hrecorded.isMapEntry]
  rw [List.forall₂_eq_eq_eq] at hequal
  rw [hsame, hequal]

end Stages

/-! ## What linking leaves alone -/

/-- The messages of alike linkers have one header at each place. -/
theorem Alike.inventory_messages {m : Linker} (h : Alike l m) :
    l.inventory.messages = m.inventory.messages := by
  have hheaders (l : Linker) : l.inventory.messages =
      (l.messages.map MessageEntry.forget).toList.map MessageEntry.header := by
    simp only [inventory, Array.toList_map, List.map_map]
    rfl
  rw [hheaders, h.messages, ← hheaders]

/-- Linking leaves a linker with the declarations that it had. -/
theorem alike_of_link (h : l.link = (l', .ok t)) : l'.Alike l := by
  have halike := l.alike_link
  rwa [h] at halike

/-! ## Declared linkers -/

variable {files : List SchemaFile}

/-- Whatever files are declared, what is nested stands in the scope around it. -/
theorem nested_ofFiles (files : List SchemaFile) : (ofFiles files).inventory.Nested :=
  ofFiles_steps (P := fun l => l.inventory.Nested) coherent_empty.nested (fun _ _ hl => hl)
    (fun _ _ _ hstep hl => hstep.nested hl) files

/-- Whatever files are declared, messages list what belongs to them. -/
theorem listed_ofFiles (files : List SchemaFile) : (ofFiles files).Listed := by
  have hboth : (ofFiles files).inventory.Nested ∧ (ofFiles files).Listed := by
    refine ofFiles_steps (P := fun l => l.inventory.Nested ∧ l.Listed)
      ⟨coherent_empty.nested, coherent_empty.listed⟩ (fun l file hl => hl) ?_ files
    rintro l l' file hstep ⟨hnested, hlisted⟩
    exact ⟨hstep.nested hnested, hstep.listed hnested hlisted⟩
  exact hboth.2

end Linker

end ProtoSchema
