import Mathlib.Data.List.Lemmas
import ProtoSchema.Proofs.Linker.Step
import ProtoSchema.Proofs.Places

/-!
# Coherent linkers

What holds of a linker after any files were declared to it, whatever was dropped from them:
* its definitions and its arenas speak of the same messages, enums and methods, in the same order
  (`Indexed`);
* everything that is nested stands in the scope of what it is nested in (`Nested`);
* the lists of what belongs to a message are the places that name it as their owner (`Listed`);
* all entries come from the files of the linker, and nothing is linked yet (`Unlinked`).

Each of these is kept by every step of declaring.
-/

namespace ProtoSchema

namespace Inventory

/-! ## Definitions and arenas -/

/-- The definition of a message at a place. -/
def messageDefinition (place : Nat) (h : MessageHeader) : Definition :=
  ⟨.message, h.fullName, some h.file.name, some place⟩

/-- The definition of an enum at a place. -/
def enumDefinition (place : Nat) (e : EnumEntry) : Definition :=
  ⟨.enum, e.fullName, some e.file.name, some place⟩

/-- The definition of a method at a place. -/
def methodDefinition (place : Nat) (m : MethodEntry) : Definition :=
  ⟨.method, m.fullName, some m.file.name, some place⟩

/-- No two definitions have one name, and those of each kind are, in their order, the definitions of
what stands in the arena of that kind. Packages and services have no arena. -/
structure Indexed (a : Inventory) : Prop where
  nodup : (a.definitions.map (·.fullName)).Nodup
  messages : a.definitions.filter (·.kind = .message) = a.messages.mapIdx messageDefinition
  enums : a.definitions.filter (·.kind = .enum) = a.enums.mapIdx enumDefinition
  methods : a.definitions.filter (·.kind = .method) = a.methods.mapIdx methodDefinition
  services : ∀ m ∈ a.methods, ⟨.service, m.service, some m.file.name, none⟩ ∈ a.definitions
  others : ∀ d ∈ a.definitions, d.kind = .package ∨ d.kind = .service → d.place = none

namespace Indexed

variable {a : Inventory} {d : Definition}

theorem exists_of_mem_mapIdx {α : Type} {xs : List α} {define : Nat → α → Definition}
    (h : d ∈ xs.mapIdx define) : ∃ i x, xs[i]? = some x ∧ d = define i x := by
  obtain ⟨i, hi, rfl⟩ := List.mem_mapIdx.mp h
  exact ⟨i, xs[i], List.getElem?_eq_getElem hi, rfl⟩

/-- The definition of a message leads to the message. -/
theorem message_of_mem (ha : a.Indexed) (hd : d ∈ a.definitions) (hkind : d.kind = .message) :
    ∃ i m, a.messages[i]? = some m ∧ d = messageDefinition i m :=
  exists_of_mem_mapIdx (ha.messages ▸ List.mem_filter.mpr ⟨hd, decide_eq_true hkind⟩)

/-- The definition of an enum leads to the enum. -/
theorem enum_of_mem (ha : a.Indexed) (hd : d ∈ a.definitions) (hkind : d.kind = .enum) :
    ∃ i e, a.enums[i]? = some e ∧ d = enumDefinition i e :=
  exists_of_mem_mapIdx (ha.enums ▸ List.mem_filter.mpr ⟨hd, decide_eq_true hkind⟩)

theorem mem_of_mapIdx {α : Type} {xs : List α} {define : Nat → α → Definition}
    {p : Definition → Bool} (h : a.definitions.filter p = xs.mapIdx define) {i : Nat} {x : α}
    (hx : xs[i]? = some x) : define i x ∈ a.definitions := by
  refine List.mem_of_mem_filter (p := p) ?_
  rw [h, List.mem_mapIdx]
  obtain ⟨hi, rfl⟩ := List.getElem?_eq_some_iff.mp hx
  exact ⟨i, hi, rfl⟩

/-- The definition of a method leads to the method. -/
theorem method_of_mem (ha : a.Indexed) (hd : d ∈ a.definitions) (hkind : d.kind = .method) :
    ∃ i m, a.methods[i]? = some m ∧ d = methodDefinition i m :=
  exists_of_mem_mapIdx (ha.methods ▸ List.mem_filter.mpr ⟨hd, decide_eq_true hkind⟩)

/-- Every message has its definition. -/
theorem messageDefinition_mem (ha : a.Indexed) {i : Nat} {m : MessageHeader}
    (hm : a.messages[i]? = some m) : messageDefinition i m ∈ a.definitions :=
  mem_of_mapIdx ha.messages hm

/-- Every enum has its definition. -/
theorem enumDefinition_mem (ha : a.Indexed) {i : Nat} {e : EnumEntry}
    (he : a.enums[i]? = some e) : enumDefinition i e ∈ a.definitions :=
  mem_of_mapIdx ha.enums he

theorem nodup_of_mapIdx {α : Type} {xs : List α} {define : Nat → α → Definition}
    {p : Definition → Bool} {name : α → String} (ha : a.Indexed)
    (h : a.definitions.filter p = xs.mapIdx define)
    (hname : ∀ i x, name x = (define i x).fullName) : (xs.map name).Nodup := by
  rw [map_eq_map_mapIdx hname, ← h]
  exact ha.nodup.sublist (List.filter_sublist.map _)

/-- No two messages have one full name. -/
theorem nodup_messages (ha : a.Indexed) : (a.messages.map (·.fullName)).Nodup :=
  nodup_of_mapIdx ha ha.messages (by intros; rfl)

/-- No two enums have one full name. -/
theorem nodup_enums (ha : a.Indexed) : (a.enums.map (·.fullName)).Nodup :=
  nodup_of_mapIdx ha ha.enums (by intros; rfl)

/-- No two methods have one full name. -/
theorem nodup_methods (ha : a.Indexed) : (a.methods.map (·.fullName)).Nodup :=
  nodup_of_mapIdx ha ha.methods (by intros; rfl)

/-- Definitions of one name are one definition. -/
theorem eq_of_fullName (ha : a.Indexed) {d' : Definition} (hd : d ∈ a.definitions)
    (hd' : d' ∈ a.definitions) (h : d.fullName = d'.fullName) : d = d' :=
  List.inj_on_of_nodup_map ha.nodup hd hd' h

end Indexed

/-- Everything that is nested in something stands in its scope and has its full name from there. -/
structure Nested (a : Inventory) : Prop where
  messages : ∀ m ∈ a.messages, ∃ scope, a.Encloses m.file scope m.parent ∧
    m.fullName = Dotted.join scope m.name
  enums : ∀ e ∈ a.enums, ∃ scope, a.Encloses e.file scope e.parent ∧
    e.fullName = Dotted.join scope e.name
  fields : ∀ f ∈ a.fields, f.owner.isSome ∧ a.Encloses f.file f.scope f.owner ∧
    f.fullName = Dotted.join f.scope f.decl.name
  extensions : ∀ e ∈ a.extensions, (∃ parent, a.Encloses e.field.file e.field.scope parent) ∧
    e.field.fullName = Dotted.join e.field.scope e.field.decl.name

/-- Everything comes from one of the files, no reference has been followed yet, and no extension has
an owner. -/
structure Fresh (a : Inventory) (files : List FileScope) : Prop where
  messages : ∀ m ∈ a.messages, m.file ∈ files
  fields : ∀ f ∈ a.fields, f.file ∈ files ∧ f.link = .unresolved
  extensions : ∀ e ∈ a.extensions, e.field.file ∈ files ∧ e.field.link = .unresolved ∧
    e.field.owner = none
  enums : ∀ e ∈ a.enums, e.file ∈ files
  methods : ∀ m ∈ a.methods, m.file ∈ files

theorem Fresh.mono {a : Inventory} {files files' : List FileScope} (ha : a.Fresh files)
    (h : ∀ f ∈ files, f ∈ files') : a.Fresh files' :=
  ⟨fun m hm => h _ (ha.messages m hm), fun f hf => (ha.fields f hf).imp_left (h _),
    fun e he => (ha.extensions e he).imp_left (h _), fun e he => h _ (ha.enums e he),
    fun m hm => h _ (ha.methods m hm)⟩

theorem Encloses.lt {a : Inventory} {file : FileScope} {scope : String} {i : Nat}
    (h : a.Encloses file scope (some i)) : i < a.messages.length := by
  obtain ⟨m, hm, -⟩ := h
  exact (List.getElem?_eq_some_iff.mp hm).1

namespace Nested

variable {a : Inventory} {i : Nat}

/-- The owner of a field is a message. -/
theorem owner_lt (ha : a.Nested) {f : FieldEntry} (hf : f ∈ a.fields) (h : f.owner = some i) :
    i < a.messages.length := by
  have henc := (ha.fields f hf).2.1
  rw [h] at henc
  exact henc.lt

/-- What a message is nested in is a message. -/
theorem message_parent_lt (ha : a.Nested) {m : MessageHeader} (hm : m ∈ a.messages)
    (h : m.parent = some i) : i < a.messages.length := by
  obtain ⟨scope, henc, -⟩ := ha.messages m hm
  rw [h] at henc
  exact henc.lt

/-- What an enum is nested in is a message. -/
theorem enum_parent_lt (ha : a.Nested) {e : EnumEntry} (he : e ∈ a.enums)
    (h : e.parent = some i) : i < a.messages.length := by
  obtain ⟨scope, henc, -⟩ := ha.enums e he
  rw [h] at henc
  exact henc.lt

end Nested

end Inventory

namespace Linker

variable {l l' : Linker} {file : FileScope} {named : String → Prop}

theorem definition?_eq_none {name : String} :
    l.definition? name = none ↔ name ∉ l.inventory.definitions.map (·.fullName) := by
  simp [definition?, inventory]

/-- A full name stands for the definition that has it. -/
theorem definition?_eq_some (hl : l.inventory.Indexed) {name : String} {d : Definition} :
    l.definition? name = some d ↔ d ∈ l.inventory.definitions ∧ d.fullName = name := by
  have hsound {name : String} {d : Definition} (h : l.definition? name = some d) :
      d ∈ l.inventory.definitions ∧ d.fullName = name := by
    unfold definition? at h
    exact ⟨List.mem_of_find?_eq_some h, of_decide_eq_true (List.find?_some h :)⟩
  constructor
  · exact hsound
  · rintro ⟨hd, rfl⟩
    cases h : l.definition? d.fullName with
    | none => exact absurd (List.mem_map_of_mem hd) (definition?_eq_none.mp h)
    | some d' =>
      obtain ⟨hd', hname⟩ := hsound h
      rw [hl.eq_of_fullName hd' hd hname]

/-- A new definition has a name of its own. -/
theorem nodup_append_of_free (hl : l.inventory.Indexed) {d : Definition}
    (h : l.definition? d.fullName = none) :
    ((l.inventory.definitions ++ [d]).map (·.fullName)).Nodup :=
  nodup_map_append_singleton hl.nodup (definition?_eq_none.mp h)

theorem others_append (hl : l.inventory.Indexed) {d : Definition}
    (h : d.kind = .package ∨ d.kind = .service → d.place = none) :
    ∀ d' ∈ l.inventory.definitions ++ [d], d'.kind = .package ∨ d'.kind = .service →
      d'.place = none := by
  intro d' hd'
  rcases List.mem_append.mp hd' with hd' | hd'
  · exact hl.others d' hd'
  · exact List.mem_singleton.mp hd' ▸ h

/-- Packages and services have no arena, so that entering one leaves the others in agreement. -/
theorem indexed_enter (hl : l.inventory.Indexed) {d : Definition}
    (hnew : l.definition? d.fullName = none) (hkind : d.kind = .package ∨ d.kind = .service)
    (hplace : d.place = none) : (l.enter d).inventory.Indexed := by
  rw [inventory_enter]
  refine ⟨nodup_append_of_free hl hnew, ?_, ?_, ?_, ?_, others_append hl fun _ => hplace⟩
  · rcases hkind with h | h <;> simp [hl.messages, h]
  · rcases hkind with h | h <;> simp [hl.enums, h]
  · rcases hkind with h | h <;> simp [hl.methods, h]
  · intro m hm
    exact List.mem_append_left _ (hl.services m hm)

/-- Every step keeps the definitions and the arenas in agreement. -/
theorem Step.indexed (hstep : Step named file l l') (hl : l.inventory.Indexed) :
    l'.inventory.Indexed := by
  cases hstep with
  | note => exact hl
  | package name hnew => exact indexed_enter hl hnew (.inl rfl) rfl
  | message scope parent name isMapEntry extensionRanges hname hscope hnew =>
    rw [inventory_enterMessage]
    refine ⟨nodup_append_of_free hl hnew, ?_, ?_, ?_, ?_, others_append hl (by simp)⟩
    · simp [hl.messages, Inventory.messageDefinition]
    · simp [hl.enums]
    · simp [hl.methods]
    · intro m hm
      exact List.mem_append_left _ (hl.services m hm)
  | enum scope parent e hscope hnew =>
    rw [inventory_enterEnum]
    refine ⟨nodup_append_of_free hl hnew, ?_, ?_, ?_, ?_, others_append hl (by simp)⟩
    · simp [hl.messages]
    · simp [hl.enums, Inventory.enumDefinition]
    · simp [hl.methods]
    · intro m hm
      exact List.mem_append_left _ (hl.services m hm)
  | field scope owner f hscope =>
    rw [inventory_addField]
    exact ⟨hl.nodup, hl.messages, hl.enums, hl.methods, hl.services, hl.others⟩
  | extend scope parent e hscope =>
    rw [inventory_declareExtend]
    exact ⟨hl.nodup, hl.messages, hl.enums, hl.methods, hl.services, hl.others⟩
  | service name hnew => exact indexed_enter hl hnew (.inr rfl) rfl
  | method service m hservice hnew =>
    rw [inventory_enterMethod]
    refine ⟨nodup_append_of_free hl hnew, ?_, ?_, ?_, ?_, others_append hl (by simp)⟩
    · simp [hl.messages]
    · simp [hl.enums]
    · simp [hl.methods, Inventory.methodDefinition]
    · intro m' hm
      rcases List.mem_append.mp hm with hm | hm
      · exact List.mem_append_left _ (hl.services m' hm)
      · rw [List.mem_singleton] at hm
        rw [hm]
        exact List.mem_append_left _ hservice

/-! ## Scopes -/

/-- What has been nested stays nested: a step leaves the messages around it where they are. -/
theorem Step.nested (hstep : Step named file l l') (hl : l.inventory.Nested) :
    l'.inventory.Nested := by
  -- everything that is there already is enclosed as before; each case adds what it enters
  have hold : ∀ {file' : FileScope} {scope : String} {parent : Option Nat},
      l.inventory.Encloses file' scope parent → l'.inventory.Encloses file' scope parent :=
    fun h => hstep.encloses h
  have hmessages : ∀ m ∈ l.inventory.messages, ∃ scope,
      l'.inventory.Encloses m.file scope m.parent ∧ m.fullName = Dotted.join scope m.name :=
    fun m hm => (hl.messages m hm).imp fun scope h => ⟨hold h.1, h.2⟩
  have henums : ∀ e ∈ l.inventory.enums, ∃ scope,
      l'.inventory.Encloses e.file scope e.parent ∧ e.fullName = Dotted.join scope e.name :=
    fun e he => (hl.enums e he).imp fun scope h => ⟨hold h.1, h.2⟩
  have hfields : ∀ f ∈ l.inventory.fields, f.owner.isSome ∧
      l'.inventory.Encloses f.file f.scope f.owner ∧
      f.fullName = Dotted.join f.scope f.decl.name :=
    fun f hf => (hl.fields f hf).imp_right fun h => h.imp_left hold
  have hextensions : ∀ e ∈ l.inventory.extensions,
      (∃ parent, l'.inventory.Encloses e.field.file e.field.scope parent) ∧
      e.field.fullName = Dotted.join e.field.scope e.field.decl.name :=
    fun e he => (hl.extensions e he).imp_left fun h => h.imp fun parent h => hold h
  cases hstep with
  | note | package | service | method => exact ⟨hmessages, henums, hfields, hextensions⟩
  | message scope parent name isMapEntry extensionRanges hname hscope hnew =>
    have hinside := hold hscope
    simp only [inventory_enterMessage] at hinside hmessages henums hfields hextensions ⊢
    refine ⟨fun m hm => ?_, henums, hfields, hextensions⟩
    rcases List.mem_append.mp hm with hm | hm
    · exact hmessages m hm
    · rw [List.mem_singleton.mp hm]
      exact ⟨scope, hinside, rfl⟩
  | enum scope parent e hscope hnew =>
    have hinside := hold hscope
    simp only [inventory_enterEnum] at hinside hmessages henums hfields hextensions ⊢
    refine ⟨hmessages, fun e' he => ?_, hfields, hextensions⟩
    rcases List.mem_append.mp he with he | he
    · exact henums e' he
    · rw [List.mem_singleton.mp he]
      exact ⟨scope, hinside, rfl⟩
  | field scope owner f hscope =>
    have hinside := hold hscope
    simp only [inventory_addField] at hinside hmessages henums hfields hextensions ⊢
    refine ⟨hmessages, henums, fun f' hf => ?_, hextensions⟩
    rcases List.mem_append.mp hf with hf | hf
    · exact hfields f' hf
    · rw [List.mem_singleton.mp hf]
      exact ⟨rfl, hinside, rfl⟩
  | extend scope parent e hscope =>
    have hinside := hold hscope
    simp only [inventory_declareExtend] at hinside hmessages henums hfields hextensions ⊢
    refine ⟨hmessages, henums, hfields, fun e' he => ?_⟩
    rcases List.mem_append.mp he with he | he
    · exact hextensions e' he
    · obtain ⟨f, -, rfl⟩ := List.mem_map.mp he
      exact ⟨⟨parent, hinside⟩, rfl⟩

/-! ## Lists of places -/

/-- The lists inside the message at place `i` are the places of the entries that name it as their
owner, in increasing order. The extensions `attached` to messages stand behind all fields. -/
structure ListedAt (a : Inventory) (attached : List FieldEntry) (i : Nat) (m : MessageEntry) :
    Prop where
  fields : m.fields = a.fields.findIdxs (·.owner = some i)
  messages : m.messages = a.messages.findIdxs (·.parent = some i)
  enums : m.enums = a.enums.findIdxs (·.parent = some i)
  extensions : m.extensions = attached.findIdxs (·.owner = some i) a.fields.length

/-- The lists inside all messages are the places of what names them as owner, while no extension is
attached yet. -/
def Listed (l : Linker) : Prop := ∀ i m, l.messages[i]? = some m → ListedAt l.inventory [] i m

theorem getElem?_modifyParent (l : Linker) (parent : Option Nat)
    (f : MessageEntry → MessageEntry) (i : Nat) :
    (l.modifyParent parent f).messages[i]? =
      if parent = some i then (l.messages[i]?).map f else l.messages[i]? := by
  cases parent with
  | none => simp [modifyParent]
  | some place => simp [modifyParent, modifyMessage, Array.getElem?_modify]

/-- Nothing is nested in a place where no message stands yet. -/
theorem listedAt_of_new (hl : l.inventory.Nested) {m : MessageEntry} (hfields : m.fields = [])
    (hmessages : m.messages = []) (henums : m.enums = []) (hextensions : m.extensions = []) :
    ListedAt l.inventory [] l.messages.size m := by
  rw [← length_messages_inventory]
  refine ⟨?_, ?_, ?_, hextensions⟩
  · rw [hfields, eq_comm, List.findIdxs_eq_nil_iff]
    intro f hf
    simpa using fun h => Nat.lt_irrefl _ (hl.owner_lt hf h)
  · rw [hmessages, eq_comm, List.findIdxs_eq_nil_iff]
    intro m' hm'
    simpa using fun h => Nat.lt_irrefl _ (hl.message_parent_lt hm' h)
  · rw [henums, eq_comm, List.findIdxs_eq_nil_iff]
    intro e he
    simpa using fun h => Nat.lt_irrefl _ (hl.enum_parent_lt he h)

/-- Every step appends a new entry to the list of its owner, and to no other list. -/
theorem Step.listed (hstep : Step named file l l') (hnested : l.inventory.Nested) (hl : l.Listed) :
    l'.Listed := by
  intro i m hm
  cases hstep with
  | note | package | service | method | extend =>
    obtain ⟨hfields, hmessages, henums, hextensions⟩ := hl i m hm
    exact ⟨hfields, hmessages, henums, hextensions⟩
  | message scope parent name isMapEntry extensionRanges hname hscope hnew =>
    rw [enterMessage, addMessage, getElem?_modifyParent] at hm
    rw [inventory_enterMessage]
    -- the new message is not nested in itself: what encloses it was there before
    have hparent : parent ≠ some l.messages.size := by
      rintro rfl
      exact absurd hscope.lt (by simp)
    simp only [enter, Array.getElem?_push] at hm
    by_cases hnewest : i = l.messages.size
    · subst hnewest
      rw [if_neg hparent, if_pos rfl, Option.some.injEq] at hm
      have hnone := listedAt_of_new hnested (m := m) (hm ▸ rfl) (hm ▸ rfl) (hm ▸ rfl) (hm ▸ rfl)
      refine ⟨hnone.fields, ?_, hnone.enums, hnone.extensions⟩
      simpa [List.findIdxs_append, hparent] using hnone.messages
    · rw [if_neg hnewest] at hm
      by_cases hi : parent = some i
      · rw [if_pos hi, Option.map_eq_some_iff] at hm
        obtain ⟨old, hold, rfl⟩ := hm
        obtain ⟨hfields, hmessages, henums, hextensions⟩ := hl i old hold
        refine ⟨hfields, ?_, henums, hextensions⟩
        simp [hmessages, hi, List.findIdxs_append]
      · rw [if_neg hi] at hm
        obtain ⟨hfields, hmessages, henums, hextensions⟩ := hl i m hm
        refine ⟨hfields, ?_, henums, hextensions⟩
        simp [hmessages, hi, List.findIdxs_append]
  | enum scope parent e hscope hnew =>
    rw [enterEnum, getElem?_modifyParent] at hm
    rw [inventory_enterEnum]
    by_cases hi : parent = some i
    · rw [if_pos hi, Option.map_eq_some_iff] at hm
      obtain ⟨old, hold, rfl⟩ := hm
      obtain ⟨hfields, hmessages, henums, hextensions⟩ := hl i old hold
      refine ⟨hfields, hmessages, ?_, hextensions⟩
      simp [henums, hi, List.findIdxs_append]
    · rw [if_neg hi] at hm
      obtain ⟨hfields, hmessages, henums, hextensions⟩ := hl i m hm
      refine ⟨hfields, hmessages, ?_, hextensions⟩
      simp [henums, hi, List.findIdxs_append]
  | field scope owner f hscope =>
    rw [addField, modifyMessage, Array.getElem?_modify] at hm
    rw [inventory_addField]
    by_cases hi : owner = i
    · rw [if_pos hi, Option.map_eq_some_iff] at hm
      obtain ⟨old, hold, rfl⟩ := hm
      obtain ⟨hfields, hmessages, henums, hextensions⟩ := hl i old hold
      refine ⟨?_, hmessages, henums, hextensions⟩
      simp [hfields, hi, List.findIdxs_append]
    · rw [if_neg hi] at hm
      obtain ⟨hfields, hmessages, henums, hextensions⟩ := hl i m hm
      refine ⟨?_, hmessages, henums, hextensions⟩
      simp [hfields, hi, List.findIdxs_append]

/-! ## Files -/

/-- No two files have one name, everything is fresh, and no name has been looked up yet. -/
structure Unlinked (l : Linker) : Prop where
  files : (l.files.map (·.name)).Nodup
  inventory : l.inventory.Fresh l.files
  visible : l.visible = []

theorem Unlinked.addFile (hl : l.Unlinked) (hnew : l.file? file.name = none) :
    Unlinked { l with files := l.files ++ [file] } := by
  exact ⟨nodup_map_append_singleton hl.files (file?_eq_none.mp hnew),
    hl.inventory.mono fun f hf => List.mem_append_left _ hf, hl.visible⟩

/-- What a step enters comes from the file that is declared, and is not linked yet. -/
theorem Step.fresh (hstep : Step named file l l') {files : List FileScope} (hfile : file ∈ files)
    (hl : l.inventory.Fresh files) : l'.inventory.Fresh files := by
  obtain ⟨hmessages, hfields, hextensions, henums, hmethods⟩ := hl
  cases hstep with
  | note | package | service => exact ⟨hmessages, hfields, hextensions, henums, hmethods⟩
  | message =>
    rw [inventory_enterMessage]
    exact ⟨by simpa [or_imp, forall_and] using ⟨hmessages, hfile⟩, hfields, hextensions, henums,
      hmethods⟩
  | enum =>
    rw [inventory_enterEnum]
    exact ⟨hmessages, hfields, hextensions, by simpa [or_imp, forall_and] using ⟨henums, hfile⟩,
      hmethods⟩
  | field =>
    rw [inventory_addField]
    refine ⟨hmessages, fun f hf => ?_, hextensions, henums, hmethods⟩
    rcases List.mem_append.mp hf with hf | hf
    · exact hfields f hf
    · rw [List.mem_singleton.mp hf]
      exact ⟨hfile, rfl⟩
  | extend =>
    rw [inventory_declareExtend]
    refine ⟨hmessages, hfields, fun e he => ?_, henums, hmethods⟩
    rcases List.mem_append.mp he with he | he
    · exact hextensions e he
    · obtain ⟨f, -, rfl⟩ := List.mem_map.mp he
      exact ⟨hfile, rfl, rfl⟩
  | method =>
    rw [inventory_enterMethod]
    exact ⟨hmessages, hfields, hextensions, henums,
      by simpa [or_imp, forall_and] using ⟨hmethods, hfile⟩⟩

theorem Step.visible_eq (hstep : Step named file l l') : l'.visible = l.visible := by
  cases hstep with
  | enum _ parent => cases parent <;> rfl
  | message _ parent => cases parent <;> rfl
  | note | field | extend | package | service | method => rfl

/-! ## Declared linkers -/

/-- All of the above. -/
structure Coherent (l : Linker) : Prop where
  indexed : l.inventory.Indexed
  nested : l.inventory.Nested
  listed : l.Listed
  unlinked : l.Unlinked

/-- What has been noted is of no account. -/
theorem Coherent.withReports (hl : l.Coherent) (reports : List Report) :
    Coherent { l with reports } :=
  ⟨hl.indexed, hl.nested, hl.listed, hl.unlinked.files, hl.unlinked.inventory, hl.unlinked.visible⟩

theorem Step.coherent (hstep : Step named file l l') (hfile : file ∈ l.files) (hl : l.Coherent) :
    l'.Coherent := by
  refine ⟨hstep.indexed hl.indexed, hstep.nested hl.nested, hstep.listed hl.nested hl.listed, ?_⟩
  have hfiles := hstep.files_eq
  refine ⟨hfiles ▸ hl.unlinked.files, ?_, hstep.visible_eq.trans hl.unlinked.visible⟩
  rw [hfiles]
  exact hstep.fresh hfile hl.unlinked.inventory

theorem coherent_empty : empty.Coherent := by
  refine ⟨?_, ?_, ?_, ?_⟩
  · constructor <;> simp [empty, inventory]
  · constructor <;> simp [empty, inventory]
  · intro i m hm
    simp [empty] at hm
  · refine ⟨by simp [empty], ?_, rfl⟩
    constructor <;> simp [empty, inventory]

/-- A linker stays coherent when a file of a new name is declared. -/
theorem Coherent.declare (hl : l.Coherent) {f : SchemaFile}
    (hnew : l.file? f.scope.name = none) : (l.declare f).Coherent := by
  refine declare_induction (fun _ => True) ?_ ?_ (fun _ => trivial)
    (MessageDecl.forallIn_of_all (fun _ => trivial) f.messages) hnew hl
  · intro l file hnew hl
    exact ⟨hl.indexed, hl.nested, hl.listed, hl.unlinked.addFile hnew⟩
  · intro l l' file hfile hstep hl
    exact hstep.coherent hfile hl

/-- A linker is coherent after any files of different names were declared to it. -/
theorem coherent_ofFiles {files : List SchemaFile} (h : (files.map (·.name)).Nodup) :
    (ofFiles files).Coherent := by
  induction files using List.reverseRecOn with
  | nil => exact coherent_empty
  | append_singleton files f ih =>
    have hprev := nodup_of_append_singleton h
    rw [ofFiles_append_singleton]
    exact (ih hprev).declare (file?_eq_none_of_nodup (files_ofFiles hprev) h)

end Linker

end ProtoSchema
