import ProtoSchema.Proofs.Name.Words
import ProtoSchema.Proofs.Tables.Integrity

/-!
# Full names in linked tables

Whatever duplicates were declared: no two messages, enums and methods of linked tables have one full
name, and none has that of a service (`NamesDistinct`); the indexes of names are inverse to the full
names (`NamesIndexed`); the full name of a record is made of that of its parent or of the package of
its file (`NamesNested`); and a record is what its full name stands for in its own file
(`NamesResolve`).
-/

namespace ProtoSchema

namespace Tables

/-- The full names of all messages, enums and methods. -/
def fullNames (t : Tables) : List String :=
  t.messages.toList.map (·.fullName) ++ t.enums.toList.map (·.fullName) ++
    t.methods.toList.map (·.fullName)

/-- No two records of messages, enums and methods have one full name, and none has that of a
service. -/
structure NamesDistinct (t : Tables) : Prop where
  nodup : t.fullNames.Nodup
  service : ∀ m ∈ t.methods, m.service ∉ t.fullNames

/-- The indexes of full names find just the places of the records with these names. -/
structure NamesIndexed (t : Tables) : Prop where
  messages : ∀ n i, t.messagesByName.find? n = some i ↔
    ∃ m, t.messages[i]? = some m ∧ m.fullName = n
  enums : ∀ n i, t.enumsByName.find? n = some i ↔ ∃ e, t.enums[i]? = some e ∧ e.fullName = n
  methods : ∀ n i, t.methodsByName.find? n = some i ↔
    ∃ m, t.methods[i]? = some m ∧ m.fullName = n

/-- What is nested in a message is named after the message; what is nested in nothing is named after
the package of its file. -/
def NameNested (t : Tables) (files : List SchemaFile) (parent : Option Nat) (file : Text)
    (name fullName : String) : Prop :=
  match parent with
  | some i => ∃ m, t.messages[i]? = some m ∧ fullName = m.fullName ++ "." ++ name
  | none => ∃ f ∈ files, f.name = file ∧ fullName = Dotted.join (f.package.getD "") name

/-- All messages and enums are named after what they are nested in. -/
structure NamesNested (t : Tables) (files : List SchemaFile) : Prop where
  messages : ∀ m ∈ t.messages, t.NameNested files m.parent m.file m.name m.fullName
  enums : ∀ e ∈ t.enums, t.NameNested files e.parent e.file e.name e.fullName

/-- In the file with that name, a full name with a point before it is resolved to what is at a
place. -/
def ResolvesTo (l : Linker) (file : Text) (fullName : String) (kind : DefinitionKind)
    (place : Nat) : Prop :=
  ∃ scope ∈ l.files, scope.name = file ∧ ∀ around position, ∃ l' d,
    l.resolve around ("." ++ fullName) scope position = (l', some d) ∧
      d.kind = kind ∧ d.fullName = fullName ∧ d.place = some place

/-- All messages and enums are what their full names stand for in their own files. -/
structure NamesResolve (t : Tables) (l : Linker) : Prop where
  messages : ∀ (i : Nat) m, t.messages[i]? = some m → ResolvesTo l m.file m.fullName .message i
  enums : ∀ (i : Nat) e, t.enums[i]? = some e → ResolvesTo l e.file e.fullName .enum i

end Tables

namespace Linker

variable {l : Linker}

/-! ## Definitions and full names -/

theorem map_fullName_enumRecords (l : Linker) :
    l.enumRecords.map (·.fullName) = l.inventory.enums.map (·.fullName) := by
  apply List.ext_getElem?
  intro i
  simp [getElem?_enumRecords, inventory, Option.map_map, Function.comp_def, enumRecord]

theorem fullNames_linkedTables (l : Linker) :
    l.linkedTables.fullNames = l.inventory.messages.map (·.fullName) ++
      l.inventory.enums.map (·.fullName) ++ l.inventory.methods.map (·.fullName) := by
  have hmessages : l.inventory.messages.map (·.fullName) =
      (l.inventory.messages.mapIdx l.linkedMessage).map (·.fullName) :=
    map_eq_map_mapIdx (by intros; rfl) _
  simp only [Tables.fullNames, linkedTables]
  rw [hmessages, map_fullName_enumRecords, List.map_map]
  rfl

/-- The full names of the tables are those of the definitions of messages, enums and methods. -/
theorem Coherent.fullNames_eq (hl : l.Coherent) :
    l.linkedTables.fullNames =
      (l.inventory.definitions.filter (·.kind = .message) ++
        l.inventory.definitions.filter (·.kind = .enum) ++
        l.inventory.definitions.filter (·.kind = .method)).map (·.fullName) := by
  rw [hl.indexed.messages, hl.indexed.enums, hl.indexed.methods, List.map_append, List.map_append,
    fullNames_linkedTables]
  congr 1
  · congr 1
    · exact map_eq_map_mapIdx (by intros; rfl) _
    · exact map_eq_map_mapIdx (by intros; rfl) _
  · exact map_eq_map_mapIdx (by intros; rfl) _

theorem Coherent.namesDistinct (hl : l.Coherent) : l.linkedTables.NamesDistinct := by
  have hkinds {k k' : DefinitionKind} (hne : k ≠ k') :
      ∀ n ∈ (l.inventory.definitions.filter (·.kind = k)).map (·.fullName),
        ∀ n' ∈ (l.inventory.definitions.filter (·.kind = k')).map (·.fullName), n ≠ n' := by
    intro n hn n' hn' heq
    obtain ⟨d, hd, rfl⟩ := List.mem_map.mp hn
    obtain ⟨d', hd', rfl⟩ := List.mem_map.mp hn'
    simp only [List.mem_filter, decide_eq_true_eq] at hd hd'
    exact hne (hd.2.symm.trans ((hl.indexed.eq_of_fullName hd.1 hd'.1 heq) ▸ hd'.2))
  have hnodup (k : DefinitionKind) :
      ((l.inventory.definitions.filter (·.kind = k)).map (·.fullName)).Nodup :=
    hl.indexed.nodup.sublist (List.filter_sublist.map _)
  constructor
  · rw [hl.fullNames_eq, List.map_append, List.map_append, List.nodup_append, List.nodup_append]
    refine ⟨⟨hnodup _, hnodup _, hkinds (by decide)⟩, hnodup _, ?_⟩
    intro n hn
    rcases List.mem_append.mp hn with hn | hn
    · exact hkinds (by decide) n hn
    · exact hkinds (by decide) n hn
  · intro r hr hmem
    obtain ⟨m, hm, rfl⟩ := List.mem_map.mp (List.mem_toArray.mp hr)
    have hservice := hl.indexed.services m hm
    rw [hl.fullNames_eq] at hmem
    obtain ⟨d, hd, hname⟩ := List.mem_map.mp hmem
    simp only [List.mem_append, List.mem_filter, decide_eq_true_eq] at hd
    -- the definition of the service would be of another kind as well
    rcases hd with (⟨hd, hkind⟩ | ⟨hd, hkind⟩) | ⟨hd, hkind⟩ <;>
      · obtain rfl := hl.indexed.eq_of_fullName hd hservice hname
        exact absurd hkind (by simp)

/-! ## Indexes of names -/

/-- The index of different names finds their places. -/
theorem find?_nameIndex {names : List String} (h : names.Nodup) {n : String} {i : Nat} :
    (nameIndex names).find? n = some i ↔ names[i]? = some n := by
  rw [nameIndex, Index.find?_ofLast_eq_some]
  · rw [List.mem_zipIdx_iff_getElem?]
  · rwa [List.zipIdx_map_fst]

theorem Coherent.namesIndexed (hl : l.Coherent) : l.linkedTables.NamesIndexed := by
  refine ⟨?_, ?_, ?_⟩
  · intro n i
    simp [linkedTables, find?_nameIndex hl.indexed.nodup_messages, linkedMessage]
  · intro n i
    rw [show l.linkedTables.enumsByName = nameIndex (l.enumRecords.map (·.fullName)) from rfl,
      map_fullName_enumRecords, find?_nameIndex hl.indexed.nodup_enums]
    simp [linkedTables, getElem?_enumRecords, inventory, enumRecord]
  · intro n i
    simp [linkedTables, find?_nameIndex hl.indexed.nodup_methods, methodRecord]

/-! ## Nesting -/

/-- No message of grammatical files is without a name. -/
theorem name_ne_empty_of_mem {files : List SchemaFile} (hnames : (files.map (·.name)).Nodup)
    (hgrammar : ∀ f ∈ files, f.Grammatical) :
    ∀ m ∈ (ofFiles files).inventory.messages, m.name ≠ "" := by
  refine ofFiles_induction (· ≠ "") (P := fun l => ∀ m ∈ l.inventory.messages, m.name ≠ "")
    ?_ ?_ ?_ MapEntry.name_ne_empty ?_ hnames
  · simp [empty, inventory]
  · intro l file _ hl
    exact hl
  · intro l l' file _ hstep hl
    cases hstep with
    | note | package | service => exact hl
    | field => rwa [inventory_addField]
    | extend => rwa [inventory_declareExtend]
    | method => rwa [inventory_enterMethod]
    | enum => rwa [inventory_enterEnum]
    | message scope parent name isMapEntry extensionRanges hname =>
      rw [inventory_enterMessage]
      intro m hm
      rcases List.mem_append.mp hm with hm | hm
      · exact hl m hm
      · rw [List.mem_singleton.mp hm]
        exact hname
  · intro f hf
    exact MessageDecl.ForallIn.imp (fun m hm => hm.name) f.messages (hgrammar f hf).messages

/-- What stands in the scope of something is named after it. -/
theorem nameNested_of_encloses {files : List SchemaFile} (hl : l.Coherent)
    (hfiles : l.files = files.map SchemaFile.scope)
    (hnames : ∀ m ∈ l.inventory.messages, m.name ≠ "") {file : FileScope} {scope : String}
    {parent : Option Nat} (hfile : file ∈ l.files)
    (hscope : l.inventory.Encloses file scope parent) (name : String) :
    l.linkedTables.NameNested files parent file.name name (Dotted.join scope name) := by
  cases parent with
  | none =>
    obtain rfl : scope = file.package := hscope
    rw [hfiles] at hfile
    obtain ⟨f, hf, rfl⟩ := List.mem_map.mp hfile
    exact ⟨f, hf, rfl, rfl⟩
  | some i =>
    obtain ⟨m, hm, rfl, -⟩ := hscope
    have hmem := List.mem_of_getElem? hm
    obtain ⟨around, -, hfull⟩ := hl.nested.messages m hmem
    have hne : m.fullName ≠ "" := hfull ▸ Dotted.join_ne_empty (hnames m hmem)
    refine ⟨l.linkedMessage i m, by simp [linkedTables, hm], ?_⟩
    exact Dotted.join_of_ne_empty hne name

theorem Coherent.namesNested {files : List SchemaFile} (hl : l.Coherent)
    (hfiles : l.files = files.map SchemaFile.scope)
    (hnames : ∀ m ∈ l.inventory.messages, m.name ≠ "") :
    l.linkedTables.NamesNested files := by
  constructor
  · intro r hr
    obtain ⟨i, hi, rfl⟩ := List.mem_mapIdx.mp (List.mem_toArray.mp hr)
    have hmem := List.getElem_mem hi
    obtain ⟨scope, hscope, hfull⟩ := hl.nested.messages _ hmem
    simp only [linkedMessage, hfull]
    exact nameNested_of_encloses hl hfiles hnames (hl.unlinked.inventory.messages _ hmem) hscope _
  · intro r hr
    obtain ⟨i, hi⟩ := List.mem_iff_getElem?.mp (List.mem_toArray.mp hr)
    rw [getElem?_enumRecords, Option.map_eq_some_iff] at hi
    obtain ⟨e, he, rfl⟩ := hi
    have hmem : e ∈ l.inventory.enums := Array.mem_toList_iff.mpr (Array.mem_of_getElem? he)
    obtain ⟨scope, hscope, hfull⟩ := hl.nested.enums _ hmem
    simp only [enumRecord, hfull]
    exact nameNested_of_encloses hl hfiles hnames (hl.unlinked.inventory.enums _ hmem) hscope _

/-! ## Looking full names up -/

/-- A definition is what its full name stands for in its own file. -/
theorem Coherent.meaning?_of_mem (hl : l.Coherent) {file : FileScope} {d : Definition}
    (hd : d ∈ l.inventory.definitions) (hfile : d.file = some file.name) (scope : String) :
    l.meaning? scope ("." ++ d.fullName) file = some d := by
  have hdefinition : l.definition? d.fullName = some d :=
    (definition?_eq_some hl.indexed).mpr ⟨hd, rfl⟩
  have hseen : d.seenIn (l.visibleFrom file) := by
    simp [Definition.seenIn, hfile, visibleFrom]
  rw [meaning?, lookup?, Dotted.candidates_of_point]
  simp [hdefinition, hseen]

/-- After linking, a definition is resolved from its own file. -/
theorem Knows.resolvesTo {l' : Linker} (h : Knows l l') (hl : l.Coherent) {file : FileScope}
    (hfile : file ∈ l.files) {d : Definition} (hd : d ∈ l.inventory.definitions)
    (hsame : d.file = some file.name) {i : Nat} (hplace : d.place = some i) :
    Tables.ResolvesTo l' file.name d.fullName d.kind i := by
  refine ⟨file, h.files ▸ hfile, rfl, fun around position => ?_⟩
  obtain ⟨l'', heq, -⟩ := h.resolve hfile around ("." ++ d.fullName) position
  rw [hl.meaning?_of_mem hd hsame] at heq
  exact ⟨l'', d, heq, rfl, rfl, hplace⟩

theorem Coherent.namesResolve {l' : Linker} (hl : l.Coherent) (h : Knows l l') :
    l.linkedTables.NamesResolve l' := by
  constructor
  · intro i r hr
    have hr' : (l.inventory.messages.mapIdx l.linkedMessage)[i]? = some r := by
      simpa [linkedTables] using hr
    rw [List.getElem?_mapIdx, Option.map_eq_some_iff] at hr'
    obtain ⟨m, hm, rfl⟩ := hr'
    exact h.resolvesTo hl (hl.unlinked.inventory.messages m (List.mem_of_getElem? hm))
      (hl.indexed.messageDefinition_mem hm) rfl rfl
  · intro i r hr
    have hr' : l.enumRecords[i]? = some r := by simpa [linkedTables] using hr
    rw [getElem?_enumRecords, Option.map_eq_some_iff] at hr'
    obtain ⟨e, he, rfl⟩ := hr'
    have he' : l.inventory.enums[i]? = some e := by simpa [inventory] using he
    exact h.resolvesTo hl (hl.unlinked.inventory.enums e (List.mem_of_getElem? he'))
      (hl.indexed.enumDefinition_mem he') rfl rfl

/-- Whatever grammatical files of different names are declared, as all are that come from texts
(`SchemaFile.grammatical_of_parse`), and whatever duplicates they hold: the full names of messages,
enums and methods are all different and none is that of a service, the indexes of names are their
inverses, each name is made of that of its parent or package, and stands for its record where that
is declared. -/
theorem names_of_link {files : List SchemaFile} (hnames : (files.map (·.name)).Nodup)
    (hgrammar : ∀ f ∈ files, f.Grammatical) {l' : Linker} {t : Tables}
    (hlink : (ofFiles files).link = (l', .ok t)) :
    t.NamesDistinct ∧ t.NamesIndexed ∧ t.NamesNested files ∧ t.NamesResolve l' := by
  have hl := coherent_ofFiles hnames
  obtain ⟨rfl, hknows, -⟩ := hl.eq_linkedTables hlink
  exact ⟨hl.namesDistinct, hl.namesIndexed,
    hl.namesNested (files_ofFiles hnames) (name_ne_empty_of_mem hnames hgrammar),
    hl.namesResolve hknows⟩

theorem names_of_link_sample :
    ∃ l t, (ofFiles [Sample.shapes, Sample.drawing, Sample.again]).link = (l, .ok t) ∧
      t.NamesDistinct ∧ t.NamesIndexed ∧
      t.NamesNested [Sample.shapes, Sample.drawing, Sample.again] ∧ t.NamesResolve l := by
  have hlinks : ((ofFiles [Sample.shapes, Sample.drawing, Sample.again]).link).2.toOption.isSome :=
    by decide +kernel
  obtain ⟨l, t, h⟩ := exists_tables hlinks
  exact ⟨l, t, h, names_of_link (by decide +kernel) (by decide +kernel) h⟩

end Linker

end ProtoSchema
