import ProtoSchema.Proofs.Linker.Clean
import ProtoSchema.Proofs.Linker.Holdings
import ProtoSchema.Proofs.Linker.Reordering
import ProtoSchema.Proofs.Name.Words
import ProtoSchema.Proofs.Places

/-!
# Files in another order

Files that are declared in another order have the same outline in another order, in which nothing of
one file has moved past anything else of it (`Outline.Shuffled`). So nothing is noted in the one
order if nothing is noted in the other (`reports_ofFiles_of_perm`). Where no rule is broken, the
fields of a message have different numbers, and the values of an enum different names.

Linkers that hold shuffled outlines are reordered (`Shuffled.reordered`), where entries are matched
by their keys: messages, enums and methods by full name, fields by number in their message, and
values by name in their enum (`renumbering`).
-/

namespace ProtoSchema

/-! ## Numbers and names in tidy files -/

/-- A field that breaks no rule has a number of its own. -/
theorem FieldRules.number_notMem {rules : FieldRules} {f : FieldDecl}
    (h : rules.problem? f = none) : f.number ∉ rules.taken.map (·.1) :=
  (problem?_eq_none_iff.mp h).2.2.2.2.2

theorem FieldRules.nodup_of_acceptsAll {rules : FieldRules} {fs : List FieldDecl}
    (h : rules.AcceptsAll fs) (htaken : (rules.taken.map (·.1)).Nodup) :
    (rules.taken.map (·.1) ++ fs.map (·.number)).Nodup := by
  induction fs generalizing rules with
  | nil => simpa using htaken
  | cons f fs ih =>
    obtain ⟨hproblem, hrest⟩ := h
    have htaken' : ((rules.take f).taken.map (·.1)).Nodup :=
      nodup_map_append_singleton htaken (number_notMem hproblem)
    simpa [FieldRules.take] using ih hrest htaken'

/-- A value that breaks no rule has a name of its own. -/
theorem EnumDecl.name_notMem {e : EnumDecl} {fullName : String} {accepted : List EnumValueDecl}
    {v : EnumValueDecl} (h : e.problem? fullName accepted v = none) :
    v.name ∉ accepted.map (·.name) :=
  (problem?_eq_none_iff.mp h).1

theorem EnumDecl.nodup_of_acceptsAll {e : EnumDecl} {fullName : String}
    {accepted values : List EnumValueDecl} (h : e.AcceptsAll fullName accepted values)
    (haccepted : (accepted.map (·.name)).Nodup) :
    ((accepted ++ values).map (·.name)).Nodup := by
  induction values generalizing accepted with
  | nil => simpa using haccepted
  | cons v vs ih =>
    obtain ⟨hproblem, hrest⟩ := h
    have haccepted' := nodup_map_append_singleton haccepted (name_notMem hproblem)
    simpa using ih hrest haccepted'

/-- The fields have different numbers. -/
abbrev NumbersApart (fields : List FieldDecl) : Prop := (fields.map (·.number)).Nodup

/-- The values have different names. -/
abbrev ValuesApart (values : List EnumValueDecl) : Prop := (values.map (·.name)).Nodup

theorem EnumDecl.Tidy.valuesApart {e : EnumDecl} {scope : String} (h : e.Tidy scope) :
    ValuesApart e.values :=
  EnumDecl.nodup_of_acceptsAll h.1 .nil

mutual

theorem MessageDecl.Tidy.every :
    (m : MessageDecl) → {scope : String} → m.Tidy scope →
      m.Forall (MessageDecl.Every NumbersApart ValuesApart fun _ => True)
  | ⟨_, _, messages, _, _, _, _, _, _, _, _⟩, scope, h => by
    rw [MessageDecl.Tidy] at h
    obtain ⟨henums, hmessages, hfields⟩ := h
    rw [MessageDecl.Forall]
    refine ⟨⟨?_, fun e he => (henums e he).valuesApart, by simp⟩,
      MessageDecl.TidyAll.every messages hmessages⟩
    simpa using FieldRules.nodup_of_acceptsAll hfields .nil

theorem MessageDecl.TidyAll.every :
    (ms : List MessageDecl) → {scope : String} → MessageDecl.TidyAll scope ms →
      MessageDecl.ForallIn (MessageDecl.Every NumbersApart ValuesApart fun _ => True) ms
  | [], _, _ => by
    rw [MessageDecl.ForallIn]
    trivial
  | m :: ms, scope, h => by
    rw [MessageDecl.TidyAll] at h
    rw [MessageDecl.ForallIn]
    exact ⟨MessageDecl.Tidy.every m h.1, MessageDecl.TidyAll.every ms h.2⟩

end

/-- In tidy files, the fields of each message have different numbers, and the values of each enum
different names. -/
theorem Outline.apart_ofFiles {files : List SchemaFile} (h : ∀ f ∈ files, f.Tidy) :
    (Outline.ofFiles files).Every (fun _ => NumbersApart) (fun _ => ValuesApart)
      fun _ => True := by
  refine Outline.every_ofFiles (fun f _ g key value position => ?_) fun f hf => ⟨?_, ?_, by simp⟩
  · simp [NumbersApart, Linker.keyField, Linker.valueField]
  · exact MessageDecl.TidyAll.every f.messages (h f hf).1
  · exact fun e he => ((h f hf).2 e he).valuesApart

/-! ## Outlines in another order -/

/-- One outline has what another one has in some order, in which nothing of one file has moved past
anything of the same file. -/
structure Outline.Shuffled (o o' : Outline) : Prop where
  definitions : o'.definitions.Perm o.definitions
  messages : o'.messages.Perm o.messages
  fields : o'.fields.Perm o.fields
  extensions : o'.extensions.Perm o.extensions
  enums : o'.enums.Perm o.enums
  methods : o'.methods.Perm o.methods
  messagesIn : ∀ file, o'.messages.filter (·.file = file) = o.messages.filter (·.file = file)
  enumsIn : ∀ file, o'.enums.filter (·.file = file) = o.enums.filter (·.file = file)

/-- In an outline of files, what is in one of them comes from its outline. -/
theorem Outline.filter_flatMap {α : Type} {f : SchemaFile → List α} {fileOf : α → FileScope}
    (h : ∀ file, ∀ x ∈ f file, fileOf x = file.scope) (files : List SchemaFile)
    (scope : FileScope) :
    (files.flatMap f).filter (fileOf · = scope) = (files.filter (·.scope = scope)).flatMap f := by
  induction files with
  | nil => rfl
  | cons file files ih =>
    rw [List.flatMap_cons, List.filter_append, ih]
    by_cases hfile : file.scope = scope
    · have hall : (f file).filter (fileOf · = scope) = f file := by
        rw [List.filter_eq_self]
        exact fun x hx => decide_eq_true ((h file x hx).trans hfile)
      rw [hall, List.filter_cons_of_pos (by simpa using hfile), List.flatMap_cons]
    · have hnone : (f file).filter (fileOf · = scope) = [] := by
        rw [List.filter_eq_nil_iff]
        exact fun x hx heq => hfile ((h file x hx).symm.trans (of_decide_eq_true heq))
      rw [hnone, List.filter_cons_of_neg (by simpa using hfile), List.nil_append]

/-- Of files of different names, the same one has a scope in whatever order they are. -/
theorem filter_scope_of_perm {files files' : List SchemaFile} (h : files'.Perm files)
    (hnames : (files.map (·.name)).Nodup) (scope : FileScope) :
    files'.filter (·.scope = scope) = files.filter (·.scope = scope) := by
  let names := (files.filter (·.scope = scope)).map (·.name)
  have hsame : names = List.replicate names.length scope.name := by
    refine List.eq_replicate_of_mem fun name hname => ?_
    obtain ⟨f, hf, rfl⟩ := List.mem_map.mp hname
    exact congrArg FileScope.name (of_decide_eq_true (List.mem_filter.mp hf).2)
  have hnodup : names.Nodup := hnames.sublist (List.filter_sublist.map _)
  rw [hsame, List.nodup_replicate, List.length_map] at hnodup
  have hperm := h.filter (·.scope = scope)
  generalize files.filter (·.scope = scope) = one at hnodup hperm
  match one with
  | [] => exact List.perm_nil.mp hperm
  | [f] => exact List.perm_singleton.mp hperm
  | _ :: _ :: _ => simp at hnodup

theorem Outline.shuffled_ofFiles {files files' : List SchemaFile} (h : files'.Perm files)
    (hnames : (files.map (·.name)).Nodup) :
    (Outline.ofFiles files).Shuffled (.ofFiles files') := by
  have hin (f : SchemaFile) : f.outline.Every (fun file _ => file = f.scope)
      (fun file _ => file = f.scope) fun _ => True := by
    refine f.outline_every (fun _ _ _ _ => rfl) ⟨?_, by simp, by simp⟩
    exact MessageDecl.forallIn_of_all (fun m => ⟨rfl, by simp, by simp⟩) f.messages
  have hmessages (files : List SchemaFile) : (Outline.ofFiles files).messages =
      files.flatMap fun f => f.outline.messages := by
    simp [Outline.ofFiles, Outline.flatten, List.flatMap_map]
  have henums (files : List SchemaFile) : (Outline.ofFiles files).enums =
      files.flatMap fun f => f.outline.enums := by
    simp [Outline.ofFiles, Outline.flatten, List.flatMap_map]
  have houtlines := h.map SchemaFile.outline
  refine ⟨houtlines.flatMap_right _, houtlines.flatMap_right _, houtlines.flatMap_right _,
    houtlines.flatMap_right _, houtlines.flatMap_right _, houtlines.flatMap_right _, ?_, ?_⟩
  · intro file
    rw [hmessages, hmessages, Outline.filter_flatMap fun f => (hin f).messages,
      Outline.filter_flatMap fun f => (hin f).messages, filter_scope_of_perm h hnames]
  · intro file
    rw [henums, henums, Outline.filter_flatMap fun f => (hin f).enums,
      Outline.filter_flatMap fun f => (hin f).enums, filter_scope_of_perm h hnames]

namespace Linker

/-- If nothing is noted in one order of files, then nothing is noted in any other. -/
theorem reports_ofFiles_of_perm {files files' : List SchemaFile} (h : files'.Perm files)
    (hnames : (files.map (·.name)).Nodup) (hclean : (ofFiles files).reports = []) :
    (ofFiles files').reports = [] := by
  obtain ⟨htidy, hfits, -⟩ := (declares_ofFiles files).clean.mp hclean
  refine (declares_ofFiles files').clean.mpr ⟨fun f hf => htidy f (h.mem_iff.mp hf), ?_, ?_⟩
  · rw [(Outline.shuffled_ofFiles h hnames).definitions.pairwise_iff]
    · exact hfits
    · intro d d' hd heq
      exact (hd heq.symm).symm
  · simp [empty]

end Linker

end ProtoSchema

namespace ProtoSchema.Linker

/-! ## Places -/

/-- The names of all enum values, each with the full name of its enum. -/
def valueKeys (l : Linker) : List (String × String) :=
  l.inventory.enums.flatMap fun e => e.values.map fun v => (e.fullName, v.name)

/-- The full name of the message that a member belongs to, and the number of the member. -/
def memberKey (l : Linker) (f : FieldEntry) : Option String × Nat :=
  ((f.owner.bind (l.inventory.messages[·]?)).map (·.fullName), f.decl.number)

/-- The places in one linker of what stands at the places in another: messages, enums and methods of
the same full name, fields of the same number in the same message, and values of the same name in
the same enum. -/
def renumbering (l l' : Linker) : Renumbering where
  message := matchPlace (l.inventory.messages.map (·.fullName))
    (l'.inventory.messages.map (·.fullName))
  field := matchPlace (l.members.map l.memberKey) (l'.members.map l'.memberKey)
  enum := matchPlace (l.inventory.enums.map (·.fullName)) (l'.inventory.enums.map (·.fullName))
  enumValue := matchPlace l.valueKeys l'.valueKeys
  method := matchPlace (l.inventory.methods.map (·.fullName))
    (l'.inventory.methods.map (·.fullName))

/-- The keys of all members, whether they are extensions or not. -/
theorem memberKeys_eq (l : Linker) :
    l.members.map l.memberKey = l.scopedMembers.map fun f => l.memberKey f.1 := by
  rw [← map_fst_scopedMembers, List.map_map]
  rfl

theorem renumbering_field (l l' : Linker) : (renumbering l l').field =
    matchPlace (l.scopedMembers.map fun f => l.memberKey f.1)
      (l'.scopedMembers.map fun f => l'.memberKey f.1) := by
  simp only [renumbering, memberKeys_eq]

/-- A value of an enum has its key at its place. -/
theorem getElem?_valueKeys {l : Linker} {i k : Nat} {e : EnumEntry} {v : EnumValueDecl}
    (he : l.enums[i]? = some e) (hv : e.values[k]? = some v) :
    l.valueKeys[l.firstValuePlace i + k]? = some (e.fullName, v.name) := by
  obtain ⟨hk, -⟩ := List.getElem?_eq_some_iff.mp hv
  have hi : l.inventory.enums[i]? = some e := by simpa [inventory] using he
  rw [firstValuePlace_eq_length l i fun e => e.values.map fun v => (e.fullName, v.name)]
  · refine (getElem?_flatMap_block _ hi (by simpa using hk)).trans ?_
    simp [hv]
  · simp

/-- Every field belongs to a message in whose scope it stands. -/
theorem Coherent.exists_owner_scope {l : Linker} (hl : l.Coherent) {f : FieldEntry}
    (hf : f ∈ l.inventory.fields) :
    ∃ i, f.owner = some i ∧ (l.inventory.messages.map (·.fullName))[i]? = some f.scope := by
  obtain ⟨howner, hscope, -⟩ := hl.nested.fields f hf
  obtain ⟨i, hi⟩ := Option.isSome_iff_exists.mp howner
  rw [hi] at hscope
  obtain ⟨m, hm, hname, -⟩ := hscope
  exact ⟨i, hi, by simp [hm, hname]⟩

/-- A field in the message of some full names that has its scope as its full name. -/
def ownedIn (names : List String) (f : FieldEntry) : FieldEntry :=
  { f with owner := some (placeOf names (some f.scope)) }

theorem Coherent.ownedIn_unowned {l : Linker} (hl : l.Coherent) {f : FieldEntry}
    (hf : f ∈ l.inventory.fields) :
    ownedIn (l.inventory.messages.map (·.fullName)) f.unowned = f := by
  obtain ⟨i, howner, hname⟩ := hl.exists_owner_scope hf
  have hplace := placeOf_eq hl.indexed.nodup_messages hname
  simp only [ownedIn, FieldEntry.unowned, hplace, ← howner]

/-- Two linkers know the same files and hold their outlines, each in the order in which the files
were declared to it. -/
structure Shuffled (l l' : Linker) : Prop where
  coherent : l.Coherent
  coherent' : l'.Coherent
  files : l'.files.Perm l.files
  outlines : ∃ o o', l.inventory.Outlined o ∧ l'.inventory.Outlined o' ∧ o.Shuffled o' ∧
    o.Every (fun _ => NumbersApart) (fun _ => ValuesApart) (fun _ => True) ∧
    o.Holds none [] ∧ o'.Holds none []

namespace Shuffled

variable {l l' : Linker} (h : l.Shuffled l')
include h

theorem sites_perm : (l'.inventory.messages.map MessageHeader.site).Perm
    (l.inventory.messages.map MessageHeader.site) := by
  obtain ⟨o, o', ho, ho', hshuffled, -⟩ := h.outlines
  rw [ho.messages, ho'.messages]
  exact hshuffled.messages.map _

theorem enumSites_perm : (l'.inventory.enums.map EnumEntry.site).Perm
    (l.inventory.enums.map EnumEntry.site) := by
  obtain ⟨o, o', ho, ho', hshuffled, -⟩ := h.outlines
  rw [ho.enums, ho'.enums]
  exact hshuffled.enums

theorem messageNames_perm : (l.inventory.messages.map (·.fullName)).Perm
    (l'.inventory.messages.map (·.fullName)) := by
  have hnames := (h.sites_perm.map (·.fullName)).symm
  rwa [List.map_map, List.map_map] at hnames

theorem enumNames_perm : (l.inventory.enums.map (·.fullName)).Perm
    (l'.inventory.enums.map (·.fullName)) := by
  have hnames := (h.enumSites_perm.map (·.fullName)).symm
  rwa [List.map_map, List.map_map] at hnames

theorem methods_perm : l'.inventory.methods.Perm l.inventory.methods := by
  obtain ⟨o, o', ho, ho', hshuffled, -⟩ := h.outlines
  rw [ho.methods, ho'.methods]
  exact hshuffled.methods

/-- A message of a full name leads to the message of that full name. -/
theorem message_eq {i j : Nat} {m m' : MessageHeader} (hm : l.inventory.messages[i]? = some m)
    (hm' : l'.inventory.messages[j]? = some m') (hname : m'.fullName = m.fullName) :
    (renumbering l l').message i = j := by
  have hi : (l.inventory.messages.map (·.fullName))[i]? = some m.fullName := by simp [hm]
  have hj : (l'.inventory.messages.map (·.fullName))[j]? = some m.fullName := by
    simp [hm', hname]
  exact matchPlace_eq h.coherent'.indexed.nodup_messages hi hj

/-- An enum of a full name leads to the enum of that full name. -/
theorem enum_eq {i j : Nat} {e e' : EnumEntry} (he : l.inventory.enums[i]? = some e)
    (he' : l'.inventory.enums[j]? = some e') (hname : e'.fullName = e.fullName) :
    (renumbering l l').enum i = j := by
  have hi : (l.inventory.enums.map (·.fullName))[i]? = some e.fullName := by simp [he]
  have hj : (l'.inventory.enums.map (·.fullName))[j]? = some e.fullName := by simp [he', hname]
  exact matchPlace_eq h.coherent'.indexed.nodup_enums hi hj

/-- A method of a full name leads to the method of that full name. -/
theorem method_eq {i j : Nat} {m m' : MethodEntry} (hm : l.inventory.methods[i]? = some m)
    (hm' : l'.inventory.methods[j]? = some m') (hname : m'.fullName = m.fullName) :
    (renumbering l l').method i = j := by
  have hi : (l.inventory.methods.map (·.fullName))[i]? = some m.fullName := by simp [hm]
  have hj : (l'.inventory.methods.map (·.fullName))[j]? = some m.fullName := by
    simp [hm', hname]
  exact matchPlace_eq h.coherent'.indexed.nodup_methods hi hj

/-- What has one name and one full name is nested in the same message: its scope is told by them. -/
theorem parent_eq {file file' : FileScope} {scope scope' : String} {parent parent' : Option Nat}
    (name : String) (hscope : l.inventory.Encloses file scope parent)
    (hscope' : l'.inventory.Encloses file' scope' parent')
    (hname : Dotted.join scope' name = Dotted.join scope name)
    (hnested : parent'.isSome = parent.isSome) :
    parent' = parent.map (renumbering l l').message := by
  obtain rfl := Dotted.join_left_injective hname
  cases parent with
  | none => simpa using hnested
  | some i =>
    obtain ⟨j, rfl⟩ := Option.isSome_iff_exists.mp (hnested.trans rfl)
    obtain ⟨m, hm, hfull, -⟩ := hscope
    obtain ⟨m', hm', hfull', -⟩ := hscope'
    rw [Option.map_some, h.message_eq hm hm' (hfull'.trans hfull.symm)]

theorem renumber_mem_messages :
    ∀ m ∈ l.inventory.messages, m.renumber (renumbering l l') ∈ l'.inventory.messages := by
  intro m hm
  obtain ⟨m', hm', hsite⟩ :=
    List.mem_map.mp (h.sites_perm.mem_iff.mpr (List.mem_map_of_mem hm))
  obtain ⟨scope, hscope, hfull⟩ := h.coherent.nested.messages m hm
  obtain ⟨scope', hscope', hfull'⟩ := h.coherent'.nested.messages m' hm'
  simp only [MessageHeader.site, MessageSite.mk.injEq] at hsite
  obtain ⟨hname, hfullName, hfile, hnested, hentry, hranges⟩ := hsite
  have hparent := h.parent_eq m.name hscope hscope'
    (by rw [← hfull, ← hfullName, hfull', hname]) hnested
  have heq : m.renumber (renumbering l l') = m' := by
    rw [MessageHeader.renumber, ← hname, ← hfullName, ← hfile, ← hparent, ← hentry, ← hranges]
  exact heq ▸ hm'

theorem renumber_mem_enums :
    ∀ e ∈ l.inventory.enums, e.renumber (renumbering l l') ∈ l'.inventory.enums := by
  intro e he
  obtain ⟨e', he', hsite⟩ :=
    List.mem_map.mp (h.enumSites_perm.mem_iff.mpr (List.mem_map_of_mem he))
  obtain ⟨scope, hscope, hfull⟩ := h.coherent.nested.enums e he
  obtain ⟨scope', hscope', hfull'⟩ := h.coherent'.nested.enums e' he'
  simp only [EnumEntry.site, EnumSite.mk.injEq] at hsite
  obtain ⟨hname, hfullName, hfile, hnested, hvalues⟩ := hsite
  have hparent := h.parent_eq e.name hscope hscope'
    (by rw [← hfull, ← hfullName, hfull', hname]) hnested
  have heq : e.renumber (renumbering l l') = e' := by
    rw [EnumEntry.renumber, ← hname, ← hfullName, ← hfile, ← hparent, ← hvalues]
  exact heq ▸ he'

theorem message (i : Nat) :
    l'.inventory.messages[(renumbering l l').message i]? =
      (l.inventory.messages[i]?).map (·.renumber (renumbering l l')) :=
  getElem?_matchPlace h.renumber_mem_messages (fun _ _ => rfl)
    h.coherent'.indexed.nodup_messages i

theorem enum (i : Nat) :
    l'.inventory.enums[(renumbering l l').enum i]? =
      (l.inventory.enums[i]?).map (·.renumber (renumbering l l')) :=
  getElem?_matchPlace h.renumber_mem_enums (fun _ _ => rfl) h.coherent'.indexed.nodup_enums i

/-! ## Definitions -/

/-- Definitions that differ in their places only are definitions of the same at matching places. -/
theorem renumber_eq {d d' : Definition} (hd : d ∈ l.inventory.definitions)
    (hd' : d' ∈ l'.inventory.definitions) (hsame : d'.unplaced = d.unplaced) :
    d.renumber (renumbering l l') = d' := by
  have hkind : d'.kind = d.kind := (congrArg Definition.kind hsame :)
  have hname : d'.fullName = d.fullName := (congrArg Definition.fullName hsame :)
  have hfile : d'.file = d.file := (congrArg Definition.file hsame :)
  -- by kind, since each kind has its own arena; packages and services have no places
  have hplace : (d.renumber (renumbering l l')).place = d'.place := by
    unfold Definition.renumber
    cases hk : d.kind with
    | message =>
      obtain ⟨i, m, hm, rfl⟩ := h.coherent.indexed.message_of_mem hd hk
      obtain ⟨j, m', hm', rfl⟩ := h.coherent'.indexed.message_of_mem hd' (hkind.trans hk)
      exact congrArg some (h.message_eq hm hm' hname)
    | enum =>
      obtain ⟨i, e, he, rfl⟩ := h.coherent.indexed.enum_of_mem hd hk
      obtain ⟨j, e', he', rfl⟩ := h.coherent'.indexed.enum_of_mem hd' (hkind.trans hk)
      exact congrArg some (h.enum_eq he he' hname)
    | method =>
      obtain ⟨i, m, hm, rfl⟩ := h.coherent.indexed.method_of_mem hd hk
      obtain ⟨j, m', hm', rfl⟩ := h.coherent'.indexed.method_of_mem hd' (hkind.trans hk)
      exact congrArg some (h.method_eq hm hm' hname)
    | package =>
      have hnone := h.coherent.indexed.others d hd (.inl hk)
      have hnone' := h.coherent'.indexed.others d' hd' (.inl (hkind.trans hk))
      exact hnone.trans hnone'.symm
    | service =>
      have hnone := h.coherent.indexed.others d hd (.inr hk)
      have hnone' := h.coherent'.indexed.others d' hd' (.inr (hkind.trans hk))
      exact hnone.trans hnone'.symm
  obtain ⟨kind, fullName, file, place⟩ := d
  obtain ⟨kind', fullName', file', place'⟩ := d'
  simp only at hkind hname hfile
  subst hkind hname hfile
  exact congrArg (Definition.mk kind' fullName' file') hplace

theorem mem_unplaced {d : Definition} :
    d ∈ l'.inventory.definitions.map Definition.unplaced ↔
      d ∈ l.inventory.definitions.map Definition.unplaced := by
  obtain ⟨o, o', ho, ho', hshuffled, -⟩ := h.outlines
  rw [ho.definitions, ho'.definitions]
  exact (hshuffled.definitions.map _).mem_iff

/-- A full name stands for the same at its new place. -/
theorem definition (name : String) :
    l'.definition? name = (l.definition? name).map (·.renumber (renumbering l l')) := by
  cases hd : l.definition? name with
  | some d =>
    obtain ⟨hmem, hname⟩ := (definition?_eq_some h.coherent.indexed).mp hd
    obtain ⟨d', hmem', hsame⟩ :=
      List.mem_map.mp (h.mem_unplaced.mpr (List.mem_map_of_mem hmem))
    rw [Option.map_some, definition?_eq_some h.coherent'.indexed, h.renumber_eq hmem hmem' hsame]
    exact ⟨hmem', (congrArg Definition.fullName hsame :).trans hname⟩
  | none =>
    -- a definition of the name in the other order would have come from one in this order
    rw [Option.map_none, definition?_eq_none]
    intro hname
    obtain ⟨d', hmem', rfl⟩ := List.mem_map.mp hname
    obtain ⟨d, hmem, hsame⟩ := List.mem_map.mp (h.mem_unplaced.mp (List.mem_map_of_mem hmem'))
    have hname' : d.fullName = d'.fullName := (congrArg Definition.fullName hsame :)
    exact definition?_eq_none.mp hd (hname' ▸ List.mem_map_of_mem hmem)

/-! ## Fields and values -/

/-- The fields of messages belong to the same messages, at their new places. -/
theorem fields_perm :
    l'.inventory.fields.Perm (l.inventory.fields.map (·.renumber (renumbering l l'))) := by
  -- both are the fields without owners, given back the messages in whose scopes they stand
  have hrenumber : l.inventory.fields.map (·.renumber (renumbering l l')) =
      (l.inventory.fields.map FieldEntry.unowned).map
        (ownedIn (l'.inventory.messages.map (·.fullName))) := by
    rw [List.map_map]
    apply List.map_congr_left
    intro f hf
    obtain ⟨i, howner, hname⟩ := h.coherent.exists_owner_scope hf
    have hlink := (h.coherent.unlinked.inventory.fields f hf).2
    have hplace : (renumbering l l').message i =
        placeOf (l'.inventory.messages.map (·.fullName)) (some f.scope) :=
      congrArg (placeOf _) hname
    simp only [FieldEntry.renumber, howner, hlink, Option.map_some, hplace]
    simp only [Function.comp_apply, ownedIn, FieldEntry.unowned, hlink]
    rfl
  have hfields : l'.inventory.fields = (l'.inventory.fields.map FieldEntry.unowned).map
      (ownedIn (l'.inventory.messages.map (·.fullName))) := by
    rw [List.map_map]
    refine (List.map_id _).symm.trans (List.map_congr_left fun f hf => ?_)
    exact (h.coherent'.ownedIn_unowned hf).symm
  obtain ⟨o, o', ho, ho', hshuffled, -⟩ := h.outlines
  rw [hrenumber, hfields, ho.fields, ho'.fields]
  exact hshuffled.fields.map _

theorem extensions_perm : l'.inventory.extensions.Perm l.inventory.extensions := by
  obtain ⟨o, o', ho, ho', hshuffled, -⟩ := h.outlines
  rw [ho.extensions, ho'.extensions]
  exact hshuffled.extensions

theorem valueKeys_perm : l.valueKeys.Perm l'.valueKeys := by
  have hkeys (l : Linker) : l.valueKeys = (l.inventory.enums.map EnumEntry.site).flatMap
      fun e => e.values.map fun v => (e.fullName, v.name) := by
    rw [List.flatMap_map]
    rfl
  rw [hkeys, hkeys]
  exact (h.enumSites_perm.flatMap_right _).symm

/-- No two values of one enum have one name. -/
theorem nodup_valueKeys : l.valueKeys.Nodup := by
  obtain ⟨o, o', ho, ho', hshuffled, hapart, -⟩ := h.outlines
  rw [valueKeys, List.nodup_flatMap]
  constructor
  · intro e he
    have hsite : e.site ∈ o.enums := ho.enums ▸ List.mem_map_of_mem he
    have hnames : (e.values.map (·.name)).Nodup := hapart.enums _ hsite
    have hkeys : (e.values.map fun v => (e.fullName, v.name)) =
        (e.values.map (·.name)).map (e.fullName, ·) := by
      rw [List.map_map]
      rfl
    rw [hkeys]
    exact hnames.map (Prod.mk_right_injective _)
  · have hnames := List.pairwise_map.mp h.coherent.indexed.nodup_enums
    refine hnames.imp fun {e e'} hne key hkey hkey' => hne ?_
    obtain ⟨v, -, rfl⟩ := List.mem_map.mp hkey
    obtain ⟨v', -, hv'⟩ := List.mem_map.mp hkey'
    exact (congrArg Prod.fst hv').symm

theorem enumValue {i k : Nat} {e : EnumEntry} (he : l.enums[i]? = some e)
    (hk : k < e.values.length) :
    (renumbering l l').enumValue (l.firstValuePlace i + k) =
      l'.firstValuePlace ((renumbering l l').enum i) + k := by
  have he' : l'.enums[(renumbering l l').enum i]? = some (e.renumber (renumbering l l')) := by
    have hi := h.enum i
    simpa [inventory, he] using hi
  have hkey := getElem?_valueKeys he (List.getElem?_eq_getElem hk)
  have hkey' := getElem?_valueKeys he' (v := e.values[k]) (List.getElem?_eq_getElem hk)
  exact matchPlace_eq (h.valueKeys_perm.nodup_iff.mp h.nodup_valueKeys) hkey hkey'

/-- What a file sees does not depend on the order of files. -/
theorem visible (file : FileScope) : l'.visibleFrom file = l.visibleFrom file := by
  refine visibleFrom_eq (fun name => ?_) h.files.length_eq file
  exact find?_eq_of_perm h.files h.coherent.unlinked.files name

/-- Linkers that hold shuffled outlines are reordered. -/
theorem reordered : Reordered (renumbering l l') l l' where
  visible := h.visible
  definition := h.definition
  injective := by
    have hinj : Set.InjOn (renumbering l l').message _ :=
      (bijOn_matchPlace h.messageNames_perm h.coherent'.indexed.nodup_messages).injOn
    rwa [List.length_map] at hinj
  message := h.message
  enum i := by simpa [inventory] using h.enum i
  enumValue i e k he hk := h.enumValue he hk
  fields := h.fields_perm
  extensions := h.extensions_perm
  methods := h.methods_perm

/-! ## Members -/

/-- The fields of a message have different numbers. -/
theorem fields_apart : l.inventory.fields.Pairwise fun f g =>
    f.owner = g.owner → f.decl.number ≠ g.decl.number := by
  obtain ⟨o, o', ho, ho', hshuffled, hapart, hholds, -⟩ := h.outlines
  rw [List.pairwise_iff_forall_sublist]
  intro f g hsub howner
  obtain ⟨i, hi, hname⟩ := h.coherent.exists_owner_scope (hsub.subset List.mem_cons_self)
  have hi' : g.owner = some i := howner ▸ hi
  obtain ⟨hlt, -⟩ := List.getElem?_eq_some_iff.mp hname
  rw [List.length_map] at hlt
  -- both are among the fields that the outline tells for this message
  obtain ⟨m, hm, -, hdecls⟩ :=
    h.coherent.exists_outline ho hholds (List.getElem?_eq_getElem hlt)
  have hpair : [f, g].Sublist (l.inventory.fields.filter (·.owner = some i)) := by
    have hall : [f, g].filter (·.owner = some i) = [f, g] := by simp [hi, hi']
    exact hall ▸ hsub.filter (·.owner = some i)
  have hnumbers := hapart.messages m hm
  have hentered : (m.fields.map FieldDecl.entered).map (·.number) = m.fields.map (·.number) := by
    rw [List.map_map]
    apply List.map_congr_left
    intro d _
    rw [Function.comp_apply, FieldDecl.entered]
    cases d.shape <;> rfl
  rw [NumbersApart, ← hentered, ← hdecls, List.map_map] at hnumbers
  simpa using hnumbers.sublist (hpair.map _)

/-- The members of a message have different numbers. -/
theorem members_apart (hattachable : l.Attachable l.inventory.fields l.inventory.extensions) :
    l.members.Pairwise fun f g => f.owner = g.owner → f.decl.number ≠ g.decl.number := by
  rw [members, attached, attachedTo_eq_map hattachable, List.pairwise_append]
  refine ⟨h.fields_apart, ?_, ?_⟩
  · rw [List.pairwise_map]
    exact hattachable.apart
  · intro f hf g hg howner
    obtain ⟨e, he, rfl⟩ := List.mem_map.mp hg
    exact hattachable.members e he f hf howner

/-- No two members have one key. -/
theorem nodup_memberKeys (hattachable : l.Attachable l.inventory.fields l.inventory.extensions) :
    (l.members.map l.memberKey).Nodup := by
  rw [List.Nodup, List.pairwise_map]
  refine (h.members_apart hattachable).imp_of_mem fun {f g} hf hg happart heq => ?_
  obtain ⟨i, hi, howner⟩ := h.coherent.exists_owner hf
  obtain ⟨j, hj, howner'⟩ := h.coherent.exists_owner hg
  obtain ⟨hname, hnumber⟩ := Prod.mk.inj heq
  -- members of one key are members of one message, where numbers differ
  have hnames : (l.inventory.messages.map (·.fullName))[i]? =
      (l.inventory.messages.map (·.fullName))[j]? := by
    simpa [howner, howner'] using hname
  have hplace : i = j :=
    (List.getElem?_inj (by simpa using hi) h.coherent.indexed.nodup_messages).mp hnames
  exact happart (by rw [howner, howner', hplace]) hnumber

theorem memberKey_renumber (f : FieldEntry) :
    l'.memberKey (f.renumber (renumbering l l')) = l.memberKey f := by
  unfold memberKey FieldEntry.renumber
  cases f.owner with
  | none => rfl
  | some i =>
    simp only [Option.map_some, Option.bind_some, h.message, Option.map_map]
    rfl

/-- The same keys stand in both orders. -/
theorem memberKeys_perm (hattachable : l.Attachable l.inventory.fields l.inventory.extensions) :
    (l.members.map l.memberKey).Perm (l'.members.map l'.memberKey) := by
  have hperm := (h.reordered.members h.coherent hattachable).map l'.memberKey
  have hkeys : (l.members.map (·.renumber (renumbering l l'))).map l'.memberKey =
      l.members.map l.memberKey := by
    rw [List.map_map]
    exact List.map_congr_left fun f _ => h.memberKey_renumber f
  rw [hkeys] at hperm
  exact hperm.symm

theorem nodup_scopedKeys (hattachable : l.Attachable l.inventory.fields l.inventory.extensions) :
    (l'.scopedMembers.map fun f => l'.memberKey f.1).Nodup := by
  rw [← memberKeys_eq]
  exact (h.memberKeys_perm hattachable).nodup_iff.mp (h.nodup_memberKeys hattachable)

/-- Members stand at the places that match theirs, with their scopes if they are extensions. -/
theorem scopedMember (hattachable : l.Attachable l.inventory.fields l.inventory.extensions)
    (k : Nat) : l'.scopedMembers[(renumbering l l').field k]? =
      (l.scopedMembers[k]?).map (Prod.map (·.renumber (renumbering l l')) id) := by
  have hperm := h.reordered.scopedMembers h.coherent hattachable
  rw [renumbering_field]
  refine getElem?_matchPlace (fun f hf => ?_) (fun f _ => h.memberKey_renumber f.1)
    (h.nodup_scopedKeys hattachable) k
  exact hperm.mem_iff.mpr (List.mem_map_of_mem hf)

end Shuffled

theorem shuffled_ofFiles {files files' : List SchemaFile} (h : files'.Perm files)
    (hnames : (files.map (·.name)).Nodup) (hclean : (ofFiles files).reports = []) :
    (ofFiles files).Shuffled (ofFiles files') := by
  have hnames' : (files'.map (·.name)).Nodup := (h.map _).nodup_iff.mpr hnames
  obtain ⟨htidy, -⟩ := (declares_ofFiles files).clean.mp hclean
  refine ⟨coherent_ofFiles hnames, coherent_ofFiles hnames', ?_, _, _, outlined_ofFiles hclean,
    outlined_ofFiles (reports_ofFiles_of_perm h hnames hclean),
    Outline.shuffled_ofFiles h hnames, Outline.apart_ofFiles htidy, Outline.holds_ofFiles files,
    Outline.holds_ofFiles files'⟩
  rw [files_ofFiles hnames, files_ofFiles hnames']
  exact h.map _

end ProtoSchema.Linker
