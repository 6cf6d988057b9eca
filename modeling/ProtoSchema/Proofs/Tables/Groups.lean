import ProtoSchema.Proofs.Descriptor.Relinked
import ProtoSchema.Proofs.Linker.Founded
import ProtoSchema.Proofs.Schema.Groups
import ProtoSchema.Proofs.Tables.Enums

/-!
# Groups in linked tables

A field that is declared as a group refers to its body by name. The name is taken when the fields of
the message are declared, and taken by something of the same file (`Known.exists_owned`): whatever it
is, it stands right in the scope of the message, so that the lookup ends there. So the field is linked
to the first message of that name that its own message declares, if this could be entered, and to no
other type otherwise (`Linker.groups_of_link`).

This message is the body of the group unless another message of the name is declared before it, and a
group with the name of a scalar type is no group at all in the tables
(`Linker.groups_without_their_bodies`).
-/

namespace ProtoSchema

open Dotted

namespace Linker

variable {files : List SchemaFile} {l l' l'' : Linker} {file : FileScope} {scope : String}
variable {i k owner : Nat}

/-! ## Names that are taken before fields -/

/-- The messages that a message is declared with have their names taken. -/
def Provides (files : List SchemaFile) (l : Linker) (i : Nat) : Prop :=
  ∃ m d, l.inventory.messages[i]? = some m ∧ DeclaredAs files l.sources i d ∧
    ∀ x ∈ d.messages, (l.definition? (join m.fullName x.name)).isSome

/-- At a place stands a map entry. -/
def EntryAt (l : Linker) (i : Nat) : Prop :=
  ∃ m, l.inventory.messages[i]? = some m ∧ m.isMapEntry = true

/-- A map entry does not have the name of a message that is declared beside its map field. -/
def Apart (files : List SchemaFile) (l : Linker) (m : MessageHeader) : Prop :=
  ∃ p d, m.parent = some p ∧ DeclaredAs files l.sources p d ∧ ∀ x ∈ d.messages, x.name ≠ m.name

/-- Messages have fields only behind the messages that are nested in them, of which no entry takes
the name. -/
structure Provided (files : List SchemaFile) (l : Linker) : Prop where
  fields : ∀ e ∈ l.inventory.fields, ∀ i ∈ e.owner, Provides files l i ∨ l.EntryAt i
  entries : ∀ m ∈ l.inventory.messages, m.isMapEntry = true → Apart files l m

theorem Provides.mono {n : Nat} (h : Provides files l i) (hgrows : Grows n l l') :
    Provides files l' i := by
  obtain ⟨m, d, hm, hd, htaken⟩ := h
  exact ⟨m, d, hgrows.getElem?_messages hm, hd.mono hgrows.sources,
    fun x hx => hgrows.isSome_definition? (htaken x hx)⟩

theorem EntryAt.mono {n : Nat} (h : l.EntryAt i) (hgrows : Grows n l l') : l'.EntryAt i :=
  h.imp fun _ hm => hm.imp_left hgrows.getElem?_messages

theorem Apart.mono {n : Nat} {m : MessageHeader} (h : Apart files l m) (hgrows : Grows n l l') :
    Apart files l' m := by
  obtain ⟨p, d, hp, hd, hnames⟩ := h
  exact ⟨p, d, hp, hd.mono hgrows.sources, hnames⟩

/-- Only what is added has to be looked at. -/
theorem Provided.grow {n : Nat} (h : Provided files l) (hgrows : Grows n l l')
    (hfields : ∀ e ∈ l'.inventory.fields, e ∈ l.inventory.fields ∨
      ∀ i ∈ e.owner, Provides files l' i ∨ l'.EntryAt i)
    (hmessages : ∀ m ∈ l'.inventory.messages, m ∈ l.inventory.messages ∨
      (m.isMapEntry = true → Apart files l' m)) : Provided files l' := by
  refine ⟨fun e he => ?_, fun m hm => ?_⟩
  · rcases hfields e he with he | hnew
    · exact fun i hi => (h.fields e he i hi).imp (·.mono hgrows) (·.mono hgrows)
    · exact hnew
  · rcases hmessages m hm with hm | hnew
    · exact fun hentry => (h.entries m hm hentry).mono hgrows
    · exact hnew

theorem Provided.spare (h : Provided files l) (hspares : Spares l l') : Provided files l' :=
  h.grow (hspares.grows 0) (fun _ he => .inl (hspares.fields ▸ he))
    fun _ hm => .inl (hspares.messages ▸ hm)

theorem Provided.addField (h : Provided files l) (f : FieldDecl)
    (howner : Provides files l owner ∨ l.EntryAt owner) :
    Provided files (l.addField file owner scope f) := by
  have hgrows := Grows.addField l file scope f (le_refl owner)
  refine h.grow hgrows (fun e he => ?_) fun m hm => .inl (by simpa using hm)
  rw [inventory_addField] at he
  rcases List.mem_append.mp he with he | he
  · exact .inl he
  · obtain rfl := List.mem_singleton.mp he
    refine .inr fun i hi => ?_
    obtain rfl := Option.some.inj hi
    exact howner.imp (·.mono hgrows) (·.mono hgrows)

/-- One field of a message is declared behind the messages nested in it. -/
theorem Provided.declareField (h : Provided files l) (rules : FieldRules) (f : FieldDecl)
    (howner : Provides files l owner) (hinside : l.inventory.Encloses file scope (some owner)) :
    Provided files (l.declareField file owner scope rules f) := by
  unfold Linker.declareField
  cases rules.problem? f with
  | some p => exact h.spare (idle_report ..).toSpares
  | none =>
    cases f.shape with
    | named | group => exact h.addField f (.inl howner)
    | map key value position =>
      rcases declareMapEntry_cases l file owner scope f key value position with
        ⟨hfree, heq⟩ | ⟨-, p, heq⟩
      · simp only [heq]
        let entered := l.enterMessage file scope (some owner) (MapEntry.name f.name) true []
        have hgrows : Grows 0 l entered := .enterMessage ..
        -- a message nested in the owner has its name taken, the entry takes another one
        have hapart : Apart files entered ⟨MapEntry.name f.name,
            join scope (MapEntry.name f.name), file, some owner, true, []⟩ := by
          obtain ⟨m, hm, rfl, -⟩ := hinside
          obtain ⟨m', d, hm', hd, htaken⟩ := howner
          obtain rfl := Option.some.inj (hm.symm.trans hm')
          refine ⟨owner, d, rfl, hd.mono hgrows.sources, fun x hx hname => ?_⟩
          have hsome := htaken x hx
          rw [show x.name = MapEntry.name f.name from hname, hfree] at hsome
          cases hsome
        have hentered : Provided files entered := by
          refine h.grow hgrows (fun e he => .inl (by simpa [entered] using he)) fun m hm => ?_
          simp only [entered, inventory_enterMessage, List.mem_append, List.mem_singleton] at hm
          refine hm.imp_right fun hm _ => ?_
          rw [hm]
          exact hapart
        have hentry : entered.EntryAt l.messages.size :=
          ⟨⟨MapEntry.name f.name, join scope (MapEntry.name f.name), file, some owner, true, []⟩,
            by simp [entered, ← length_messages_inventory], rfl⟩
        have hkey := Grows.addField entered file (join scope (MapEntry.name f.name))
          (keyField f key) (Nat.zero_le l.messages.size)
        have hvalue := Grows.addField (entered.addField file l.messages.size
          (join scope (MapEntry.name f.name)) (keyField f key)) file
          (join scope (MapEntry.name f.name)) (valueField f value position)
          (Nat.zero_le l.messages.size)
        exact ((hentered.addField _ (.inr hentry)).addField _ (.inr (hentry.mono hkey))).addField _
          (.inl (howner.mono ((hgrows.trans hkey).trans hvalue)))
      · simp only [heq]
        exact h.spare (idle_report ..).toSpares

theorem Provided.declareFields (h : Provided files l) (rules : FieldRules) (fs : List FieldDecl)
    (howner : Provides files l owner) (hinside : l.inventory.Encloses file scope (some owner)) :
    Provided files (l.declareFields file owner scope rules fs) := by
  induction fs generalizing l rules with
  | nil => exact h
  | cons f fs ih =>
    have hgrows := grows_declareField l file owner scope rules f
    rw [declareFields_cons]
    exact ih (h.declareField rules f howner hinside) _ (howner.mono hgrows)
      (hgrows.encloses hinside)

/-- Whatever declaring the files does, messages get their fields behind the messages nested in
them. -/
theorem enduring_provided (files : List SchemaFile) : Enduring files (Provided files) where
  idle hidle hl := hl.spare hidle.toSpares
  enum {l} file scope parent e _ _ hl := hl.spare (spares_declareEnum l file scope parent e)
  message {l} file scope parent m _ hl := by
    refine hl.grow (.enterMessage l file scope parent m.name false m.extensionRanges 0)
      (fun e he => .inl (by simpa using he)) fun x hx => ?_
    simp only [inventory_enterMessage, List.mem_append, List.mem_singleton] at hx
    refine hx.imp_right fun hx hentry => ?_
    rw [hx] at hentry
    cases hentry
  fields file scope owner m hm hinside htaken hl := by
    refine hl.declareFields _ m.fields ?_ hinside
    obtain ⟨h, hh, rfl, -⟩ := hinside
    exact ⟨h, m, hh, hm, htaken⟩

theorem provided_ofFiles {fs : List SchemaFile} (hfs : fs ⊆ files) :
    Provided files (ofFiles fs) :=
  ((enduring_provided files).ofFiles_subset (by constructor <;> simp [inventory, empty]) hfs).2

/-! ## What one file adds -/

/-- Nothing is taken back, and the fields that are added belong to files with `admits`. -/
structure GrowsFrom (admits : FileScope → Prop) (l l' : Linker) : Prop where
  definitions : l.inventory.definitions <+: l'.inventory.definitions
  messages : l.inventory.messages <+: l'.inventory.messages
  fields : ∃ added, l'.inventory.fields = l.inventory.fields ++ added ∧ ∀ e ∈ added, admits e.file

namespace GrowsFrom

variable {admits : FileScope → Prop}

theorem refl (l : Linker) : GrowsFrom admits l l :=
  ⟨List.prefix_rfl, List.prefix_rfl, [], (List.append_nil _).symm, List.forall_mem_nil _⟩

theorem trans (h : GrowsFrom admits l l') (h' : GrowsFrom admits l' l'') : GrowsFrom admits l l'' := by
  obtain ⟨hdefinitions, hmessages, added, hfields, hfiles⟩ := h
  obtain ⟨hdefinitions', hmessages', added', hfields', hfiles'⟩ := h'
  exact ⟨hdefinitions.trans hdefinitions', hmessages.trans hmessages', added ++ added',
    by rw [hfields', hfields, List.append_assoc], List.forall_mem_append.mpr ⟨hfiles, hfiles'⟩⟩

theorem mono {admits' : FileScope → Prop} (h : GrowsFrom admits l l')
    (hadmits : ∀ file, admits file → admits' file) : GrowsFrom admits' l l' := by
  obtain ⟨hdefinitions, hmessages, added, hfields, hfiles⟩ := h
  exact ⟨hdefinitions, hmessages, added, hfields, fun e he => hadmits _ (hfiles e he)⟩

end GrowsFrom

theorem Step.growsFrom {named : String → Prop} (h : Step named file l l') : GrowsFrom (· = file) l l' := by
  cases h with
  | field => exact ⟨by simp, by simp, _, congrArg Inventory.fields (inventory_addField ..), by simp⟩
  | note | package | message | enum | extend | service | method =>
    exact ⟨by simp, by simp, [], by simp, List.forall_mem_nil _⟩

theorem Steps.growsFrom {named : String → Prop} (h : Steps named file l l') :
    GrowsFrom (· = file) l l' := by
  induction h with
  | refl => exact .refl _
  | tail _ hstep ih => exact ih.trans hstep.growsFrom

theorem growsFrom_declare (l : Linker) (f : SchemaFile) :
    GrowsFrom (· = f.scope) l (l.declare f) := by
  have hsteps : Steps (fun _ => True) f.scope (l.addFile f.scope) (l.declare f) :=
    steps_declare l f (fun _ => trivial) (MessageDecl.forallIn_of_all (fun _ => trivial) f.messages)
  have hstart : (l.addFile f.scope).inventory = l.inventory := by
    unfold addFile
    split <;> rfl
  obtain ⟨hdefinitions, hmessages, hfields⟩ := hsteps.growsFrom
  rw [hstart] at hdefinitions hmessages hfields
  exact ⟨hdefinitions, hmessages, hfields⟩

/-- Fields that are added by later files belong to these. -/
theorem growsFrom_ofFiles (before after : List SchemaFile) :
    GrowsFrom (∃ g ∈ after, · = g.scope) (ofFiles before) (ofFiles (before ++ after)) := by
  induction after using List.reverseRecOn with
  | nil =>
    rw [List.append_nil]
    exact .refl _
  | append_singleton after g ih =>
    rw [← List.append_assoc, ofFiles_append_singleton]
    refine (ih.mono ?_).trans ((growsFrom_declare _ g).mono ?_)
    · rintro file ⟨g', hg', rfl⟩
      exact ⟨g', by simp [hg'], rfl⟩
    · rintro file rfl
      exact ⟨g, by simp, rfl⟩

/-- What a file defines belongs to it, or is a package. -/
theorem owned_of_mem_declare {f : SchemaFile} {d : Definition} (hd : d ∈ (l.declare f).definitions) :
    d ∈ l.definitions ∨ d.kind = .package ∨ d.file = some f.name := by
  have hrun := @alongside_declare [] (by simp) l l f
  refine (hrun.entered d hd).imp_right fun hin => ?_
  have howned := f.outline_ownedBy _ hin
  unfold Definition.OwnedBy at howned
  split_ifs at howned with hkind
  · exact .inl hkind
  · exact .inr howned

/-- What is no package belongs to one of the files. -/
theorem exists_file_of_mem {d : Definition} (hd : d ∈ (ofFiles files).definitions)
    (hkind : d.kind ≠ .package) : ∃ f ∈ files, d.file = some f.name := by
  obtain ⟨f, hf, hin⟩ := exists_outline_of_mem hd
  have howned := f.outline_ownedBy _ hin
  rw [Definition.OwnedBy, if_neg (by exact hkind)] at howned
  exact ⟨f, hf, howned⟩

/-! ## What stands in the scope of a message -/

/-- A message that is declared has the name of its declaration. -/
theorem name_eq_of_declaredAs {m : MessageHeader} {d : MessageDecl}
    (hd : DeclaredAs files l.sources i d) (hm : l.inventory.messages[i]? = some m) :
    d.name = m.name := by
  cases hd with
  | top hs _ _ _ _ hd | nested hs _ _ _ hd =>
    obtain rfl := Option.some.inj ((getElem?_sources hm).symm.trans hs)
    exact of_decide_eq_true (List.find?_some hd :)

namespace Known

variable (h : Known files l)
include h

theorem forall_worded {d : MessageDecl} (hd : DeclaredAs files l.sources i d) :
    d.Forall MessageDecl.Worded := hd.forall fun file hfile => by
  obtain ⟨text, hparse⟩ := h.read file hfile
  exact (SchemaFile.worded_of_parse hparse).messages

/-- The messages that a message is declared with are named by words. -/
theorem isWord_of_mem {d x : MessageDecl} (hd : DeclaredAs files l.sources i d)
    (hx : x ∈ d.messages) : IsWord x.name := by
  have hworded := h.forall_worded hd
  obtain ⟨_, _, messages, _, _, _, _, _, _, _, _⟩ := d
  rw [MessageDecl.Forall] at hworded
  exact (MessageDecl.forallIn_iff.mp hworded.2 x hx).self.name

/-- The names of messages could be ends of words. -/
theorem isPart_name {m : MessageHeader} (hm : l.inventory.messages[i]? = some m) :
    IsPart m.name := by
  cases hentry : m.isMapEntry with
  | false =>
    obtain ⟨d, hd, -⟩ := h.sourced.messages i m hm hentry
    rw [← name_eq_of_declaredAs hd hm]
    exact (h.forall_worded hd).self.name.isPart
  | true =>
    obtain ⟨b, hb, rfl⟩ := h.traced.entries i m hm hentry
    obtain ⟨_, _, hm'⟩ := hb.entry
    obtain rfl := Option.some.inj (hm.symm.trans hm')
    exact MapEntry.isPart_name (h.worded hb.accepted).name

/-- A message is named inside the package of its file. -/
theorem length_package_lt {m : MessageHeader} {d : MessageDecl}
    (hd : DeclaredAs files l.sources i d) (hm : l.inventory.messages[i]? = some m) :
    m.file.package.length < m.fullName.length := by
  have hlength (scope name : String) (hname : name ≠ "") :
      scope.length < (join scope name).length := by
    have hpos : 0 < name.length := Nat.pos_of_ne_zero fun hzero =>
      hname (String.length_eq_zero_iff.mp hzero)
    unfold join
    split_ifs with hempty
    · rw [show scope = "" by simpa using hempty]
      exact hpos
    · rw [String.length_append, String.length_append]
      omega
  induction hd generalizing m with
  | top hs _ hparent =>
    obtain rfl := Option.some.inj ((getElem?_sources hm).symm.trans hs)
    obtain ⟨scope, hscope, hfull⟩ := h.coherent.nested.messages m (List.mem_of_getElem? hm)
    rw [show m.parent = none from hparent] at hscope
    rw [hfull, show scope = m.file.package from hscope]
    exact hlength _ _ (h.isPart_name hm).1
  | nested hs _ hparent _ _ ih =>
    obtain rfl := Option.some.inj ((getElem?_sources hm).symm.trans hs)
    obtain ⟨scope, hscope, hfull⟩ := h.coherent.nested.messages m (List.mem_of_getElem? hm)
    rw [show m.parent = some _ from hparent] at hscope
    obtain ⟨outer, houter, rfl, hfile⟩ := hscope
    rw [hfull, ← hfile]
    exact (ih houter).trans (hlength _ _ (h.isPart_name hm).1)

theorem fullName_ne_empty {m : MessageHeader} (hm : l.inventory.messages[i]? = some m) :
    m.fullName ≠ "" := by
  obtain ⟨scope, -, hfull⟩ := h.coherent.nested.messages m (List.mem_of_getElem? hm)
  exact hfull ▸ join_ne_empty (h.isPart_name hm).1

/-- A message that has a name in the scope of another one, in the same file, is nested in it. -/
theorem nested_of_fullName {m e : MessageHeader} {d : MessageDecl} {j : Nat} {name : String}
    (hd : DeclaredAs files l.sources i d) (hm : l.inventory.messages[i]? = some m)
    (he : l.inventory.messages[j]? = some e) (hfile : e.file = m.file) (hname : IsPart name)
    (hfull : e.fullName = join m.fullName name) : e.parent = some i ∧ e.name = name := by
  obtain ⟨scope, hscope, hfull'⟩ := h.coherent.nested.messages e (List.mem_of_getElem? he)
  have hpart := h.isPart_name he
  have hjoin : join scope e.name = join m.fullName name := hfull'.symm.trans hfull
  have hsame : scope = m.fullName := by
    have henclosing : enclosing (join scope e.name) = scope :=
      enclosing_join (point_notMem_of_isPart hpart)
    rw [← henclosing, hjoin, enclosing_join (point_notMem_of_isPart hname)]
  refine ⟨?_, ?_⟩
  · cases hparent : e.parent with
    | none =>
      rw [hparent] at hscope
      have hlt := h.length_package_lt hd hm
      rw [← hfile, ← show scope = e.file.package from hscope, hsame] at hlt
      exact absurd hlt (Nat.lt_irrefl _)
    | some p =>
      rw [hparent] at hscope
      obtain ⟨outer, houter, hname', -⟩ := hscope
      exact congrArg Definition.place (h.coherent.indexed.eq_of_fullName
        (h.coherent.indexed.messageDefinition_mem houter)
        (h.coherent.indexed.messageDefinition_mem hm) (hname'.trans hsame))
  · rw [← hpart.lastPart, ← lastPart_join scope, hjoin, lastPart_join, hname.lastPart]

end Known

/-- A field that files behind `before` do not add belongs to a message whose nested messages have
their names taken by the end of these files. -/
theorem isSome_definition?_of_field {before after : List SchemaFile}
    (hnames : ((before ++ after).map (·.name)).Nodup)
    (hgrows : GrowsFrom (∃ g ∈ after, · = g.scope) (ofFiles before) (ofFiles (before ++ after)))
    {e : FieldEntry} (he : e ∈ (ofFiles (before ++ after)).inventory.fields)
    (howner : e.owner = some i) (hearly : ∀ g ∈ after, e.file ≠ g.scope) {m : MessageHeader}
    (hm : (ofFiles (before ++ after)).inventory.messages[i]? = some m) {d x : MessageDecl}
    (hd : DeclaredAs (before ++ after) (ofFiles (before ++ after)).sources i d)
    (hx : x ∈ d.messages) : ((ofFiles before).definition? (join m.fullName x.name)).isSome := by
  have he' : e ∈ (ofFiles before).inventory.fields := by
    obtain ⟨added, hfields, hadded⟩ := hgrows.fields
    rw [hfields] at he
    refine (List.mem_append.mp he).resolve_right fun hlate => ?_
    obtain ⟨g, hg, hscope⟩ := hadded e hlate
    exact hearly g hg hscope
  have hsame {m'} (hm' : (ofFiles before).inventory.messages[i]? = some m') : m' = m := by
    have hlater := getElem?_of_prefix hgrows.messages hm'
    exact Option.some.inj (hlater.symm.trans hm)
  rcases (provided_ofFiles (List.subset_append_left before after)).fields e he' i howner with
    ⟨m', d', hm', hd', htaken⟩ | ⟨m', hm', hentry⟩
  · obtain rfl := hsame hm'
    obtain rfl := (hd'.mono (hgrows.messages.map _)).unique hnames hd
    exact htaken x hx
  · obtain rfl := hsame hm'
    exact absurd (not_mapEntry_of_declaredAs hd hm) (by simp [hentry])

/-- In the scope of a message that has a field, the names of the messages declared in it stand for
things of the same file, or for packages. -/
theorem exists_owned (hread : ∀ f ∈ files, f.IsRead) (hnames : (files.map (·.name)).Nodup)
    {e : FieldEntry} (he : e ∈ (ofFiles files).inventory.fields) (howner : e.owner = some i)
    {m : MessageHeader} (hm : (ofFiles files).inventory.messages[i]? = some m) {d x : MessageDecl}
    (hd : DeclaredAs files (ofFiles files).sources i d) (hx : x ∈ d.messages) :
    ∃ D ∈ (ofFiles files).definitions, D.fullName = join m.fullName x.name ∧
      (D.kind = .package ∨ D.file = some m.file.name) := by
  have hknown := known_ofFiles hread hnames
  -- the file of the message, and the files before and behind it
  have hfile : m.file ∈ files.map SchemaFile.scope :=
    files_ofFiles hnames ▸ hknown.coherent.unlinked.inventory.messages m (List.mem_of_getElem? hm)
  obtain ⟨f, hf, hfm⟩ := List.mem_map.mp hfile
  have hfname : f.name = m.file.name := hfm ▸ rfl
  obtain ⟨before, after, rfl⟩ := List.append_of_mem hf
  have hunequal : ∀ g ∈ before ++ after, g.name ≠ f.name := by
    have hperm : ((before ++ f :: after).map (·.name)).Perm
        ((f :: (before ++ after)).map (·.name)) := List.perm_middle.map _
    have hnodup := hperm.nodup_iff.mp hnames
    rw [List.map_cons, List.nodup_cons] at hnodup
    exact fun g hg hname => hnodup.1 (hname ▸ List.mem_map_of_mem hg)
  have hold : GrowsFrom (∃ g ∈ f :: after, · = g.scope) (ofFiles before)
      (ofFiles (before ++ f :: after)) := growsFrom_ofFiles before (f :: after)
  rw [List.append_cons] at *
  have hnew := growsFrom_ofFiles (before ++ [f]) after
  -- the message has its field by the end of its file, and so the name is taken by then
  have hearly : ∀ g ∈ after, e.file ≠ g.scope := fun g hg hscope => by
    have hsame := congrArg FieldEntry.file (hknown.coherent.eq_entry he hm howner)
    have hname : g.scope = m.file := hscope.symm.trans hsame
    exact hunequal g (by simp [hg]) ((congrArg FileScope.name hname).trans hfname.symm)
  have htaken := isSome_definition?_of_field hnames hnew he howner hearly hm hd hx
  obtain ⟨D, hD⟩ := Option.isSome_iff_exists.mp htaken
  have hfull := fullName_of_definition? hD
  have hmem : D ∈ (ofFiles (before ++ [f])).definitions := List.mem_of_find?_eq_some hD
  refine ⟨D, hnew.definitions.subset hmem, hfull, ?_⟩
  rw [ofFiles_append_singleton] at hmem
  rw [← hfname]
  refine (owned_of_mem_declare hmem).resolve_left fun hearly => ?_
  -- before this file the name of the message was free, and nothing stood in its scope
  have hworded : ∀ g ∈ before, g.Worded := fun g hg => by
    obtain ⟨text, hparse⟩ := hread g (by simp [hg])
    exact SchemaFile.worded_of_parse hparse
  have hopen := founded_ofFiles hworded D hearly
  rw [hfull, enclosing_join (hknown.isWord_of_mem hd hx).point_notMem] at hopen
  obtain ⟨D', hD'⟩ := Option.isSome_iff_exists.mp
    (hopen.resolve_left (hknown.fullName_ne_empty hm))
  have hmem' : D' ∈ (ofFiles before).definitions := List.mem_of_find?_eq_some hD'
  obtain rfl := hknown.coherent.indexed.eq_of_fullName (hold.definitions.subset hmem')
    (hknown.coherent.indexed.messageDefinition_mem hm) (fullName_of_definition? hD')
  obtain ⟨g, hg, hgname⟩ := exists_file_of_mem hmem' (by simp [Inventory.messageDefinition])
  exact hunequal g (by simp [hg]) ((Option.some.inj hgname).symm.trans hfname.symm)

/-! ## The links of groups -/

namespace Known

variable (h : Known files l)
include h

/-- A group that was kept has been entered as it is declared. -/
theorem decl_eq_of_group {f : FieldDecl} {type : String} {e : FieldEntry}
    (hf : Accepts files l i f) (hshape : f.shape = .group type) (hfield : l.FieldAt k i e.decl)
    (hname : e.decl.name = f.name) : e.decl = f := by
  obtain ⟨e', he', -⟩ := id hfield
  cases h.traced.fields k (List.getElem?_eq_some_iff.mp he').1 with
  | plain haccepted _ hfield' =>
    obtain ⟨rfl, hdecl⟩ := hfield'.unique hfield
    exact h.eq_of_accepts (hdecl ▸ haccepted) hf hname
  | @map b hb hk =>
    obtain ⟨rfl, hdecl⟩ := (hk ▸ hb.field).unique hfield
    rw [← hdecl] at hname
    have hsame : b.field = f := h.eq_of_accepts hb.accepted hf hname
    exact absurd (hb.shape.symm.trans (hsame ▸ hshape)) (by simp)
  | key hb hk => exact absurd (((hk ▸ hb.key).unique hfield).1).symm (hf.ne_entry hb)
  | value hb hk => exact absurd (((hk ▸ hb.value).unique hfield).1).symm (hf.ne_entry hb)

end Known

end Linker

namespace Tables

variable (t : Tables) (files : List SchemaFile)

/-- A field of the message at place `i` is linked, as a group, to the record of a message that is
nested in that message and declared as `b`. -/
def LinksTo (i : Nat) (r : FieldRecord) (b : MessageDecl) : Prop :=
  ∃ (j : Nat) (e : MessageRecord), t.messages[j]? = some e ∧ e.parent = some i ∧
    DeclaredAs files (t.messages.toList.map MessageRecord.source) j b ∧
      r.type = .group ∧ r.messageType = some j ∧ r.enumType = none

/-- A field is not linked to anything, and the message at place `i` has no message of that name in
it. -/
def LacksBody (i : Nat) (r : FieldRecord) (name : String) : Prop :=
  (r.type = .unresolved ∧ r.messageType = none ∧ r.enumType = none) ∧
    ∀ (j : Nat) e, t.messages[j]? = some e → e.parent = some i → e.name ≠ name

end Tables

namespace Linker

variable {files : List SchemaFile} {l l' : Linker} {i k : Nat} {f : FieldDecl} {type : String}

/-- What the first name that a group may stand for means: something that is seen from the group, since
it belongs to the same file or is a package. -/
theorem meaning?_of_owned (hnames : (files.map (·.name)).Nodup) {scope : String} {file : FileScope}
    {d : Definition} (hd : d ∈ (ofFiles files).definitions)
    (howned : d.kind = .package ∨ d.file = some file.name) (htype : ¬ IsPointed type)
    (hfull : d.fullName = join scope type) :
    (ofFiles files).meaning? scope type file = some d := by
  refine (coherent_ofFiles hnames).meaning?_of_seen hd ?_ (hfull ▸ head?_candidates htype scope)
  rcases howned with hkind | hfile
  · have hnone : d.file = none := by
      by_contra hsome
      exact ((located_ofFiles hnames d hd).mpr (Option.isSome_iff_ne_none.mpr hsome)) hkind
    simp [Definition.seenIn, hnone]
  · simp [Definition.seenIn, hfile, visibleFrom]

/-- A definition in the scope of a message, of the same file, that a message of this name is declared
for, is that of the first such message if it is a message at all. -/
theorem exists_message_of_owned (hread : ∀ f ∈ files, f.IsRead) (hnames : (files.map (·.name)).Nodup)
    {m : MessageHeader} {d b : MessageDecl} {D : Definition}
    (hm : (ofFiles files).inventory.messages[i]? = some m)
    (hd : DeclaredAs files (ofFiles files).sources i d) (hb : b ∈ d.messages)
    (hD : D ∈ (ofFiles files).definitions) (howned : D.file = some m.file.name)
    (hfull : D.fullName = join m.fullName b.name) (hkind : D.kind = .message) :
    ∃ j e, (ofFiles files).inventory.messages[j]? = some e ∧ D.place = some j ∧
      e.parent = some i ∧ ∃ first, DeclaredAs files (ofFiles files).sources j first ∧
        d.messages.find? (·.name = b.name) = some first := by
  have hknown := known_ofFiles hread hnames
  obtain ⟨j, e, he, rfl⟩ := hknown.coherent.indexed.message_of_mem hD hkind
  have hfresh := hknown.coherent.unlinked.inventory.messages
  have hfile : e.file = m.file := List.inj_on_of_nodup_map hknown.coherent.unlinked.files
    (hfresh e (List.mem_of_getElem? he)) (hfresh m (List.mem_of_getElem? hm))
    (Option.some.inj howned)
  obtain ⟨hparent, hname⟩ := hknown.nested_of_fullName hd hm he hfile
    (hknown.isWord_of_mem hd hb).isPart hfull
  have hentry : e.isMapEntry = false := by
    by_contra hentry
    obtain ⟨p, d', hp, hd', hunlike⟩ := (provided_ofFiles (List.Subset.refl files)).entries e
      (List.mem_of_getElem? he) (by simpa using hentry)
    obtain rfl := Option.some.inj (hparent.symm.trans hp)
    obtain rfl := hd.unique hnames hd'
    exact hunlike b hb hname.symm
  obtain ⟨first, hfirst, -⟩ := hknown.sourced.messages j e he hentry
  refine ⟨j, e, he, rfl, hparent, first, hfirst, ?_⟩
  cases hfirst with
  | top hs _ hnone =>
    obtain rfl := Option.some.inj ((getElem?_sources he).symm.trans hs)
    exact absurd (hparent.symm.trans hnone) (by simp)
  | nested hs _ hp hd' hfind =>
    obtain rfl := Option.some.inj ((getElem?_sources he).symm.trans hs)
    obtain rfl := Option.some.inj (hparent.symm.trans hp)
    obtain rfl := hd.unique hnames hd'
    rwa [← hname]

/-- The link of a group whose name is no scalar type: to the first message of its name that is declared
beside it, if this was entered, and to nothing else. -/
theorem links_of_group (hread : ∀ f ∈ files, f.IsRead) (hnames : (files.map (·.name)).Nodup)
    {e : FieldEntry} {m : MessageHeader} {d b first : MessageDecl}
    (he : (ofFiles files).inventory.fields[k]? = some e) (howner : e.owner = some i)
    (hm : (ofFiles files).inventory.messages[i]? = some m)
    (hd : DeclaredAs files (ofFiles files).sources i d) (hshape : e.decl.shape = .group b.name)
    (hb : b ∈ d.messages) (hscalar : FieldType.scalar? b.name = none)
    (hfirst : d.messages.find? (·.name = b.name) = some first) :
    (ofFiles files).linkedTables.LinksTo files i ((ofFiles files).recordOf e) first ∨
      (ofFiles files).linkedTables.LacksBody i ((ofFiles files).recordOf e) b.name := by
  have hknown := known_ofFiles hread hnames
  have hmem := List.mem_of_getElem? he
  have hword := hknown.isWord_of_mem hd hb
  obtain ⟨D, hD, hfull, howned⟩ := exists_owned hread hnames hmem howner hm hd hb
  have hmeaning := meaning?_of_owned hnames hD howned hword.isPart.not_isPointed hfull
  have hlink : ((ofFiles files).linked e).link = (typeLinkOf D true).getD
      { TypeLink.unresolved with typeName := b.name } := by
    have heq := hknown.coherent.eq_entry hmem hm howner
    have hscope : e.scope = m.fullName := congrArg FieldEntry.scope heq
    have hfile : e.file = m.file := congrArg FieldEntry.file heq
    have hname : e.decl.typeName = b.name := by simp [FieldDecl.typeName, hshape]
    have hgroup : e.decl.isGroup = true := by simp [FieldDecl.isGroup, hshape]
    simp only [linked, typeLink?, hname, hscalar, hscope, hfile, hmeaning, hgroup, Option.bind_some]
  by_cases hkind : D.kind = .message
  · -- a message of the file that has this name is the first one that is declared under it
    have hfile : D.file = some m.file.name := howned.resolve_left (by simp [hkind])
    obtain ⟨j, h, hh, hplace, hparent, first', hdeclared, hfirst'⟩ :=
      exists_message_of_owned hread hnames hm hd hb hD hfile hfull hkind
    obtain rfl := Option.some.inj (hfirst'.symm.trans hfirst)
    rw [show typeLinkOf D true = some ⟨.group, D.fullName, D.place, none⟩ by
      simp only [typeLinkOf, hkind], Option.getD_some, hplace] at hlink
    exact .inl ⟨j, _, getElem?_linkedTables_message hh, hparent,
      sources_linkedTables (ofFiles files) ▸ hdeclared, congrArg TypeLink.type hlink,
      congrArg TypeLink.messageType hlink, congrArg TypeLink.enumType hlink⟩
  · rw [show typeLinkOf D true = none by unfold typeLinkOf; split <;> simp_all,
      Option.getD_none] at hlink
    refine .inr ⟨⟨congrArg TypeLink.type hlink, congrArg TypeLink.messageType hlink,
      congrArg TypeLink.enumType hlink⟩, fun j r hr hparent hname => hkind ?_⟩
    -- a message of this name in the message would have been what the name stands for
    obtain ⟨h, hh, rfl⟩ : ∃ h, (ofFiles files).inventory.messages[j]? = some h ∧
        (ofFiles files).linkedMessage j h = r := by
      simpa [linkedTables] using hr
    obtain ⟨scope, hscope, hfull'⟩ := hknown.coherent.nested.messages h (List.mem_of_getElem? hh)
    rw [show h.parent = some i from hparent] at hscope
    obtain ⟨m', hm', rfl, -⟩ := hscope
    obtain rfl := Option.some.inj (hm.symm.trans hm')
    have hsame : h.fullName = D.fullName := by rw [hfull', hfull, show h.name = b.name from hname]
    exact congrArg Definition.kind (hknown.coherent.indexed.eq_of_fullName hD
      (hknown.coherent.indexed.messageDefinition_mem hh) hsame.symm)

/-- Whatever files are linked that have been read, one of each name: when linking gives tables, every
field that was kept and is declared as a group has one body, which is declared in the message of the
field, at the place of the field and under its name. If the group has the name of a scalar type, the
field is of this type. Otherwise it is a group, and linked to the record of the first message of this
name that its message declares, nested in this message; or nothing of this name is nested there, and
the field is not linked. -/
theorem groups_of_link {t : Tables} (hread : ∀ f ∈ files, f.IsRead)
    (hnames : (files.map (·.name)).Nodup) (hlink : (ofFiles files).link = (l, .ok t))
    {r : FieldRecord} (hkeeps : t.Keeps files k i r f) (hshape : f.shape = .group type) :
    ∃ d b, DeclaredAs files (t.messages.toList.map MessageRecord.source) i d ∧ f ∈ d.fields ∧
      b.name = type ∧ (∀ x, d.IsBodyOf f x ↔ x = b) ∧
      (∀ s, FieldType.scalar? type = some s →
        r.type = s ∧ r.messageType = none ∧ r.enumType = none) ∧
      (FieldType.scalar? type = none → ∀ first, d.messages.find? (·.name = type) = some first →
        t.LinksTo files i r first ∨ t.LacksBody i r type) := by
  obtain ⟨rfl, -⟩ := (coherent_ofFiles hnames).eq_linkedTables hlink
  obtain ⟨e, he, rfl, hfield, hname, haccepted⟩ := exists_entry_of_keeps hkeeps
  have hdecl := (known_ofFiles hread hnames).decl_eq_of_group haccepted hshape hfield hname
  obtain ⟨e', he', howner, -⟩ := hfield
  obtain rfl := Option.some.inj (he.symm.trans he')
  obtain ⟨m, d, hm, hd, hmem⟩ := haccepted
  have hmem : f ∈ d.fields := FieldRules.accepted_subset _ _ hmem
  have hbodied : d.Forall fun m => ∀ x ∈ m.fields, ∀ type, x.shape = .group type →
      ∃ b, m.IsBodyOf x b ∧ b.name = type ∧ ∀ y, m.IsBodyOf x y → y = b :=
    hd.forall fun file hfile => by
      obtain ⟨text, hparse⟩ := hread file hfile
      exact SchemaFile.bodied_of_parse hparse
  obtain ⟨b, hb, rfl, hunique⟩ := hbodied.self f hmem type hshape
  refine ⟨d, b, sources_linkedTables (ofFiles files) ▸ hd, hmem, rfl,
    fun x => ⟨hunique x, fun hx => hx ▸ hb⟩, fun s hs => ?_, fun hscalar first hfirst =>
      links_of_group hread hnames he howner hm hd (hdecl ▸ hshape) hb.1 hscalar hfirst⟩
  have hlinked : ((ofFiles files).linked e).link = ⟨s, b.name, none, none⟩ := by
    have htype : e.decl.typeName = b.name := by simp [FieldDecl.typeName, hdecl, hshape]
    simp only [linked, typeLink?, htype, hs, Option.getD_some]
  exact ⟨congrArg TypeLink.type hlinked, congrArg TypeLink.messageType hlinked,
    congrArg TypeLink.enumType hlinked⟩

/-- What holds of a field that was entered into the one message of a file. -/
theorem exists_keeps_of_file (file : SchemaFile) (d : MessageDecl) (k : Nat) (f : FieldDecl)
    (hmessages : file.messages = [d])
    (hmessage : ((ofFiles [file]).inventory.messages[0]?).map (fun m => (m.source, m.fullName)) =
      some (⟨d.name, file.name, none, false⟩, d.name))
    (hfield : ((ofFiles [file]).inventory.fields[k]?).map (fun e => (e.owner, e.decl.name)) =
      some (some 0, f.name)) (hf : f ∈ d.accepted d.name) :
    DeclaredAs [file] (ofFiles [file]).sources 0 d ∧
      ∃ r, (ofFiles [file]).linkedTables.Keeps [file] k 0 r f := by
  obtain ⟨m, hm, hsource⟩ := Option.map_eq_some_iff.mp hmessage
  obtain ⟨e, he, hentry⟩ := Option.map_eq_some_iff.mp hfield
  obtain ⟨hsource, hfull⟩ := Prod.mk.inj hsource
  obtain ⟨howner, hname⟩ := Prod.mk.inj hentry
  have hd : DeclaredAs [file] (ofFiles [file]).sources 0 d :=
    .top (hsource ▸ getElem?_sources hm) rfl rfl (List.mem_singleton_self file) rfl
      (by simp [hmessages])
  exact ⟨hd, _, keeps_of_accepts he howner hname ⟨m, d, hm, hd, hfull ▸ hf⟩⟩

theorem groups_of_link_sample :
    let file := Sample.groupFile "a.proto"
    (∀ f ∈ [file], f.IsRead) ∧ ([file].map (·.name)).Nodup ∧
      ∃ l t r f, (ofFiles [file]).link = (l, .ok t) ∧ t.Keeps [file] 0 0 r f ∧
        f.shape = .group "G" ∧
        ∃ d b, DeclaredAs [file] (t.messages.toList.map MessageRecord.source) 0 d ∧ f ∈ d.fields ∧
          b.name = "G" ∧ (∀ x, d.IsBodyOf f x ↔ x = b) ∧
          (∀ s, FieldType.scalar? "G" = some s →
            r.type = s ∧ r.messageType = none ∧ r.enumType = none) ∧
          (FieldType.scalar? "G" = none → ∀ first, d.messages.find? (·.name = "G") = some first →
            t.LinksTo [file] 0 r first ∨ t.LacksBody 0 r "G") := by
  intro file
  have hread : ∀ f ∈ [file], f.IsRead := fun f hf =>
    List.mem_singleton.mp hf ▸ ⟨_, SchemaFile.parse_groupLexemes "a.proto"⟩
  have hnames : ([file].map (·.name)).Nodup := List.nodup_singleton _
  let f : FieldDecl := ⟨"g", 1, .group "G", some .optional, [], none, ⟨1, 28⟩⟩
  let d : MessageDecl := ⟨"M", [f], [⟨"G", [], [], [], [], [], [], [], [], [], ⟨1, 28⟩⟩], [], [], [],
    [], [], [], [], ⟨1, 9⟩⟩
  obtain ⟨l, t, hlink⟩ := exists_tables (l := ofFiles [file]) (by decide +kernel)
  obtain ⟨-, r, hkeeps⟩ := exists_keeps_of_file file d 0 f rfl (by decide +kernel)
    (by decide +kernel) (by with_unfolding_all exact List.mem_singleton_self f)
  rw [← ((coherent_ofFiles hnames).eq_linkedTables hlink).1] at hkeeps
  exact ⟨hread, hnames, l, t, r, f, hlink, hkeeps, rfl,
    groups_of_link hread hnames hlink hkeeps rfl⟩

end Linker

namespace Sample

/-- The lexemes of a file with a message that holds another message before a group of its name, and a
group with the name of a scalar type. -/
def clashLexemes : List Lexed :=
  [(.keyword .kwMessage, ['m', 'e', 's', 's', 'a', 'g', 'e']), (.name, ['M']),
    (.mark .lbrace, ['\x7b']), (.keyword .kwMessage, ['m', 'e', 's', 's', 'a', 'g', 'e']),
    (.name, ['G']), (.mark .lbrace, ['\x7b']), (.mark .rbrace, ['\x7d']),
    (.keyword .kwOptional, ['o', 'p', 't', 'i', 'o', 'n', 'a', 'l']),
    (.keyword .kwGroup, ['g', 'r', 'o', 'u', 'p']), (.name, ['G']), (.mark .equal, ['=']),
    (.int, ['1']), (.mark .lbrace, ['\x7b']), (.mark .rbrace, ['\x7d']),
    (.keyword .kwOptional, ['o', 'p', 't', 'i', 'o', 'n', 'a', 'l']),
    (.keyword .kwGroup, ['g', 'r', 'o', 'u', 'p']), (.name, ['i', 'n', 't', '3', '2']),
    (.mark .equal, ['=']), (.int, ['2']), (.mark .lbrace, ['\x7b']), (.mark .rbrace, ['\x7d']),
    (.mark .rbrace, ['\x7d'])]

/-- The tree of this file. -/
def clashTree : Tree (.nonterminal .schemaFile) :=
  let group (name number : List Char) (label word name' equal number' left right : Nat) :
      Tree (.part .messageItem) :=
    .node ⟨.messageItem, 1⟩ (.cons (.node ⟨.groupDecl, 3⟩ (.cons (optionalAt label)
      (.cons (leafAt (.keyword .kwGroup) ['g', 'r', 'o', 'u', 'p'] word) (.cons (wordAt name name')
        (.cons (leafAt (.mark .equal) ['='] equal) (.cons (numberAt number number')
          (.cons (leafAt (.mark .lbrace) ['\x7b'] left)
            (.cons (leafAt (.mark .rbrace) ['\x7d'] right) .nil)))))))) .nil)
  let message : Tree (.part .messageItem) := .node ⟨.messageItem, 4⟩ (.cons
    (.node ⟨.messageDecl, 1⟩
      (.cons (leafAt (.keyword .kwMessage) ['m', 'e', 's', 's', 'a', 'g', 'e'] 13)
        (.cons (wordAt ['G'] 21) (.cons (leafAt (.mark .lbrace) ['\x7b'] 23)
          (.cons (leafAt (.mark .rbrace) ['\x7d'] 25) .nil))))) .nil)
  let items : Tree (.part .messageItems) := .node ⟨.messageItems, 1⟩
    (.cons (.node ⟨.messageItems, 1⟩ (.cons (.node ⟨.messageItems, 0⟩ (.cons message .nil))
      (.cons (group ['G'] ['1'] 27 36 42 44 46 48 50) .nil)))
      (.cons (group ['i', 'n', 't', '3', '2'] ['2'] 52 61 67 73 75 77 79) .nil))
  .node .bareFile (.cons (.node .firstItem (.cons (messageAt items 81) .nil)) .nil)

/-- The first group. -/
def clashGroup : FieldDecl := ⟨"g", 1, .group "G", some .optional, [], none, ⟨1, 42⟩⟩

/-- The second group. -/
def scalarGroup : FieldDecl := ⟨"int32", 2, .group "int32", some .optional, [], none, ⟨1, 67⟩⟩

/-- A message without anything in it, in the first line. -/
def bareMessage (name : String) (column : Nat) : MessageDecl :=
  ⟨name, [], [], [], [], [], [], [], [], [], ⟨1, column⟩⟩

/-- The message with the groups. -/
def clashMessage : MessageDecl :=
  ⟨"M", [clashGroup, scalarGroup], [bareMessage "G" 21, bareMessage "G" 42, bareMessage "int32" 67],
    [], [], [], [], [], [], [], ⟨1, 9⟩⟩

/-- The file with this message. -/
def clashFile (name : Text) : SchemaFile := ⟨name, .proto2, none, [], [clashMessage], [], [], [], []⟩

end Sample

theorem SchemaFile.parse_clashLexemes (name : Text) :
    SchemaFile.parse name (Lexed.spaced Sample.clashLexemes) = .ok (Sample.clashFile name) := by
  have hvalue : Sample.clashTree.value = .ok (Sample.clashFile "") := by
    with_unfolding_all rfl
  exact parse_spaced_tree (by decide) (by decide) hvalue rfl name

namespace Linker

/-- A group need not lead to its body: it leads to a message of its name that is declared before it,
which takes the name, and a group with the name of a scalar type is of that type although its body has
been entered. -/
theorem groups_without_their_bodies :
    ∃ file : SchemaFile, file.IsRead ∧ ∃ l t, (ofFiles [file]).link = (l, .ok t) ∧
      let sources := t.messages.toList.map MessageRecord.source
      ∃ d, DeclaredAs [file] sources 0 d ∧
        (∃ k r f first, t.Keeps [file] k 0 r f ∧ f.shape = .group "G" ∧
          t.LinksTo [file] 0 r first ∧ ¬ d.IsBodyOf f first) ∧
        ∃ k r f j b, t.Keeps [file] k 0 r f ∧ f.shape = .group "int32" ∧ d.IsBodyOf f b ∧
          DeclaredAs [file] sources j b ∧ r.type = .int32 ∧ r.messageType = none := by
  let file := Sample.clashFile "a.proto"
  have hnames : ([file].map (·.name)).Nodup := List.nodup_singleton _
  obtain ⟨l, t, hlink⟩ := exists_tables (l := ofFiles [file]) (by decide +kernel)
  have hmessage : ((ofFiles [file]).inventory.messages[0]?).map (fun m => (m.source, m.fullName)) =
      some (⟨"M", "a.proto", none, false⟩, "M") := by
    decide +kernel
  obtain ⟨hd, r, hr⟩ := exists_keeps_of_file file Sample.clashMessage 0 Sample.clashGroup rfl
    hmessage (by decide +kernel) (by with_unfolding_all exact List.mem_cons_self)
  obtain ⟨-, r', hr'⟩ := exists_keeps_of_file file Sample.clashMessage 1 Sample.scalarGroup rfl
    hmessage (by decide +kernel)
    (by with_unfolding_all exact List.mem_cons_of_mem _ List.mem_cons_self)
  have hsources : (ofFiles [file]).sources = [⟨"M", "a.proto", none, false⟩,
      ⟨"G", "a.proto", some 0, false⟩, ⟨"int32", "a.proto", some 0, false⟩] := by
    decide +kernel
  have hfirst : DeclaredAs [file] (ofFiles [file]).sources 1 (Sample.bareMessage "G" 21) :=
    .nested (s := ⟨"G", "a.proto", some 0, false⟩) (by rw [hsources]; rfl) rfl rfl hd
      (by with_unfolding_all rfl)
  have hbody : DeclaredAs [file] (ofFiles [file]).sources 2 (Sample.bareMessage "int32" 67) :=
    .nested (s := ⟨"int32", "a.proto", some 0, false⟩) (by rw [hsources]; rfl) rfl rfl hd
      (by with_unfolding_all rfl)
  have hlinks : (ofFiles [file]).linkedTables.fields.toList.map
      (fun r => (r.type, r.messageType, r.enumType)) =
        [(.group, some 1, none), (.int32, none, none)] := by
    decide +kernel
  have hlink₀ := congrArg (·[0]?) hlinks
  have hlink₁ := congrArg (·[1]?) hlinks
  simp only [List.getElem?_map, Array.getElem?_toList, hr.record, hr'.record] at hlink₀ hlink₁
  simp only [Option.map_some, List.getElem?_cons_zero, List.getElem?_cons_succ, Option.some.injEq,
    Prod.mk.injEq] at hlink₀ hlink₁
  have hsecond : ((ofFiles [file]).linkedTables.messages[1]?).map (·.parent) = some (some 0) := by
    decide +kernel
  obtain ⟨e, he, hparent⟩ := Option.map_eq_some_iff.mp hsecond
  rw [← sources_linkedTables] at hd hfirst hbody
  rw [← ((coherent_ofFiles hnames).eq_linkedTables hlink).1] at *
  refine ⟨file, ⟨_, SchemaFile.parse_clashLexemes "a.proto"⟩, l, t, hlink, Sample.clashMessage, hd,
    ⟨0, r, Sample.clashGroup, _, hr, rfl, ⟨1, e, he, hparent, hfirst, hlink₀⟩, ?_⟩,
    1, r', Sample.scalarGroup, 2, _, hr', rfl, ⟨?_, rfl⟩, hbody, hlink₁.1, hlink₁.2.1⟩
  · rintro ⟨-, hposition⟩
    exact absurd hposition (by decide)
  · exact List.mem_cons_of_mem _ (List.mem_cons_of_mem _ List.mem_cons_self)

end Linker

end ProtoSchema
