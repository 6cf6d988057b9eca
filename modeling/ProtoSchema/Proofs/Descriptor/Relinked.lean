import ProtoSchema.Proofs.Descriptor.Reparsed
import ProtoSchema.Proofs.Linker.Repeated
import ProtoSchema.Proofs.Tables.Maps
import ProtoSchema.Proofs.Token.Cut

/-!
# Rendered messages that are linked again

The text of the only message of a file, linked alone, tells the message again: the tables have the same
messages, fields and enums at the same places (`Linker.retold_of_render`). That there are no problems
asks for enums whose values have different numbers, since the text has no options, and for enums that
are nested in the message, since nothing else is in the text. Groups come back as fields of the type of
their messages, and what else may change is shown at files of a few words
(`Linker.altered_by_rendering`).
-/

namespace ProtoSchema

open Dotted

/-! ## Outlines of one message -/

/-- The file that declares one message and nothing else. -/
def SchemaFile.ofMessage (name : Text) (d : MessageDecl) : SchemaFile :=
  ⟨name, .proto2, none, [], [d], [], [], [], []⟩

theorem FileScope.packageOutline_of_none {file : FileScope} (h : file.package = "") :
    file.packageOutline = .empty := by
  have hpackages : packages "" = [] := by decide +kernel
  rw [packageOutline, h, hpackages]
  rfl

/-- The outline of a file without a package and with one message starts with that of the message. What
comes behind it has no messages and no fields, and nothing in it is nested. -/
theorem SchemaFile.exists_outline_of_message {f : SchemaFile} {m : MessageDecl}
    (hpackage : f.package = none) (hmessages : f.messages = [m]) :
    ∃ others, f.outline = m.outline f.scope "" false ++ others ∧ others.messages = [] ∧
      others.fields = [] ∧ ∀ e ∈ others.enums, e.isNested = false := by
  have hscope : f.scope.package = "" := by simp [SchemaFile.scope, hpackage]
  refine ⟨.flatten (f.enums.map (EnumDecl.outline f.scope "" false)) ++
      (.flatten (f.extendBlocks.map (ExtendDecl.outline f.scope "")) ++
        .flatten (f.services.map (ServiceDecl.outline f.scope))), ?_, ?_, ?_, ?_⟩
  · rw [SchemaFile.outline, FileScope.packageOutline_of_none hscope, hscope, hmessages,
      Outline.empty_append, MessageDecl.outlineAll, MessageDecl.outlineAll, Outline.append_empty]
  · simp [Outline.flatten, List.flatMap_map, EnumDecl.outline, ExtendDecl.outline,
      ServiceDecl.outline, MethodDecl.outline, Outline.empty]
  · simp [Outline.flatten, List.flatMap_map, EnumDecl.outline, ExtendDecl.outline,
      ServiceDecl.outline, MethodDecl.outline, Outline.empty]
  · simp only [Outline.flatten, List.flatMap_map, EnumDecl.outline, ExtendDecl.outline,
      ServiceDecl.outline, MethodDecl.outline, Outline.empty, Outline.append_enums]
    simp +contextual

mutual

/-- All enums of the outline of a message are nested. -/
theorem MessageDecl.isNested_enums {file : FileScope} {scope : String} {isNested : Bool} :
    (m : MessageDecl) → ∀ e ∈ (m.outline file scope isNested).enums, e.isNested = true
  | ⟨_, fields, messages, enums, extendBlocks, _, _, _, _, _, _⟩ => by
    have hfield (file : FileScope) (scope : String) (g : FieldDecl) :
        (g.outline file scope).enums = [] := by
      unfold FieldDecl.outline
      split <;> rfl
    have hmessages (scope : String) :
        ∀ e ∈ (MessageDecl.outlineAll file scope true messages).enums, e.isNested = true :=
      MessageDecl.isNested_enumsAll messages
    rw [MessageDecl.outline]
    simp only [Outline.append_enums, List.forall_mem_append]
    refine ⟨?_, ?_, hmessages _, ?_, ?_⟩
    · exact List.forall_mem_nil _
    · simp +contextual [Outline.flatten, List.flatMap_map, EnumDecl.outline]
    · simp [Outline.flatten, List.flatMap_map, hfield]
    · simp [Outline.flatten, List.flatMap_map, ExtendDecl.outline, Outline.empty]

theorem MessageDecl.isNested_enumsAll {file : FileScope} {scope : String} {isNested : Bool} :
    (ms : List MessageDecl) →
      ∀ e ∈ (MessageDecl.outlineAll file scope isNested ms).enums, e.isNested = true
  | [] => List.forall_mem_nil _
  | m :: ms => by
    rw [MessageDecl.outlineAll, Outline.append_enums, List.forall_mem_append]
    exact ⟨MessageDecl.isNested_enums m, MessageDecl.isNested_enumsAll ms⟩

end

theorem SchemaFile.outline_ofMessage (name : Text) (d : MessageDecl) :
    (ofMessage name d).outline = d.outline (ofMessage name d).scope "" false := by
  have hscope : (ofMessage name d).scope.package = "" := rfl
  have hempty : Outline.flatten [] = .empty := rfl
  rw [SchemaFile.outline, FileScope.packageOutline_of_none hscope, hscope]
  simp only [ofMessage, List.map_nil, MessageDecl.outlineAll, hempty, Outline.empty_append,
    Outline.append_empty]

/-! ## Declaring the message again -/

/-- Whether definitions fit depends on their kinds and names alone. -/
theorem fits_of_alike {ds ds' : List Definition} (h : ds.Forall₂ Definition.Alike ds')
    (hfits : Fits [] ds) : Fits [] ds' := by
  let key (d : Definition) := (d.kind, d.fullName)
  let Apart (x y : DefinitionKind × String) := x.2 = y.2 → x.1 = .package ∧ y.1 = .package
  have hkeys : ds'.map key = ds.map key :=
    map_eq_map_of_forall₂ (fun _ _ hd => Prod.ext hd.1 hd.2) h
  have hpairwise (ds : List Definition) :
      ds.Pairwise Definition.Compatible ↔ (ds.map key).Pairwise Apart := by
    rw [List.pairwise_map]
    rfl
  refine ⟨(hpairwise ds').mpr ?_, by simp⟩
  rw [hkeys]
  exact (hpairwise ds).mp hfits.1

theorem Outline.ofFiles_singleton (f : SchemaFile) : Outline.ofFiles [f] = f.outline := by
  rw [Outline.ofFiles, List.map_singleton, Outline.flatten_cons, Outline.flatten_nil,
    Outline.append_empty]

/-- Fields of messages refer to enums only if these are nested in messages. -/
def Tables.EnumsNested (t : Tables) : Prop :=
  ∀ r ∈ t.fields, r.extensionScope = none → ∀ k, r.enumType = some k →
    ∃ e, t.enums[k]? = some e ∧ e.parent.isSome

namespace Linker

/-- The tables tell whether fields refer only to enums that are nested in messages. -/
theorem enumsNested_linkedTables {l : Linker} : l.linkedTables.EnumsNested ↔ l.EnumsNested := by
  constructor
  · intro h e he link hlink k hk
    obtain ⟨i, hi⟩ := List.getElem?_of_mem he
    have hrecord := Array.mem_of_getElem? (getElem?_linkedTables_field hi)
    have henum : (l.fieldRecord (l.linked e) none).enumType = some k := by
      simp [fieldRecord, linked, hlink, hk]
    obtain ⟨r, hr, hnested⟩ := h _ hrecord rfl k henum
    rw [linkedTables, List.getElem?_toArray, getElem?_enumRecords, Option.map_eq_some_iff] at hr
    obtain ⟨entry, hentry, rfl⟩ := hr
    exact ⟨entry, by simpa [inventory] using hentry, hnested⟩
  · intro h r hr hscope k hk
    rcases List.mem_append.mp (List.mem_toArray.mp hr) with hr | hr
    · obtain ⟨e, he, rfl⟩ := List.mem_map.mp hr
      have henum : (l.linked e).link.enumType = some k := hk
      cases hlink : l.typeLink? e with
      | none =>
        rw [linked, hlink] at henum
        cases henum
      | some link =>
        rw [linked, hlink, Option.getD_some] at henum
        obtain ⟨entry, hentry, hnested⟩ := h e he link hlink k henum
        exact ⟨_, getElem?_linkedTables_enum hentry, hnested⟩
    · obtain ⟨e, -, rfl⟩ := List.mem_map.mp hr
      cases hscope

/-- One file is declared without problems just if it is tidy and no two of its definitions clash. -/
theorem reports_ofFiles_singleton (f : SchemaFile) :
    (ofFiles [f]).reports = [] ↔ f.Tidy ∧ Fits [] f.outline.definitions := by
  have hclean := (declares_ofFiles [f]).clean
  rw [Outline.ofFiles_singleton, List.forall_mem_singleton] at hclean
  exact hclean

/-- One file is outlined if it is declared without problems. -/
theorem outlined_ofFiles_singleton {f : SchemaFile} (h : (ofFiles [f]).reports = []) :
    (ofFiles [f]).inventory.Outlined f.outline :=
  Outline.ofFiles_singleton f ▸ outlined_ofFiles h

theorem coherent_ofFiles_singleton (f : SchemaFile) : (ofFiles [f]).Coherent :=
  coherent_ofFiles (by simp)

section Message

variable {f : SchemaFile} {m d : MessageDecl} {name : Text}

theorem declared_eq (hpackage : f.package = none) (hmessages : f.messages = [m]) :
    f.declared = m.declared "" := by
  rw [SchemaFile.declared, hmessages, show f.scope.package = "" by simp [SchemaFile.scope, hpackage],
    MessageDecl.declaredAll, MessageDecl.declaredAll, List.append_nil]

theorem tidy_ofMessage : (SchemaFile.ofMessage name d).Tidy ↔ d.Tidy "" := by
  rw [SchemaFile.Tidy, show (SchemaFile.ofMessage name d).messages = [d] from rfl,
    MessageDecl.TidyAll, MessageDecl.TidyAll]
  exact ⟨fun h => h.1.1, fun h => ⟨⟨h, trivial⟩, List.forall_mem_nil _⟩⟩

variable (halone : (ofFiles [f]).Alone f) (hresolved : (ofFiles [f]).Resolved)
  (hpackage : f.package = none) (hmessages : f.messages = [m])
  (hreworded : m.Reworded ((ofFiles [f]).Retells f) "" d)
include halone hresolved hpackage hmessages hreworded

/-- A message that rewords the only one of a file is declared without problems just if no enum in it
gives two values one number. -/
theorem reports_ofMessage (hclean : (ofFiles [f]).reports = []) :
    (ofFiles [.ofMessage name d]).reports = [] ↔ f.Unaliased := by
  obtain ⟨htidy, hfits⟩ := (reports_ofFiles_singleton f).mp hclean
  rw [reports_ofFiles_singleton, tidy_ofMessage, SchemaFile.Unaliased,
    declared_eq hpackage hmessages]
  have hm : m.Tidy "" := by
    have hall := htidy.1
    rw [hmessages, show f.scope.package = "" by simp [SchemaFile.scope, hpackage],
      MessageDecl.TidyAll] at hall
    exact hall.1
  refine ⟨fun h => MessageDecl.unaliased_of_tidy m hreworded h.1, fun h =>
    ⟨MessageDecl.tidy_of_reworded (fun _ _ _ hg => hg.alike) m hreworded h hm, ?_⟩⟩
  -- its definitions are among those of the file, which do not clash
  obtain ⟨others, houtline, -⟩ := SchemaFile.exists_outline_of_message hpackage hmessages
  rw [houtline, Outline.append_definitions] at hfits
  rw [SchemaFile.outline_ofMessage]
  have hbeside : (m.outline f.scope "" false).Beside _ _ :=
    (halone.rewords hresolved (SchemaFile.ofMessage name d).scope).outline_message m hreworded
  exact fits_of_alike hbeside.definitions (fits_append.mp hfits).1

/-- A message that rewords the only one of a file, and is declared without problems, repeats the
file. -/
theorem repeated_ofMessage (hclean' : (ofFiles [.ofMessage name d]).reports = []) :
    Repeated (ofFiles [f]) (ofFiles [.ofMessage name d]) (SchemaFile.ofMessage name d).scope := by
  let f' := SchemaFile.ofMessage name d
  obtain ⟨others, houtline, hothers, hfields, hnested⟩ :=
    SchemaFile.exists_outline_of_message hpackage hmessages
  have hbeside : (m.outline f.scope "" false).Beside ((ofFiles [f]).Repeats f'.scope)
      (d.outline f'.scope "" false) :=
    (halone.rewords hresolved f'.scope).outline_message m hreworded
  rw [← show f'.outline = _ from SchemaFile.outline_ofMessage name d] at hbeside
  have houtlined := halone.outlined
  have houtlined' := outlined_ofFiles_singleton hclean'
  rw [houtline] at houtlined
  refine ⟨coherent_ofFiles_singleton f, coherent_ofFiles_singleton f', ?_, ?_, ?_, ?_, ?_, ?_⟩
  · exact files_ofFiles (by simp)
  · have hsites : (ofFiles [f]).inventory.messages.map MessageHeader.site =
        (m.outline f.scope "" false).messages.map MessageOutline.toMessageSite := by
      rw [houtlined.messages, Outline.append_messages, hothers, List.append_nil]
    exact forall₂_of_maps hsites houtlined'.messages hbeside.messages
  · have hentries : (ofFiles [f]).inventory.fields.map FieldEntry.unowned =
        (m.outline f.scope "" false).fields.map id := by
      rw [houtlined.fields, Outline.append_fields, hfields, List.append_nil, List.map_id]
    exact forall₂_of_maps hentries (houtlined'.fields.trans (List.map_id _).symm) hbeside.fields
  · have henums : (ofFiles [f]).inventory.enums.map EnumEntry.site =
        (m.outline f.scope "" false).enums ++ others.enums := by
      rw [houtlined.enums, Outline.append_enums]
    obtain ⟨es, rest, heq, hes, hrest⟩ := List.map_eq_append_iff.mp henums
    refine ⟨es, rest, heq, ?_, fun e he => ?_, fun e he => ?_⟩
    · exact forall₂_of_maps (hes.trans (List.map_id _).symm)
        (houtlined'.enums.trans (List.map_id _).symm) hbeside.enums
    · have hsite : e.site ∈ (m.outline f.scope "" false).enums := hes ▸ List.mem_map_of_mem he
      exact MessageDecl.isNested_enums m e.site hsite
    · have hsite : e.site ∈ others.enums := hrest ▸ List.mem_map_of_mem he
      simpa [EnumEntry.site] using hnested _ hsite
  · rw [houtlined'.extensions, hbeside.extensions]
  · rw [houtlined'.methods, hbeside.methods.2]

/-- A message that rewords the only one of a file is linked without problems just if no enum in it
gives two values one number, and if no field refers to an enum outside. -/
theorem link_ofMessage_iff (hclean : (ofFiles [f]).reports = []) :
    (∃ l' t', (ofFiles [.ofMessage name d]).link = (l', .ok t') ∧ l'.reports = []) ↔
      f.Unaliased ∧ (ofFiles [f]).linkedTables.EnumsNested := by
  have hreports : (ofFiles [.ofMessage name d]).reports = [] ↔ f.Unaliased :=
    reports_ofMessage halone hresolved hpackage hmessages hreworded hclean
  rw [enumsNested_linkedTables, ← hreports]
  constructor
  · rintro ⟨l', t', hlink', hclean'⟩
    obtain ⟨hdeclared', hresolved'⟩ :=
      ((coherent_ofFiles_singleton _).eq_linkedTables hlink').2.2.mp hclean'
    exact ⟨hdeclared', (repeated_ofMessage halone hresolved hpackage hmessages hreworded
      hdeclared').enumsNested_of_resolved hresolved'⟩
  · rintro ⟨hdeclared', hnested⟩
    have hrepeated := repeated_ofMessage halone hresolved hpackage hmessages hreworded hdeclared'
    obtain ⟨hresolved', hoverflows⟩ := hrepeated.resolved hnested nofun
    obtain ⟨l', hlink', -, hreports'⟩ := hrepeated.coherent'.link_eq hoverflows
    exact ⟨l', _, hlink', hreports'.mpr ⟨hdeclared', hresolved'⟩⟩

/-- If a message that rewords the only one of a file is linked without problems, then its tables tell
those of the file again. -/
theorem retoldBy_ofMessage {l' : Linker} {t' : Tables}
    (hlink' : (ofFiles [.ofMessage name d]).link = (l', .ok t')) (hclean' : l'.reports = []) :
    (ofFiles [f]).linkedTables.RetoldBy t' := by
  obtain ⟨rfl, -, hreports'⟩ := (coherent_ofFiles_singleton _).eq_linkedTables hlink'
  obtain ⟨hdeclared', hresolved'⟩ := hreports'.mp hclean'
  have hrepeated := repeated_ofMessage halone hresolved hpackage hmessages hreworded hdeclared'
  exact hrepeated.retoldBy (hrepeated.enumsNested_of_resolved hresolved') nofun

end Message

/-- One file that was read and linked without problems has been declared alone. -/
theorem alone_of_link {f : SchemaFile} {text : List Char} {l : Linker} {t : Tables}
    (hparse : SchemaFile.parse f.name text = .ok f) (hpackage : f.package = none)
    (hlink : (ofFiles [f]).link = (l, .ok t)) (hclean : l.reports = []) :
    t = (ofFiles [f]).linkedTables ∧ (ofFiles [f]).reports = [] ∧ (ofFiles [f]).Resolved ∧
      (ofFiles [f]).Alone f := by
  obtain ⟨rfl, -, hreports⟩ := (coherent_ofFiles_singleton f).eq_linkedTables hlink
  obtain ⟨hdeclared, hresolved⟩ := hreports.mp hclean
  refine ⟨rfl, hdeclared, hresolved, coherent_ofFiles_singleton f,
    outlined_ofFiles_singleton hdeclared, SchemaFile.outline_spelled_of_parse hparse ?_,
    files_ofFiles (by simp)⟩
  rw [show f.scope.package = "" by simp [SchemaFile.scope, hpackage]]
  decide +kernel

/-- The first record is that of the message of the file. -/
theorem Alone.exists_first {l : Linker} {f : SchemaFile} {m : MessageDecl} (h : l.Alone f)
    (hpackage : f.package = none) (hmessages : f.messages = [m]) :
    ∃ r, l.linkedTables.messages[0]? = some r ∧ r.name = m.name ∧ r.fullName = join "" m.name ∧
      r.isMapEntry = false ∧ r.file = f.name := by
  obtain ⟨others, houtline, -⟩ := SchemaFile.exists_outline_of_message hpackage hmessages
  have hsites := h.outlined.messages
  obtain ⟨name, fields, messages, enums, extendBlocks, oneofs, options, extensionRanges,
    reservedRanges, reservedNames, position⟩ := m
  rw [houtline, MessageDecl.outline] at hsites
  obtain ⟨header, rest, heq, hsite, -⟩ := List.map_eq_cons_iff.mp hsites
  have hheader : l.inventory.messages[0]? = some header := by rw [heq]; rfl
  refine ⟨_, getElem?_linkedTables_message hheader, ?_, ?_, ?_, ?_⟩
  · exact congrArg MessageSite.name hsite
  · exact congrArg MessageSite.fullName hsite
  · exact congrArg MessageSite.isMapEntry hsite
  · exact congrArg (fun s => s.file.name) hsite

/-- The rendered text of the message of a file is read as one message, which mirrors its record. -/
theorem Alone.parse_render {f : SchemaFile} {m : MessageDecl} (h : (ofFiles [f]).Alone f)
    (hresolved : (ofFiles [f]).Resolved) (hpackage : f.package = none) (hmessages : f.messages = [m])
    (hfile : .char '\n' ∉ f.name.units) :
    ∃ r, (ofFiles [f]).linkedTables.messages[0]? = some r ∧ r.name = m.name ∧
      r.fullName = join "" m.name ∧
      ∀ cs, ((ofFiles [f]).linkedTables.render r).ShownAs cs → ∀ name, ∃ d,
        SchemaFile.parse name cs = .ok (.ofMessage name d) ∧
          (ofFiles [f]).Mirrors (ofFiles [f]).linkedTables r d := by
  have hwrites := h.coherent.writes hresolved (nesting_ofFiles [f]) h.outlined f.outline_holds h.spelled
  obtain ⟨r, hr, hname, hfull, hentry, hrfile⟩ := h.exists_first hpackage hmessages
  exact ⟨r, hr, hname, hfull, fun cs hcs name =>
    hwrites.parse_render (Array.mem_of_getElem? hr) hentry (hrfile ▸ hfile) hcs name⟩

/-- The rendered text of the message of a file is read as one message, which rewords it. -/
theorem Alone.reworded_render {f : SchemaFile} {m : MessageDecl} (h : (ofFiles [f]).Alone f)
    (hresolved : (ofFiles [f]).Resolved) (hpackage : f.package = none) (hmessages : f.messages = [m])
    (hmaps : (ofFiles [f]).linkedTables.MapsOnly f) (hfile : .char '\n' ∉ f.name.units) :
    ∃ r, (ofFiles [f]).linkedTables.messages[0]? = some r ∧ r.name = m.name ∧
      ∀ cs, ((ofFiles [f]).linkedTables.render r).ShownAs cs → ∀ name, ∃ d,
        SchemaFile.parse name cs = .ok (.ofMessage name d) ∧
          m.Reworded ((ofFiles [f]).Retells f) "" d := by
  obtain ⟨r, hr, hname, hfull, hrender⟩ := h.parse_render hresolved hpackage hmessages hfile
  refine ⟨r, hr, hname, fun cs hcs name => ?_⟩
  obtain ⟨d, hparse, hmirrors⟩ := hrender cs hcs name
  exact ⟨d, hparse, h.reworded_of_mirrors hmaps m (fun _ hx => declared_eq hpackage hmessages ▸ hx)
    (Array.mem_of_getElem? hr) hname hfull hmirrors⟩

/-- A field of the type of a map's entries is declared again as a map, and so it comes back
repeated. -/
theorem Mirrors.exists_repeated {l l' : Linker} {t : Tables} {r : MessageRecord} {d : MessageDecl}
    {name : Text} (h : l.Mirrors t r d) (halone : l'.Alone (.ofMessage name d)) {k : Nat}
    (hk : k ∈ r.fields) {g : FieldRecord} (hg : t.fields[k]? = some g) (hentry : (t.entry? g).isSome) :
    ∃ g' ∈ l'.linkedTables.fields, g'.fullName = join (join "" r.name) g.name ∧
      g'.label = .repeated := by
  obtain ⟨-, hname, hfields, -, -, -⟩ := h
  obtain ⟨b, hb, g₀, hg₀, hmirrors⟩ := exists_of_forall₂ hfields.flip k hk
  obtain rfl := Option.some.inj (hg₀.symm.trans hg)
  obtain ⟨entry, hentry⟩ := Option.isSome_iff_exists.mp hentry
  have htype := hmirrors.type
  rw [Tables.MirrorsType, hentry] at htype
  obtain ⟨-, -, keyType, valueType, position, -, hshape, -⟩ := htype
  have hdeclared : (join "" d.name, d) ∈ (SchemaFile.ofMessage name d).declared := by
    rw [declared_eq rfl rfl]
    obtain ⟨_, _, _, _, _, _, _, _, _, _, _⟩ := d
    rw [MessageDecl.declared]
    exact List.mem_cons_self
  obtain ⟨i, hentered⟩ := halone.exists_entered hdeclared hb
  obtain ⟨j, hj⟩ := List.getElem?_of_mem hentered
  refine ⟨_, Array.mem_of_getElem? (getElem?_linkedTables_field hj), ?_, ?_⟩
  · have hfull : join (join "" d.name) b.entered.name = join (join "" r.name) g₀.name := by
      rw [FieldDecl.name_entered, hmirrors.name, hname]
    exact hfull
  · rw [FieldDecl.entered_of_map hshape]
    rfl

end Linker

/-! ## Files that are not told again -/

namespace Sample

/-- The lexemes of a file with a message that has a group. -/
def groupLexemes : List Lexed :=
  [(.keyword .kwMessage, ['m', 'e', 's', 's', 'a', 'g', 'e']), (.name, ['M']),
    (.mark .lbrace, ['\x7b']), (.keyword .kwOptional, ['o', 'p', 't', 'i', 'o', 'n', 'a', 'l']),
    (.keyword .kwGroup, ['g', 'r', 'o', 'u', 'p']), (.name, ['G']), (.mark .equal, ['=']),
    (.int, ['1']), (.mark .lbrace, ['\x7b']), (.mark .rbrace, ['\x7d']),
    (.mark .rbrace, ['\x7d'])]

/-- The tree of this file. -/
def groupTree : Tree (.nonterminal .schemaFile) :=
  let group : Tree (.part .groupDecl) := .node ⟨.groupDecl, 3⟩ (.cons (optionalAt 13)
    (.cons (leafAt (.keyword .kwGroup) ['g', 'r', 'o', 'u', 'p'] 22) (.cons (wordAt ['G'] 28)
      (.cons (leafAt (.mark .equal) ['='] 30) (.cons (numberAt ['1'] 32)
        (.cons (leafAt (.mark .lbrace) ['\x7b'] 34)
          (.cons (leafAt (.mark .rbrace) ['\x7d'] 36) .nil)))))))
  let items : Tree (.part .messageItems) := .node ⟨.messageItems, 0⟩
    (.cons (.node ⟨.messageItem, 1⟩ (.cons group .nil)) .nil)
  .node .bareFile (.cons (.node .firstItem (.cons (messageAt items 38) .nil)) .nil)

/-- The lexemes of a file with a message that refers to an enum outside. -/
def outerLexemes : List Lexed :=
  [(.keyword .kwMessage, ['m', 'e', 's', 's', 'a', 'g', 'e']), (.name, ['M']),
    (.mark .lbrace, ['\x7b']), (.keyword .kwOptional, ['o', 'p', 't', 'i', 'o', 'n', 'a', 'l']),
    (.name, ['E']), (.name, ['e']), (.mark .equal, ['=']), (.int, ['1']), (.mark .semicolon, [';']),
    (.mark .rbrace, ['\x7d']), (.keyword .kwEnum, ['e', 'n', 'u', 'm']), (.name, ['E']),
    (.mark .lbrace, ['\x7b']), (.name, ['A']), (.mark .equal, ['=']), (.int, ['0']),
    (.mark .semicolon, [';']), (.mark .rbrace, ['\x7d'])]

/-- The tree of this file. -/
def outerTree : Tree (.nonterminal .schemaFile) :=
  let field : Tree (.part .fieldDecl) := .node ⟨.fieldDecl, 1⟩ (.cons (optionalAt 13)
    (.cons (typeAt ['E'] 22) (.cons (wordAt ['e'] 24) (.cons (leafAt (.mark .equal) ['='] 26)
      (.cons (numberAt ['1'] 28) (.cons (leafAt (.mark .semicolon) [';'] 30) .nil))))))
  let items : Tree (.part .messageItems) := .node ⟨.messageItems, 0⟩
    (.cons (.node ⟨.messageItem, 0⟩ (.cons field .nil)) .nil)
  let value : Tree (.part .enumValue) := .node ⟨.enumValue, 1⟩
    (.cons (.node ⟨.enumValueName, 0⟩ (.cons (leafAt .name ['A'] 43) .nil))
      (.cons (leafAt (.mark .equal) ['='] 45)
        (.cons (.node ⟨.signedInt, 1⟩ (.cons (leafAt .int ['0'] 47) .nil))
          (.cons (leafAt (.mark .semicolon) [';'] 49) .nil))))
  let values : Tree (.part .enumItems) := .node ⟨.enumItems, 0⟩
    (.cons (.node ⟨.enumItem, 0⟩ (.cons value .nil)) .nil)
  let enum : Tree (.part .topItem) := .node ⟨.topItem, 4⟩ (.cons (.node ⟨.enumDecl, 0⟩
    (.cons (leafAt (.keyword .kwEnum) ['e', 'n', 'u', 'm'] 34) (.cons (wordAt ['E'] 39)
      (.cons (leafAt (.mark .lbrace) ['\x7b'] 41) (.cons values
        (.cons (leafAt (.mark .rbrace) ['\x7d'] 51) .nil)))))) .nil)
  .node .bareFile (.cons (.node ⟨.topItems, 1⟩ (.cons (.node .firstItem
    (.cons (messageAt items 32) .nil)) (.cons enum .nil))) .nil)

/-- The lexemes of a file with a message that has a map and a field of the type of its entries. -/
def mentionLexemes : List Lexed :=
  [(.keyword .kwMessage, ['m', 'e', 's', 's', 'a', 'g', 'e']), (.name, ['M']),
    (.mark .lbrace, ['\x7b']), (.keyword .kwMap, ['m', 'a', 'p']), (.mark .less, ['<']),
    (.name, ['i', 'n', 't', '3', '2']), (.mark .comma, [',']), (.name, ['b', 'o', 'o', 'l']),
    (.mark .greater, ['>']), (.name, ['a']), (.mark .equal, ['=']), (.int, ['1']),
    (.mark .semicolon, [';']), (.keyword .kwOptional, ['o', 'p', 't', 'i', 'o', 'n', 'a', 'l']),
    (.name, ['A', 'E', 'n', 't', 'r', 'y']), (.name, ['b']), (.mark .equal, ['=']), (.int, ['2']),
    (.mark .semicolon, [';']), (.mark .rbrace, ['\x7d'])]

/-- The tree of this file. -/
def mentionTree : Tree (.nonterminal .schemaFile) :=
  let map : Tree (.part .mapFieldDecl) := .node ⟨.mapFieldDecl, 1⟩
    (.cons (leafAt (.keyword .kwMap) ['m', 'a', 'p'] 13) (.cons (leafAt (.mark .less) ['<'] 17)
      (.cons (typeAt ['i', 'n', 't', '3', '2'] 19) (.cons (leafAt (.mark .comma) [','] 25)
        (.cons (typeAt ['b', 'o', 'o', 'l'] 27) (.cons (leafAt (.mark .greater) ['>'] 32)
          (.cons (wordAt ['a'] 34) (.cons (leafAt (.mark .equal) ['='] 36)
            (.cons (numberAt ['1'] 38)
              (.cons (leafAt (.mark .semicolon) [';'] 40) .nil))))))))))
  let field : Tree (.part .fieldDecl) := .node ⟨.fieldDecl, 1⟩ (.cons (optionalAt 42)
    (.cons (typeAt ['A', 'E', 'n', 't', 'r', 'y'] 51) (.cons (wordAt ['b'] 58)
      (.cons (leafAt (.mark .equal) ['='] 60) (.cons (numberAt ['2'] 62)
        (.cons (leafAt (.mark .semicolon) [';'] 64) .nil))))))
  let items : Tree (.part .messageItems) := .node ⟨.messageItems, 1⟩
    (.cons (.node ⟨.messageItems, 0⟩ (.cons (.node ⟨.messageItem, 2⟩ (.cons map .nil)) .nil))
      (.cons (.node ⟨.messageItem, 0⟩ (.cons field .nil)) .nil))
  .node .bareFile (.cons (.node .firstItem (.cons (messageAt items 66) .nil)) .nil)

/-- The group and its message. -/
def groupFile (name : Text) : SchemaFile :=
  ⟨name, .proto2, none, [], [⟨"M", [⟨"g", 1, .group "G", some .optional, [], none, ⟨1, 28⟩⟩],
    [⟨"G", [], [], [], [], [], [], [], [], [], ⟨1, 28⟩⟩], [], [], [], [], [], [], [], ⟨1, 9⟩⟩],
    [], [], [], []⟩

/-- The field and the enum. -/
def outerFile (name : Text) : SchemaFile :=
  ⟨name, .proto2, none, [], [⟨"M", [⟨"e", 1, .named "E" (some ⟨1, 22⟩), some .optional, [], none,
    ⟨1, 24⟩⟩], [], [], [], [], [], [], [], [], ⟨1, 9⟩⟩], [⟨"E", [⟨"A", 0, [], ⟨1, 43⟩⟩], [], [], [],
    ⟨1, 39⟩⟩], [], [], []⟩

/-- The map and the field. -/
def mentionFile (name : Text) : SchemaFile :=
  ⟨name, .proto2, none, [], [⟨"M", [mapFieldDecl, ⟨"b", 2, .named "AEntry" (some ⟨1, 51⟩),
    some .optional, [], none, ⟨1, 58⟩⟩], [], [], [], [], [], [], [], [], ⟨1, 9⟩⟩], [], [], [], []⟩

end Sample

theorem SchemaFile.parse_groupLexemes (name : Text) :
    SchemaFile.parse name (Lexed.spaced Sample.groupLexemes) = .ok (Sample.groupFile name) := by
  have hvalue : Sample.groupTree.value = .ok (Sample.groupFile "") := by
    with_unfolding_all rfl
  exact parse_spaced_tree (by decide) (by decide) hvalue rfl name

theorem SchemaFile.parse_outerLexemes (name : Text) :
    SchemaFile.parse name (Lexed.spaced Sample.outerLexemes) = .ok (Sample.outerFile name) := by
  have hvalue : Sample.outerTree.value = .ok (Sample.outerFile "") := by
    with_unfolding_all rfl
  exact parse_spaced_tree (by decide) (by decide) hvalue rfl name

theorem SchemaFile.parse_mentionLexemes (name : Text) :
    SchemaFile.parse name (Lexed.spaced Sample.mentionLexemes) = .ok (Sample.mentionFile name) := by
  have hvalue : Sample.mentionTree.value = .ok (Sample.mentionFile "") := by
    with_unfolding_all rfl
  exact parse_spaced_tree (by decide) (by decide) hvalue rfl name

theorem Tables.mapsOnly_of_no_entries {t : Tables} {f : SchemaFile}
    (h : t.messages.all (!·.isMapEntry) = true) : t.MapsOnly f := by
  intro _ _ _ _ _ r _ _ _
  refine Option.filter_eq_none_iff.mpr fun m hm => ?_
  obtain ⟨k, -, hk⟩ := Option.bind_eq_some_iff.mp hm
  simpa using Array.all_eq_true_iff_forall_mem.mp h m (Array.mem_of_getElem? hk)

namespace Linker

/-- Whatever file has no package and one message and is linked without problems: the rendered text of
the message can be read. It is linked without problems just if no enum in the message gives two
values one number and all enums that the fields refer to are in the message, and then its tables tell
those of the file again. This holds if no field but a map refers to the entry of a map, and if there
is no line break in the name of the file. -/
theorem retold_of_render {f : SchemaFile} {text : List Char} {m : MessageDecl} {l : Linker}
    {t : Tables} (hparse : SchemaFile.parse f.name text = .ok f) (hpackage : f.package = none)
    (hmessages : f.messages = [m]) (hlink : (ofFiles [f]).link = (l, .ok t))
    (hclean : l.reports = []) (hmaps : t.MapsOnly f) (hfile : .char '\n' ∉ f.name.units) :
    ∃ r, t.messages[0]? = some r ∧ r.name = m.name ∧ (∃ cs, (t.render r).ShownAs cs) ∧
      ∀ cs, (t.render r).ShownAs cs → ∀ name, ∃ f', SchemaFile.parse name cs = .ok f' ∧
        ((∃ l' t', (ofFiles [f']).link = (l', .ok t') ∧ l'.reports = []) ↔
          f.Unaliased ∧ t.EnumsNested) ∧
        ∀ l' t', (ofFiles [f']).link = (l', .ok t') → l'.reports = [] → t.RetoldBy t' := by
  obtain ⟨rfl, hdeclared, hresolved, halone⟩ := alone_of_link hparse hpackage hlink hclean
  obtain ⟨r, hr, hname, hrender⟩ := halone.reworded_render hresolved hpackage hmessages hmaps hfile
  refine ⟨r, hr, hname, Text.exists_shownAs _, fun cs hcs name => ?_⟩
  obtain ⟨d, hparse', hreworded⟩ := hrender cs hcs name
  exact ⟨_, hparse', link_ofMessage_iff halone hresolved hpackage hmessages hreworded hdeclared,
    fun l' t' => retoldBy_ofMessage halone hresolved hpackage hmessages hreworded⟩

theorem retold_of_render_map : ∃ l t r, (ofFiles [Sample.mapFile "a.proto"]).link = (l, .ok t) ∧
    t.messages[0]? = some r ∧ r.name = "M" ∧ (∃ cs, (t.render r).ShownAs cs) ∧
      ∀ cs, (t.render r).ShownAs cs → ∀ name, ∃ f', SchemaFile.parse name cs = .ok f' ∧
        ((∃ l' t', (ofFiles [f']).link = (l', .ok t') ∧ l'.reports = []) ↔
          (Sample.mapFile "a.proto").Unaliased ∧ t.EnumsNested) ∧
        ∀ l' t', (ofFiles [f']).link = (l', .ok t') → l'.reports = [] → t.RetoldBy t' := by
  have hreports : ((ofFiles [Sample.mapFile "a.proto"]).link).1.reports.isEmpty := by
    decide +kernel
  obtain ⟨l, t, hlink⟩ := exists_tables (l := ofFiles [Sample.mapFile "a.proto"]) (by decide +kernel)
  have hclean : l.reports = [] := by simpa [hlink] using hreports
  have hmaps : t.MapsOnly (Sample.mapFile "a.proto") := by
    intro x hx g hg hmap
    rw [declared_eq rfl rfl, Sample.mapped, MessageDecl.declared, MessageDecl.declaredAll,
      List.mem_singleton] at hx
    subst hx
    obtain rfl := List.mem_singleton.mp hg
    cases hmap
  obtain ⟨r, hr⟩ := retold_of_render (SchemaFile.parse_mapLexemes "a.proto") rfl rfl hlink hclean
    hmaps (by decide +kernel)
  exact ⟨l, t, r, hlink, hr⟩

/-! ## What is not told again -/

/-- A file without a package and with one message is linked without problems. Its tables, and what the
rendered text of the message is read as under any name, are as said. -/
def RendersTo (f : SchemaFile) (P : Tables → Except Fault SchemaFile → Prop) : Prop :=
  ∃ text m l t r cs, SchemaFile.parse f.name text = .ok f ∧ f.dialect = .proto2 ∧
    f.package = none ∧ f.messages = [m] ∧ (ofFiles [f]).link = (l, .ok t) ∧ l.reports = [] ∧
    t.messages[0]? = some r ∧ (t.render r).ShownAs cs ∧ ∀ name, P t (SchemaFile.parse name cs)

theorem rendersTo {f : SchemaFile} {text : List Char} {m : MessageDecl}
    {P : Tables → Except Fault SchemaFile → Prop} (hparse : SchemaFile.parse f.name text = .ok f)
    (hdialect : f.dialect = .proto2) (hpackage : f.package = none) (hmessages : f.messages = [m])
    (hlinks : (ofFiles [f]).link.2.toOption.isSome) (hclean : (ofFiles [f]).link.1.reports.isEmpty)
    (h : (ofFiles [f]).Alone f → (ofFiles [f]).Resolved → (ofFiles [f]).reports = [] →
      ∃ r, (ofFiles [f]).linkedTables.messages[0]? = some r ∧
        ∀ cs, ((ofFiles [f]).linkedTables.render r).ShownAs cs → ∀ name,
          P (ofFiles [f]).linkedTables (SchemaFile.parse name cs)) : RendersTo f P := by
  obtain ⟨l, t, hlink⟩ := exists_tables hlinks
  have hclean : l.reports = [] := by simpa [hlink] using hclean
  obtain ⟨rfl, hdeclared, hresolved, halone⟩ := alone_of_link hparse hpackage hlink hclean
  obtain ⟨r, hr, hP⟩ := h halone hresolved hdeclared
  obtain ⟨cs, hcs⟩ := Text.exists_shownAs ((ofFiles [f]).linkedTables.render r)
  exact ⟨text, m, l, _, r, cs, hparse, hdialect, hpackage, hmessages, hlink, hclean, hr, hcs,
    hP cs hcs⟩

/-- A group comes back as a field of the type of its message. -/
theorem rendersTo_group : RendersTo (Sample.groupFile "a.proto") fun t read => ∃ f' l' t' g g',
    read = .ok f' ∧ (ofFiles [f']).link = (l', .ok t') ∧ l'.reports = [] ∧
      t.fields[0]? = some g ∧ t'.fields[0]? = some g' ∧ g.type = .group ∧ g'.type = .message := by
  let t := (ofFiles [Sample.groupFile "a.proto"]).linkedTables
  refine rendersTo (SchemaFile.parse_groupLexemes "a.proto") rfl rfl rfl (by decide +kernel)
    (by decide +kernel) fun halone hresolved hclean => ?_
  have hentries : t.messages.all (!·.isMapEntry) = true := by decide +kernel
  have hunaliased : (Sample.groupFile "a.proto").Unaliased := by
    unfold SchemaFile.Unaliased EnumDecl.Unaliased
    decide +kernel
  have hnested : t.EnumsNested := by
    have hnone : t.fields.all (·.enumType.isNone) = true := by decide +kernel
    intro g hg _ k hk
    simpa [hk] using Array.all_eq_true_iff_forall_mem.mp hnone g hg
  have hfields : (t.messages[0]?).map (·.fields) = some [0] := by decide +kernel
  have htype : (t.fields[0]?).map (·.type) = some .group := by decide +kernel
  obtain ⟨r, hr, -, hrender⟩ := halone.reworded_render hresolved rfl rfl
    (Tables.mapsOnly_of_no_entries hentries) (by decide +kernel)
  refine ⟨r, hr, fun cs hcs name => ?_⟩
  obtain ⟨d, hparse, hreworded⟩ := hrender cs hcs name
  obtain ⟨l', t', hlink', hclean'⟩ :=
    (link_ofMessage_iff halone hresolved rfl rfl hreworded hclean).mpr ⟨hunaliased, hnested⟩
  have hretold := retoldBy_ofMessage halone hresolved rfl rfl hreworded hlink' hclean'
  rw [hr, Option.map_some, Option.some.injEq] at hfields
  obtain ⟨g, g', hg, hg', hfield⟩ := hretold.fields r (Array.mem_of_getElem? hr) 0 (by simp [hfields])
  rw [hg, Option.map_some, Option.some.injEq] at htype
  refine ⟨_, l', t', g, g', hparse, hlink', hclean', hg, hg', htype, ?_⟩
  rw [hfield.type, htype]
  rfl

/-- An enum outside of the message is not found again. -/
theorem rendersTo_outer : RendersTo (Sample.outerFile "a.proto") fun _ read => ∃ f', read = .ok f' ∧
    ¬ ∃ l' t', (ofFiles [f']).link = (l', .ok t') ∧ l'.reports = [] := by
  let t := (ofFiles [Sample.outerFile "a.proto"]).linkedTables
  refine rendersTo (SchemaFile.parse_outerLexemes "a.proto") rfl rfl rfl (by decide +kernel)
    (by decide +kernel) fun halone hresolved hclean => ?_
  have hentries : t.messages.all (!·.isMapEntry) = true := by decide +kernel
  have hfield : (t.fields[0]?).any (fun g => g.extensionScope = none ∧ g.enumType = some 0) := by
    decide +kernel
  have henum : (t.enums[0]?).map (·.parent) = some none := by decide +kernel
  obtain ⟨r, hr, -, hrender⟩ := halone.reworded_render hresolved rfl rfl
    (Tables.mapsOnly_of_no_entries hentries) (by decide +kernel)
  refine ⟨r, hr, fun cs hcs name => ?_⟩
  obtain ⟨d, hparse, hreworded⟩ := hrender cs hcs name
  refine ⟨_, hparse, fun hclean' => ?_⟩
  obtain ⟨-, hnested⟩ :=
    (link_ofMessage_iff halone hresolved rfl rfl hreworded hclean).mp hclean'
  obtain ⟨g, hg, hscope, hk⟩ : ∃ g, t.fields[0]? = some g ∧ g.extensionScope = none ∧
      g.enumType = some 0 := by
    simpa [Option.any_eq_true] using hfield
  obtain ⟨e, he, hparent⟩ := hnested g (Array.mem_of_getElem? hg) hscope 0 hk
  rw [show t.enums[0]? = some e from he, Option.map_some, Option.some.injEq] at henum
  simp [henum] at hparent

/-- A field of the type of a map's entries comes back repeated. -/
theorem rendersTo_mention : RendersTo (Sample.mentionFile "a.proto") fun t read => ∃ f' g,
    read = .ok f' ∧ g ∈ t.fields ∧ g.fullName = "M.b" ∧ g.label = .optional ∧
      ∀ l' t', (ofFiles [f']).link = (l', .ok t') → l'.reports = [] →
        ∃ g' ∈ t'.fields, g'.fullName = "M.b" ∧ g'.label = .repeated := by
  let t := (ofFiles [Sample.mentionFile "a.proto"]).linkedTables
  refine rendersTo (SchemaFile.parse_mentionLexemes "a.proto") rfl rfl rfl (by decide +kernel)
    (by decide +kernel) fun halone hresolved _ => ?_
  have hfields : (t.messages[0]?).any (fun r => r.name = "M" ∧ 3 ∈ r.fields) := by decide +kernel
  have hfield : (t.fields[3]?).any (fun g => g.name = "b" ∧ g.fullName = "M.b" ∧
      g.label = .optional ∧ (t.entry? g).isSome) := by
    decide +kernel
  obtain ⟨r, hr, -, -, hrender⟩ := halone.parse_render hresolved rfl rfl (by decide +kernel)
  refine ⟨r, hr, fun cs hcs name => ?_⟩
  obtain ⟨d, hparse, hmirrors⟩ := hrender cs hcs name
  obtain ⟨hname, hk⟩ : r.name = "M" ∧ 3 ∈ r.fields := by
    rw [show t.messages[0]? = some r from hr] at hfields
    simpa using hfields
  obtain ⟨g, hg, hgname, hfull, hlabel, hentry⟩ : ∃ g, t.fields[3]? = some g ∧ g.name = "b" ∧
      g.fullName = "M.b" ∧ g.label = .optional ∧ (t.entry? g).isSome := by
    simpa [Option.any_eq_true] using hfield
  refine ⟨_, g, hparse, Array.mem_of_getElem? hg, hfull, hlabel, fun l' t' hlink' hclean' => ?_⟩
  obtain ⟨rfl, -, -, halone'⟩ := alone_of_link hparse rfl hlink' hclean'
  obtain ⟨g', hg', hfull', hrepeated⟩ := hmirrors.exists_repeated halone' hk hg hentry
  refine ⟨g', hg', ?_, hrepeated⟩
  rw [hfull', hname, hgname]
  decide +kernel

/-- Nothing is read at a character that no token starts with. -/
theorem lexed?_hash (accept : Terminal → Bool) (rest : List Char) :
    Lexer.lexed? accept ('#' :: rest) = none := by
  have hfloat : Lexeme.float? ('#' :: rest) = none := rfl
  have hint : Lexeme.int? ('#' :: rest) = none := rfl
  have hstring : Lexeme.string? ('#' :: rest) = none := rfl
  have hname : Lexeme.name? ('#' :: rest) = none := rfl
  have hkeyword : Lexer.keyword? accept ('#' :: rest) = none := by
    have hheads : ∀ k ∈ Keyword.all, k.spelling.toList.head? ≠ some '#' ∧ k.spelling.toList ≠ [] := by
      decide
    rw [Lexer.keyword?, Option.map_eq_none_iff, List.find?_eq_none]
    intro k hk hopens
    obtain ⟨hhead, hne⟩ := hheads k hk
    obtain ⟨c, cs, hspelling⟩ := List.exists_cons_of_ne_nil hne
    rw [hspelling] at hhead hopens
    have hprefix := List.isPrefixOf_iff_prefix.mp (Bool.and_eq_true _ _ ▸ hopens).2
    exact hhead (congrArg some (List.cons_prefix_cons.mp hprefix).1)
  have hmark : Lexer.mark? accept ('#' :: rest) = none := by
    have hcharacters : ∀ m ∈ Mark.all, (m.character == '#') = false := by decide
    rw [Lexer.mark?, Option.map_eq_none_iff, List.find?_eq_none]
    exact fun m hm => by simp [hcharacters m hm]
  simp [Lexer.lexed?, Lexer.ofClass?, Lexer.word?, hfloat, hint, hstring, hname, hkeyword, hmark]

theorem parse_hash {body rest : List Char} (hbody : '\n' ∉ body) (name : Text) : ∃ fault,
    SchemaFile.parse name ('/' :: '/' :: (body ++ '\n' :: '#' :: rest)) = .error fault := by
  have hblank : Lexeme.blank? ('#' :: rest) = none := rfl
  have hstuck (accept : Terminal → Bool) (p : Position) :
      Lexer.next accept ⟨'#' :: rest, p⟩ = .stuck ⟨'#' :: rest, p⟩ := by
    have hskip : (Cursor.mk ('#' :: rest) p).skipBlanks = ⟨'#' :: rest, p⟩ :=
      Cursor.skipBlanks_of_none hblank
    rw [Lexer.next_of_none, hskip] <;> rw [hskip]
    · exact List.cons_ne_nil _ _
    · exact lexed?_hash accept rest
  obtain ⟨fault, hfault⟩ : ∃ fault,
      derive ('/' :: '/' :: (body ++ '\n' :: '#' :: rest)) = .error fault := by
    rw [derive, Cursor.ofText, Machine.run_eq_goOn, Lexer.next_comment hbody,
      Lexer.next_blank rfl, hstuck]
    exact ⟨_, rfl⟩
  exact ⟨fault, by simp only [SchemaFile.parse, hfault, bind, Except.bind]⟩

/-- The rest of the name of a file is read behind a line break. -/
theorem rendersTo_lineBreak : RendersTo (Sample.groupFile "a\n#") fun _ read =>
    ∃ fault, read = .error fault := by
  refine rendersTo (SchemaFile.parse_groupLexemes "a\n#") rfl rfl rfl (by decide +kernel)
    (by decide +kernel) fun halone _ _ => ?_
  obtain ⟨r, hr, -, hfull, -, hfile⟩ := halone.exists_first rfl rfl
  refine ⟨r, hr, fun cs hcs name => ?_⟩
  obtain ⟨file, hshown, rfl⟩ := Tables.ShownAs.exists_file hcs
  rw [hfile] at hshown
  obtain rfl : file = ['a', '\n', '#'] := Text.shownAs_ofChars.mp hshown
  have hjoin : join "" "M" = "M" := by decide +kernel
  have hbody : '\n' ∉ " M from a".toList := by decide +kernel
  rw [hfull, hjoin]
  exact parse_hash hbody name

/-- What rendering changes: the type of a group, and the label of a field of the type of a map's
entries. An enum outside of the message is not found again, and behind a line break in the name of
the file nothing can be read. -/
theorem altered_by_rendering :
    (RendersTo (Sample.groupFile "a.proto") fun t read => ∃ f' l' t' g g',
      read = .ok f' ∧ (ofFiles [f']).link = (l', .ok t') ∧ l'.reports = [] ∧
        t.fields[0]? = some g ∧ t'.fields[0]? = some g' ∧ g.type = .group ∧ g'.type = .message) ∧
    (RendersTo (Sample.outerFile "a.proto") fun _ read => ∃ f', read = .ok f' ∧
      ¬ ∃ l' t', (ofFiles [f']).link = (l', .ok t') ∧ l'.reports = []) ∧
    (RendersTo (Sample.mentionFile "a.proto") fun t read => ∃ f' g,
      read = .ok f' ∧ g ∈ t.fields ∧ g.fullName = "M.b" ∧ g.label = .optional ∧
        ∀ l' t', (ofFiles [f']).link = (l', .ok t') → l'.reports = [] →
          ∃ g' ∈ t'.fields, g'.fullName = "M.b" ∧ g'.label = .repeated) ∧
    RendersTo (Sample.groupFile "a\n#") fun _ read => ∃ fault, read = .error fault :=
  ⟨rendersTo_group, rendersTo_outer, rendersTo_mention, rendersTo_lineBreak⟩

end Linker

end ProtoSchema
