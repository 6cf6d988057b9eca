import ProtoSchema.Proofs.Linker.Entered
import ProtoSchema.Proofs.Linker.Passes
import ProtoSchema.Proofs.Pool.Steady
import ProtoSchema.Proofs.Schema.Fields
import ProtoSchema.Proofs.Schema.Listing
import ProtoSchema.Proofs.Tables.Integrity

/-!
# The rules of the dialects in tables

Every record of a field, extensions included, is made from a field that one of the files declares, at
any depth, and it has what the dialect of that file asks for: a label, no group and no default, and
the packing that is usual in the dialect unless the field asks for another
(`Linker.keepsTo_of_link`).
-/

namespace ProtoSchema

/-! ## Records and the fields that they are made from -/

/-- A record has the names, the number and the oneof of a field. -/
structure FieldRecord.IsOf (r : FieldRecord) (e : FieldEntry) : Prop where
  name : r.name = e.decl.name
  fullName : r.fullName = e.fullName
  number : r.number = e.decl.number
  oneof : r.oneof = e.decl.oneof

/-- A file declares the field that a record is made from, in a message at any depth, or in an extend
block if the record has the scope of an extension. -/
def SchemaFile.Declares (f : SchemaFile) (e : FieldEntry) (extensionScope : Option String) : Prop :=
  e.file = f.scope ∧
    ((extensionScope = none ∧ e.unowned ∈ f.outline.fields) ∨
      (extensionScope = some e.scope ∧ ∃ x ∈ f.outline.extensions, x.field = e))

/-- The types that are no numbers, flags or enums. -/
def FieldType.unpackable : List FieldType := [unresolved, string, bytes, message, group]

theorem FieldType.isPackable_iff (t : FieldType) : t.isPackable ↔ t ∉ unpackable := by
  cases t <;> decide

/-- What the options of a field say about its packing: the first of that name does, if it has the
value of a flag. -/
def FieldDecl.packing? (f : FieldDecl) : Option Bool :=
  (f.option? "packed").bind (·.value.value.flag?)

/-- A record has what the dialect asks for of a field that is entered with the given declaration. -/
structure FieldRecord.KeepsTo (dialect : Dialect) (f : FieldDecl) (r : FieldRecord) : Prop where
  required : dialect = .proto3 → r.label ≠ .required
  group : dialect = .proto3 → r.type ≠ .group
  default : dialect = .proto3 → r.default = none
  label : dialect = .proto2 → f.isMap = false → f.oneof = none → f.label = some r.label
  unpacked : r.label ≠ .repeated ∨ r.type ∈ FieldType.unpackable → r.packed = false
  packed : r.label = .repeated → r.type ∉ FieldType.unpackable →
    r.packed = f.packing?.getD (decide (dialect = .proto3))

/-- What a map is entered as keeps to both dialects. -/
theorem FieldDecl.mapsKeep_keepsTo (dialect : Dialect) : MapsKeep (FieldDecl.KeepsTo dialect) := by
  intro f key value position _ _
  refine ⟨?_, ?_, ?_⟩ <;>
    constructor <;> simp [Linker.keyField, Linker.valueField, Linker.mapField, isGroup]

theorem SchemaFile.IsRead.outline_fresh {f : SchemaFile} (h : f.IsRead) :
    f.outline.Fresh f.scope (FieldDecl.KeepsTo f.dialect) := by
  obtain ⟨text, hparse⟩ := h
  exact SchemaFile.outline_fresh (FieldDecl.mapsKeep_keepsTo f.dialect)
    (SchemaFile.keepsTo_of_parse hparse)

namespace Linker

variable {l : Linker} {t : Tables}

/-- A record keeps to a dialect if the field that it is made from does. -/
theorem keepsTo_fieldRecord {f : FieldEntry} (hkeeps : f.decl.KeepsTo f.file.dialect)
    (hgroup : f.link.type = .group → f.decl.isGroup) (extensionScope : Option String) :
    (l.fieldRecord f extensionScope).KeepsTo f.file.dialect f.decl := by
  refine ⟨fun hdialect => ?_, fun hdialect htype => ?_, fun hdialect => ?_,
    fun hdialect hmap honeof => ?_, fun hskip => ?_, fun hlabel htype => ?_⟩
  · show f.decl.label.getD .optional ≠ .required
    have hrequired := hkeeps.optional hdialect
    cases hlabel : f.decl.label with
    | none => simp
    | some label => simpa [hlabel] using hrequired
  · exact absurd (hgroup htype) (by simp [hkeeps.plain hdialect])
  · show l.default? f = none
    unfold default?
    cases f.decl.option? "default" with
    | none => rfl
    | some o =>
      rw [Option.bind_some, defaultOf, if_pos hdialect]
      rfl
  · obtain ⟨label, hlabel⟩ := Option.isSome_iff_exists.mp (hkeeps.labelled hdialect hmap honeof)
    rw [hlabel]
    show some label = some (f.decl.label.getD .optional)
    rw [hlabel, Option.getD_some]
  · show f.packed = false
    have hunpackable : f.label ≠ .repeated ∨ ¬ f.link.type.isPackable :=
      hskip.imp_right fun htype hpackable => (f.link.type.isPackable_iff.mp hpackable) htype
    rw [FieldEntry.packed, if_pos hunpackable]
  · show f.packed = _
    have hkept : ¬ (f.label ≠ .repeated ∨ ¬ f.link.type.isPackable) :=
      not_or.mpr ⟨not_not.mpr hlabel, not_not.mpr (f.link.type.isPackable_iff.mpr htype)⟩
    rw [FieldEntry.packed, if_neg hkept]
    rfl

/-- The record of a field is that of the field as it was declared, and keeps to its dialect. -/
theorem keepsTo_of_follows {f : SchemaFile} {e e' : FieldEntry} (hfollows : e.Follows e')
    (hfresh : e.Fresh f.scope (FieldDecl.KeepsTo f.dialect)) (extensionScope : Option String) :
    (l.fieldRecord e' extensionScope).IsOf e ∧
      (l.fieldRecord e' extensionScope).KeepsTo f.dialect e.decl := by
  have hgroup : e'.link.type = .group → e.decl.isGroup := by
    intro htype
    refine (hfollows.group htype).resolve_left fun hlinked => ?_
    rw [hfresh.link] at hlinked
    cases hlinked
  obtain ⟨link, owner, rfl⟩ := hfollows.same
  refine ⟨⟨rfl, rfl, rfl, rfl⟩, ?_⟩
  have hdialect : e.file.dialect = f.dialect := congrArg FileScope.dialect hfresh.file
  rw [← hdialect]
  exact keepsTo_fieldRecord (hdialect ▸ hfresh.decl) hgroup extensionScope

/-! ## The fields of files -/

section

variable {files : List SchemaFile}

theorem exists_file_of_mem_fields {e : FieldEntry} (he : e ∈ (ofFiles files).fields) :
    ∃ f ∈ files, e.unowned ∈ f.outline.fields := by
  obtain ⟨added, hadded, hin⟩ := (enters_ofFiles files).fields
  rw [show empty.inventory.fields = [] from rfl, List.map_nil, List.nil_append] at hadded
  have hmem : e.unowned ∈ (Outline.ofFiles files).fields :=
    hin.subset (hadded ▸ List.mem_map_of_mem (Array.mem_toList_iff.mpr he))
  obtain ⟨o, ho, hfield⟩ := List.mem_flatMap.mp hmem
  obtain ⟨f, hf, rfl⟩ := List.mem_map.mp ho
  exact ⟨f, hf, hfield⟩

theorem exists_file_of_mem_extensions {x : ExtensionEntry} (hx : x ∈ (ofFiles files).extensions) :
    ∃ f ∈ files, x ∈ f.outline.extensions := by
  obtain ⟨added, hadded, hin⟩ := (enters_ofFiles files).extensions
  rw [show empty.inventory.extensions = [] from rfl, List.nil_append] at hadded
  have hmem : x ∈ (Outline.ofFiles files).extensions :=
    hin.subset (hadded ▸ Array.mem_toList_iff.mpr hx)
  obtain ⟨o, ho, hfield⟩ := List.mem_flatMap.mp hmem
  obtain ⟨f, hf, rfl⟩ := List.mem_map.mp ho
  exact ⟨f, hf, hfield⟩

/-- The fields of files that were read keep to the dialects of the files. If linking gives tables, then
every record in them is made from a field that one of the files declares, and keeps to the dialect of
this file. Without an extension's scope it is the record of the field that was entered at its
place. -/
theorem keepsTo_of_link (hread : ∀ f ∈ files, f.IsRead) (h : (ofFiles files).link = (l, .ok t)) :
    (∀ f ∈ files, f.ForallFields (FieldDecl.KeepsTo f.dialect)) ∧
      ∀ (i : Nat) (r : FieldRecord), t.fields[i]? = some r → ∃ f ∈ files, ∃ e,
        f.Declares e r.extensionScope ∧ r.IsOf e ∧ r.KeepsTo f.dialect e.decl ∧
          (r.extensionScope = none → (ofFiles files).fields[i]? = some e) := by
  refine ⟨fun f hf => ?_, fun i r hr => ?_⟩
  · obtain ⟨text, hparse⟩ := hread f hf
    exact SchemaFile.keepsTo_of_parse hparse
  obtain ⟨fields, extensions, htables, -, hfields, hextensions, -⟩ := exists_members_of_link h
  rw [htables, List.getElem?_toArray] at hr
  rcases Nat.lt_or_ge i fields.length with hlt | hge
  · rw [List.getElem?_append_left (by simpa using hlt), List.getElem?_map] at hr
    obtain ⟨e', he', rfl⟩ := Option.map_eq_some_iff.mp hr
    obtain ⟨hlength, hall⟩ := List.forall₂_iff_get.mp hfields
    obtain ⟨hi, rfl⟩ := List.getElem?_eq_some_iff.mp he'
    have hi' : i < (ofFiles files).fields.size := by
      rwa [← Array.length_toList, hlength]
    have he : (ofFiles files).fields[i]? = some (ofFiles files).fields[i] :=
      Array.getElem?_eq_getElem hi'
    have hfollows : (ofFiles files).fields[i].Follows fields[i] :=
      hall i (by rwa [hlength]) hi
    obtain ⟨f, hf, hdeclared⟩ := exists_file_of_mem_fields (Array.mem_of_getElem? he)
    have hfresh := (hread f hf).outline_fresh.fields _ hdeclared
    obtain ⟨hof, hkeeps⟩ := keepsTo_of_follows hfollows ⟨hfresh.file, hfresh.link, hfresh.decl⟩ none
    exact ⟨f, hf, (ofFiles files).fields[i], ⟨hfresh.file, .inl ⟨rfl, hdeclared⟩⟩, hof, hkeeps,
      fun _ => he⟩
  · rw [List.getElem?_append_right (by simpa using hge), List.getElem?_map] at hr
    obtain ⟨e', he', rfl⟩ := Option.map_eq_some_iff.mp hr
    obtain ⟨x, hx, hfollows⟩ := hextensions e' (List.mem_of_getElem? he')
    obtain ⟨f, hf, hdeclared⟩ := exists_file_of_mem_extensions hx
    have hfresh := (hread f hf).outline_fresh.extensions _ hdeclared
    obtain ⟨hof, hkeeps⟩ := keepsTo_of_follows hfollows hfresh (some e'.scope)
    have hscope : e'.scope = x.field.scope := by
      obtain ⟨link, owner, rfl⟩ := hfollows.same
      rfl
    exact ⟨f, hf, x.field, ⟨hfresh.file, .inr ⟨congrArg some hscope, x, hdeclared, rfl⟩⟩, hof,
      hkeeps, nofun⟩

end

end Linker

/-! ## A file of the newer dialect -/

namespace Sample

/-- The lexemes of a file of the newer dialect, with a message that has a repeated flag. -/
def flagsLexemes : List Lexed :=
  [(.keyword .kwSyntax, ['s', 'y', 'n', 't', 'a', 'x']), (.mark .equal, ['=']),
    (.string, ['"', 'p', 'r', 'o', 't', 'o', '3', '"']), (.mark .semicolon, [';']),
    (.keyword .kwMessage, ['m', 'e', 's', 's', 'a', 'g', 'e']), (.name, ['M']),
    (.mark .lbrace, ['\x7b']),
    (.keyword .kwRepeated, ['r', 'e', 'p', 'e', 'a', 't', 'e', 'd']),
    (.name, ['b', 'o', 'o', 'l']), (.name, ['a']), (.mark .equal, ['=']), (.int, ['1']),
    (.mark .semicolon, [';']), (.mark .rbrace, ['\x7d'])]

/-- The tree of this file. -/
def flagsTree : Tree (.nonterminal .schemaFile) :=
  let leaf (k : Terminal) (lexeme : List Char) (column : Nat) : Tree (.terminal k) :=
    .leaf ⟨k, lexeme, ⟨1, column⟩⟩
  let word (lexeme : List Char) (column : Nat) : Tree (.part .name) :=
    .node ⟨.name, 0⟩ (.cons (leaf .name lexeme column) .nil)
  let dialect : Tree (.part .strings) := .node ⟨.strings, 0⟩ (.cons (.node ⟨.stringRun, 0⟩
    (.cons (leaf .string ['"', 'p', 'r', 'o', 't', 'o', '3', '"'] 10) .nil)) .nil)
  let heading : Tree (.part .dialectStmt) := .node ⟨.dialectStmt, 0⟩
    (.cons (leaf (.keyword .kwSyntax) ['s', 'y', 'n', 't', 'a', 'x'] 1)
      (.cons (leaf (.mark .equal) ['='] 8) (.cons dialect
        (.cons (leaf (.mark .semicolon) [';'] 19) .nil))))
  let label : Tree (.part .fieldLabel) := .node ⟨.fieldLabel, 2⟩ (.cons
    (leaf (.keyword .kwRepeated) ['r', 'e', 'p', 'e', 'a', 't', 'e', 'd'] 33) .nil)
  let type : Tree (.part .fullIdent) :=
    .node ⟨.fullIdent, 3⟩ (.cons (word ['b', 'o', 'o', 'l'] 42) .nil)
  let number : Tree (.part .fieldNumber) :=
    .node ⟨.fieldNumber, 0⟩ (.cons (leaf .int ['1'] 51) .nil)
  let field : Tree (.part .fieldDecl) := .node ⟨.fieldDecl, 1⟩
    (.cons label (.cons type (.cons (word ['a'] 47) (.cons (leaf (.mark .equal) ['='] 49)
      (.cons number (.cons (leaf (.mark .semicolon) [';'] 53) .nil))))))
  let items : Tree (.part .messageItems) := .node ⟨.messageItems, 0⟩
    (.cons (.node ⟨.messageItem, 0⟩ (.cons field .nil)) .nil)
  let message : Tree (.part .messageDecl) := .node ⟨.messageDecl, 0⟩
    (.cons (leaf (.keyword .kwMessage) ['m', 'e', 's', 's', 'a', 'g', 'e'] 21)
      (.cons (word ['M'] 29) (.cons (leaf (.mark .lbrace) ['\x7b'] 31) (.cons items
        (.cons (leaf (.mark .rbrace) ['\x7d'] 55) .nil)))))
  .node ⟨.schemaFile, 0⟩ (.cons heading (.cons (.node .firstItem
    (.cons (.node ⟨.topItem, 3⟩ (.cons message .nil)) .nil)) .nil))

/-- The repeated flag. -/
def flagField : FieldDecl :=
  ⟨"a", 1, .named "bool" (some ⟨1, 42⟩), some .repeated, [], none, ⟨1, 47⟩⟩

/-- The file with this message. -/
def flags (name : Text) : SchemaFile :=
  ⟨name, .proto3, none, [], [⟨"M", [flagField], [], [], [], [], [], [], [], [], ⟨1, 29⟩⟩], [], [],
    [], []⟩

end Sample

theorem SchemaFile.parse_flagsLexemes (name : Text) :
    SchemaFile.parse name (Lexed.spaced Sample.flagsLexemes) = .ok (Sample.flags name) := by
  have hvalue : Sample.flagsTree.value = .ok (Sample.flags "") := by
    with_unfolding_all rfl
  exact parse_spaced_tree (by decide) (by decide) hvalue rfl name

namespace Linker

theorem keepsTo_of_link_flags :
    ∃ l t r, (ofFiles [Sample.flags "a.proto"]).link = (l, .ok t) ∧ t.fields[0]? = some r ∧
      r.packed = true ∧ (∀ f ∈ [Sample.flags "a.proto"],
        f.ForallFields (FieldDecl.KeepsTo f.dialect)) ∧
      ∃ f ∈ [Sample.flags "a.proto"], ∃ e, f.Declares e r.extensionScope ∧ r.IsOf e ∧
        r.KeepsTo f.dialect e.decl ∧
          (r.extensionScope = none → (ofFiles [Sample.flags "a.proto"]).fields[0]? = some e) := by
  have hread : ∀ f ∈ [Sample.flags "a.proto"], f.IsRead := by
    intro f hf
    obtain rfl := List.mem_singleton.mp hf
    exact ⟨_, SchemaFile.parse_flagsLexemes _⟩
  have hpacked : ((ofFiles [Sample.flags "a.proto"]).link.2.toOption.bind (·.fields[0]?)).map
      FieldRecord.packed = some true := by
    decide +kernel
  obtain ⟨l, t, hlink⟩ := exists_tables (l := ofFiles [Sample.flags "a.proto"]) (by decide +kernel)
  obtain ⟨r, hr, hflag⟩ := Option.map_eq_some_iff.mp hpacked
  rw [hlink] at hr
  obtain ⟨hfiles, hrecords⟩ := keepsTo_of_link hread hlink
  exact ⟨l, t, r, hlink, hr, hflag, hfiles, hrecords 0 r hr⟩

end Linker

end ProtoSchema
