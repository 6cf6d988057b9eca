import Mathlib
import ProtoSchema.Proofs.Linker.Alongside
import ProtoSchema.Proofs.Linker.Linked
import ProtoSchema.Proofs.Linker.Meaning

/-!
# Files out of sight

A file that is not seen from another has no part in what references there stand for, apart from the
packages it opens: these are seen from everywhere. So declaring such a file, before or after others,
leaves every reference as it is, or makes it stand for a package that no other file opens
(`referent?_insert`).
-/

namespace ProtoSchema

namespace Linker

variable {l m : Linker} {extra : List Definition} {file : FileScope}

/-! ## What has been declared -/

theorem ofFiles_append (files files' : List SchemaFile) :
    ofFiles (files ++ files') = files'.foldl declare (ofFiles files) := by
  rw [ofFiles, ofFiles, List.foldl_append]

theorem packages_of_outline (g : SchemaFile) :
    ∀ e ∈ g.outline.definitions, e.kind = .package → e.file = none := by
  intro e he hkind
  have howned := g.outline_ownedBy e he
  rw [Definition.OwnedBy, if_pos hkind] at howned
  exact howned.1

/-- Every definition comes from the outline of some file. -/
theorem exists_outline_of_mem {files : List SchemaFile} {d : Definition}
    (hd : d ∈ (ofFiles files).definitions) :
    ∃ f ∈ files, d.unplaced ∈ f.outline.definitions := by
  have hrun := @alongside_declareAll [] (by simp) empty empty files
  rcases hrun.entered d hd with hd | hd
  · exact absurd hd (by simp [empty])
  · simpa [Outline.ofFiles, Outline.flatten, List.flatMap_map] using hd

/-- A file brings in nothing but the definitions of its outline. -/
theorem beside_declare (l : Linker) (g : SchemaFile) :
    Beside g.outline.definitions l (l.declare g) := by
  have hrun := alongside_declare (packages_of_outline g) l l g
  obtain ⟨new, hnew⟩ := hrun.grown
  constructor
  · intro name d hd
    refine ⟨d, ?_, rfl⟩
    unfold definition? at hd ⊢
    rw [← hnew, List.find?_append, hd, Option.some_or]
  · intro name e hnone he
    have hname := fullName_of_definition? he
    have hmem : e ∈ (l.declare g).definitions := List.mem_of_find?_eq_some he
    rcases hrun.entered e hmem with hold | hin
    · exact absurd (hname ▸ List.mem_map_of_mem hold) (definition?_eq_none.mp hnone)
    · exact hin

/-- If a file clashes with none of the others, then all that it changes, wherever it is declared
among them, is that its definitions are there besides. -/
theorem beside_insert {before after : List SchemaFile} {g : SchemaFile}
    (hclean : ((ofFiles (before ++ after)).declare g).reports =
      (ofFiles (before ++ after)).reports) :
    Beside g.outline.definitions (ofFiles (before ++ after)) (ofFiles (before ++ g :: after)) := by
  have hdistinct := (declares_ofFiles (before ++ after)).distinct
  have hfits := ((declares_declare hdistinct g).clean.mp hclean).2
  have hrun := alongside_declareAll (packages_of_outline g) (ofFiles before)
    ((ofFiles before).declare g) after
  rw [ofFiles_append] at hfits ⊢
  rw [ofFiles_append before (g :: after)]
  exact hrun.beside hfits.2 (beside_declare _ g)

/-! ## What is seen -/

section

variable {before after : List SchemaFile} {g f : SchemaFile}

theorem publicImports_insert (hnames : ((before ++ g :: after).map (·.name)).Nodup) {name : Text}
    (hname : name ≠ g.name) : (ofFiles (before ++ g :: after)).publicImports name =
      (ofFiles (before ++ after)).publicImports name := by
  have hnames' : ((before ++ after).map (·.name)).Nodup :=
    hnames.sublist (((List.sublist_cons_self g after).append_left before).map _)
  have hother : g.scope.name ≠ name := hname.symm
  unfold publicImports file?
  rw [files_ofFiles hnames, files_ofFiles hnames']
  simp [List.find?_append, hother]

/-- A file that is not seen changes nothing about what is seen. -/
theorem sees_insert (hnames : ((before ++ g :: after).map (·.name)).Nodup)
    (hhidden : ¬ (ofFiles (before ++ after)).Sees file g.name) {n : Text} :
    (ofFiles (before ++ g :: after)).Sees file n ↔ (ofFiles (before ++ after)).Sees file n := by
  constructor
  · intro h
    induction h with
    | self => exact .self
    | direct h => exact .direct h
    | @through m n _ h ih =>
      have hne : m ≠ g.name := fun heq => hhidden (heq ▸ ih)
      exact .through ih (publicImports_insert hnames hne ▸ h)
  · intro h
    induction h with
    | self => exact .self
    | direct h => exact .direct h
    | @through m n hm h ih =>
      have hne : m ≠ g.name := fun heq => hhidden (heq ▸ hm)
      exact .through ih (publicImports_insert hnames hne ▸ h)

theorem mem_visibleFrom_insert (hnames : ((before ++ g :: after).map (·.name)).Nodup)
    (hf : f ∈ before ++ after)
    (hhidden : g.name ∉ (ofFiles (before ++ after)).visibleFrom f.scope) {n : Text} :
    n ∈ (ofFiles (before ++ g :: after)).visibleFrom f.scope ↔
      n ∈ (ofFiles (before ++ after)).visibleFrom f.scope := by
  have hsub := (List.sublist_cons_self g after).append_left before
  have hnames' : ((before ++ after).map (·.name)).Nodup := hnames.sublist (hsub.map _)
  have hdistinct := (coherent_ofFiles hnames).unlinked.files
  have hdistinct' := (coherent_ofFiles hnames').unlinked.files
  have hin := scope_mem_files hnames (hsub.subset hf)
  have hin' := scope_mem_files hnames' hf
  rw [mem_visibleFrom hdistinct' hin'] at hhidden
  rw [mem_visibleFrom hdistinct hin, mem_visibleFrom hdistinct' hin', sees_insert hnames hhidden]

end

/-! ## What is found -/

theorem seenIn_unplaced (d : Definition) (names : List Text) :
    d.unplaced.seenIn names = d.seenIn names := rfl

theorem seenIn_congr {names names' : List Text} (h : ∀ n, n ∈ names ↔ n ∈ names')
    (d : Definition) : d.seenIn names = d.seenIn names' := by
  unfold Definition.seenIn
  cases d.file with
  | none => rfl
  | some n =>
    rw [Bool.eq_iff_iff]
    simpa using h n

/-- A definition that is not seen where its file is hidden is a package. -/
theorem package_of_seenIn {d : Definition} {names : List Text} (howned : d.OwnedBy file)
    (hhidden : file.name ∉ names) (hseen : d.seenIn names) :
    d.kind = .package ∧ d.file = none ∧ d.fullName ∈ Dotted.packages file.package := by
  unfold Definition.OwnedBy at howned
  split_ifs at howned with hkind
  · exact ⟨hkind, howned⟩
  · simp [Definition.seenIn, howned, hhidden] at hseen

/-- If the extra definitions are those of a hidden file, then a lookup finds the same with and
without them, or it finds a package which only that file opens. -/
theorem Beside.lookup? {l m : Linker} {extra : List Definition} (h : Beside extra l m)
    {names names' : List Text} (hseen : ∀ n, n ∈ names' ↔ n ∈ names)
    (howned : ∀ d ∈ extra, d.OwnedBy file) (hhidden : file.name ∉ names) (scope name : String) :
    (m.lookup? scope name (·.seenIn names')).map Definition.unplaced =
        (l.lookup? scope name (·.seenIn names)).map Definition.unplaced ∨
      ∃ p ∈ Dotted.packages file.package, l.definition? p = none ∧
        (m.lookup? scope name (·.seenIn names')).map Definition.unplaced =
          some ⟨.package, p, none, none⟩ := by
  unfold Linker.lookup?
  -- the candidates are tried one after the other
  induction Dotted.candidates scope name with
  | nil => exact .inl rfl
  | cons n ns ih =>
    rw [List.findSome?_cons, List.findSome?_cons]
    cases hl : l.definition? n with
    | some d =>
      obtain ⟨e, hm, hsame⟩ := h.kept n d hl
      have hboth : e.seenIn names' = d.seenIn names := by
        rw [seenIn_congr hseen, ← seenIn_unplaced, hsame, seenIn_unplaced]
      rw [hm, Option.filter_some, Option.filter_some, hboth]
      cases d.seenIn names
      · exact ih
      · exact .inl (congrArg some hsame)
    | none =>
      cases hm : m.definition? n with
      | none => exact ih
      | some e =>
        rw [Option.filter_some, Option.filter_none]
        cases hsee : e.seenIn names' with
        | false => exact ih
        | true =>
          -- what only the hidden file defines is seen just if it is a package
          rw [seenIn_congr hseen, ← seenIn_unplaced] at hsee
          obtain ⟨hkind, hfile, hpackage⟩ :=
            package_of_seenIn (howned _ (h.added n e hl hm)) hhidden hsee
          rw [unplaced_fullName, fullName_of_definition? hm] at hpackage
          refine .inr ⟨n, hpackage, hl, ?_⟩
          have hname := fullName_of_definition? hm
          obtain ⟨kind, fullName, efile, place⟩ := e
          simp only [Definition.unplaced] at hkind hfile hname
          subst hkind hfile hname
          rfl

/-! ## References -/

/-- What a reference of a file is resolved to once files have been declared: the kind, the full name
and the file of a definition. -/
def referent? (files : List SchemaFile) (f : SchemaFile) (scope name : String)
    (position : Option Position) : Option Definition :=
  ((ofFiles files).resolve scope name f.scope position).2.map Definition.unplaced

/-- A reference is settled if it stands for a package of some file or for another definition of a
file that is seen, or else is noted once. -/
structure ReferenceSettled (files : List SchemaFile) (f : SchemaFile) (scope name : String)
    (position : Option Position) : Prop where
  declared : ∀ d, referent? files f scope name position = some d →
    ∃ f' ∈ files, d ∈ f'.outline.definitions ∧
      (d.kind = .package ∨ (ofFiles files).Sees f.scope f'.name)
  noted : referent? files f scope name position = none →
    ∃ p, ((ofFiles files).resolve scope name f.scope position).1.reports =
      (ofFiles files).reports ++ [f.scope.reportOf position p]

section

variable {files : List SchemaFile} {f : SchemaFile}

theorem referent?_eq (hnames : (files.map (·.name)).Nodup) (hf : f ∈ files) (scope name : String)
    (position : Option Position) : referent? files f scope name position =
      ((ofFiles files).meaning? scope name f.scope).map Definition.unplaced := by
  obtain ⟨l, heq, -⟩ :=
    (coherent_ofFiles hnames).knows.resolve (scope_mem_files hnames hf) scope name position
  rw [referent?, heq]

/-- What a reference means is seen. -/
theorem seenIn_of_meaning? {l : Linker} {scope name : String} {d : Definition}
    (h : l.meaning? scope name file = some d) : d.seenIn (l.visibleFrom file) := by
  obtain ⟨fullName, -, hd⟩ := List.exists_of_findSome?_eq_some h
  exact (Option.filter_eq_some_iff.mp hd).2

theorem referenceSettled (hnames : (files.map (·.name)).Nodup) (hf : f ∈ files)
    (scope name : String) (position : Option Position) :
    ReferenceSettled files f scope name position := by
  have hl := coherent_ofFiles hnames
  have hin := scope_mem_files hnames hf
  have hreferent := referent?_eq hnames hf scope name position
  constructor
  · intro d hd
    rw [hreferent] at hd
    obtain ⟨e, he, rfl⟩ := Option.map_eq_some_iff.mp hd
    obtain ⟨f', hf', houtline⟩ := exists_outline_of_mem (mem_of_meaning? he)
    refine ⟨f', hf', houtline, ?_⟩
    by_cases hkind : e.unplaced.kind = .package
    · exact .inl hkind
    have howned := f'.outline_ownedBy _ houtline
    rw [Definition.OwnedBy, if_neg hkind] at howned
    have hseen := seenIn_of_meaning? he
    rw [← seenIn_unplaced, Definition.seenIn, howned] at hseen
    exact .inr ((mem_visibleFrom hl.unlinked.files hin).mp (List.contains_iff_mem.mp hseen))
  · intro hnone
    rw [hreferent, Option.map_eq_none_iff] at hnone
    refine ⟨(ofFiles files).missing scope name f.scope, ?_⟩
    rw [hl.knows.reports_resolve hin, referenceNotes, hnone]

end

/-- A file that is not seen from another, and that clashes with none of the others, has no part in
what references there stand for, unless they come to stand for a package that no other file opens. -/
theorem referent?_insert {before after : List SchemaFile} {g f : SchemaFile}
    (hnames : ((before ++ g :: after).map (·.name)).Nodup) (hf : f ∈ before ++ after)
    (hhidden : ¬ (ofFiles (before ++ after)).Sees f.scope g.name)
    (hclean : ((ofFiles (before ++ after)).declare g).reports =
      (ofFiles (before ++ after)).reports)
    (scope name : String) (position : Option Position) :
    (referent? (before ++ g :: after) f scope name position =
        referent? (before ++ after) f scope name position ∨
      ∃ p ∈ Dotted.packages g.scope.package, (ofFiles (before ++ after)).definition? p = none ∧
        referent? (before ++ g :: after) f scope name position =
          some ⟨.package, p, none, none⟩) ∧
    ReferenceSettled (before ++ after) f scope name position ∧
    ReferenceSettled (before ++ g :: after) f scope name position := by
  have hsub := (List.sublist_cons_self g after).append_left before
  have hnames' : ((before ++ after).map (·.name)).Nodup := hnames.sublist (hsub.map _)
  have hf' : f ∈ before ++ g :: after := hsub.subset hf
  refine ⟨?_, referenceSettled hnames' hf .., referenceSettled hnames hf' ..⟩
  rw [← mem_visibleFrom (coherent_ofFiles hnames').unlinked.files (scope_mem_files hnames' hf)]
    at hhidden
  rw [referent?_eq hnames hf', referent?_eq hnames' hf]
  exact (beside_insert hclean).lookup? (fun n => mem_visibleFrom_insert hnames hf hhidden)
    g.outline_ownedBy hhidden scope name

end Linker

/-! ## Sample files -/

namespace Sample

/-- A file that is in a package and has messages of the given names, without fields. -/
def packaged (name package : String) (messages : List String) (imports : List String) :
    SchemaFile where
  name := Text.ofString name
  dialect := .proto2
  package := some package
  imports := imports.map fun path => ⟨Text.ofString path, none, ⟨1, 1⟩⟩
  messages := messages.map fun name => ⟨name, [], [], [], [], [], [], [], [], [], ⟨1, 1⟩⟩
  enums := []
  services := []
  extendBlocks := []
  options := []

/-- A file that imports another. -/
def reader : SchemaFile := packaged "reader.proto" "a" ["M"] ["library.proto"]

/-- The file that is imported. -/
def library : SchemaFile := packaged "library.proto" "b" ["X"] []

/-- A file that is imported by none, in a package which stands closer to the one than the message of
the other. -/
def outsider : SchemaFile := packaged "outsider.proto" "a.b.X" ["Y"] []

end Sample

namespace Linker

theorem outsider_unseen :
    ¬ (ofFiles [Sample.reader, Sample.library]).Sees Sample.reader.scope Sample.outsider.name := by
  rw [← mem_visibleFrom (by decide +kernel) (by decide +kernel)]
  decide +kernel

theorem referent?_insert_sample :
    referent? [Sample.reader, Sample.outsider, Sample.library] Sample.reader "a.M" "b.X" none =
      some ⟨.package, "a.b.X", none, none⟩ ∧
    ReferenceSettled [Sample.reader, Sample.outsider, Sample.library] Sample.reader "a.M" "b.X"
      none := by
  have h := @referent?_insert [Sample.reader] [Sample.library] Sample.outsider Sample.reader
    (by decide +kernel) (by simp) outsider_unseen (by decide +kernel) "a.M" "b.X" none
  exact ⟨by decide +kernel, h.2.2⟩

/-- A file that is not seen can change what a reference stands for. -/
theorem referent?_shadowed :
    ¬ (ofFiles [Sample.reader, Sample.library]).Sees Sample.reader.scope Sample.outsider.name ∧
    (ofFiles [Sample.reader, Sample.library, Sample.outsider]).reports = [] ∧
    referent? [Sample.reader, Sample.library] Sample.reader "a.M" "b.X" none =
      some ⟨.message, "b.X", some Sample.library.name, none⟩ ∧
    referent? [Sample.reader, Sample.library, Sample.outsider] Sample.reader "a.M" "b.X" none =
      some ⟨.package, "a.b.X", none, none⟩ := by
  exact ⟨outsider_unseen, by decide +kernel, by decide +kernel, by decide +kernel⟩

end Linker

end ProtoSchema
