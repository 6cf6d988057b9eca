import ProtoSchema.Proofs.Pool.Visits

/-!
# Search paths

If nothing is reported while the directories of a pool are gone through, then no file was left out but
for another one of its name (`Visits.firsts`). So where no directory lies below another one, the file
that goes by a name is the one below the first directory that has such a file (`create_loads_first`),
and this is where an import of the name is looked for, too. Only a path that is too long to be asked
for can come between: a search for an import breaks down at it.
-/

namespace ProtoSchema

namespace Pool

variable {t : FileTree} {p p' p₁ q : Pool} {path root : Path} {id : Nat}
  {subscriber : Option String} {paths roots skipped skipped' directories : List Path}
  {loaded loaded' : List (Path × SchemaFile)}

/-! ## Visits without reports -/

theorem reports_prefix_load {name : Text} :
    p.reports <+: (p.load t path name root).1.reports := by
  unfold load
  split
  · exact List.prefix_append ..
  · next text _ =>
    rcases p.linker.loadText name text with ⟨l, _ | _⟩ <;> exact List.prefix_append ..

theorem Visits.reports_prefix (h : Visits t paths p loaded skipped p') : p.reports <+: p'.reports := by
  induction h with
  | none p => exact List.prefix_rfl
  | skipped _ _ ih => exact ih
  | loaded _ _ _ ih | failed _ _ _ ih => exact reports_prefix_load.trans ih

theorem Scans.reports_prefix (h : Scans t roots p loaded skipped p') : p.reports <+: p'.reports := by
  induction h with
  | none p => exact List.prefix_rfl
  | directory _ hfirst _ ih => exact hfirst.reports_prefix.trans ih
  | noDirectory _ _ ih => exact (List.prefix_append ..).trans ih

/-- Where nothing is reported, all directories are there. -/
theorem Scans.of_reports (h : Scans t roots p loaded skipped p') (hclean : p'.reports = []) :
    (∀ root ∈ roots, t.lookUp root = .ok (some .directory)) ∧
      Visits t (roots.flatMap t.schemaFiles) p loaded skipped p' := by
  induction h with
  | none p => exact ⟨by simp, .none p⟩
  | directory hroot hfirst _ ih =>
    obtain ⟨hroots, hvisits⟩ := ih hclean
    exact ⟨List.forall_mem_cons.mpr ⟨hroot, hroots⟩, hfirst.trans hvisits⟩
  | noDirectory _ hrest _ =>
    have hnone := List.prefix_nil.mp (hclean ▸ hrest.reports_prefix)
    exact absurd hnone (by simp [after, Pool.publish])

/-- What has become of some paths where nothing was reported: all their names are known, and a file
that has been loaded is that of the first path by its name, which was new. -/
structure Firsts (t : FileTree) (p : Pool) (paths : List Path) (loaded : List (Path × SchemaFile))
    (p' : Pool) : Prop where
  known : ∀ path ∈ paths, (p'.linker.file? (p.importName path).1).isSome
  outcome : ∀ x ∈ loaded, (p.attempt t x.1).outcome = .ok x.2
  new : ∀ x ∈ loaded, p.linker.file? (p.importName x.1).1 = none
  first : ∀ x ∈ loaded, ∃ before after, paths = before ++ x.1 :: after ∧
    ∀ path ∈ before, (p.importName path).1 ≠ (p.importName x.1).1

/-- The name of one more path before the others is known, so that none of these is loaded under
it. -/
theorem Firsts.cons (h : Firsts t p₁ paths loaded p') (hrest : Tally p₁ paths loaded skipped p')
    (hfirst : Tally p [path] loaded' skipped' p₁)
    (hknown : (p₁.linker.file? (p.importName path).1).isSome) :
    Firsts t p (path :: paths) loaded p' := by
  have hnames := importName_of_directories hfirst.directories
  have hattempts : p₁.attempt t = p.attempt t := by
    funext path
    rw [attempt, attempt, hnames]
  obtain ⟨hall, houtcomes, hnew, hfirsts⟩ := h
  rw [hnames] at hall hnew hfirsts
  refine ⟨?_, hattempts ▸ houtcomes, fun x hx => ?_, fun x hx => ?_⟩
  · exact List.forall_mem_cons.mpr ⟨hrest.isSome_file? hknown, hall⟩
  · by_contra hold
    have hkept := hfirst.isSome_file? (Option.isSome_iff_ne_none.mpr hold)
    simp [hnew x hx] at hkept
  · obtain ⟨before, after, rfl, hothers⟩ := hfirsts x hx
    refine ⟨path :: before, after, rfl, List.forall_mem_cons.mpr ⟨fun hsame => ?_, hothers⟩⟩
    rw [hsame, hnew x hx] at hknown
    cases hknown

theorem Visits.firsts (h : Visits t paths p loaded skipped p') (hclean : p'.reports = []) :
    Firsts t p paths loaded p' := by
  induction h with
  | none p => exact ⟨by simp, by simp, by simp, by simp⟩
  | @skipped path paths skipped p p' loaded hknown hrest ih =>
    exact (ih hclean).cons hrest.tally (.of_same rfl rfl) hknown
  | @failed path paths skipped p p' loaded r hnew houtcome hrest ih =>
    have hnone := List.prefix_nil.mp (hclean ▸ hrest.reports_prefix)
    exact absurd hnone (load_of_failed houtcome).2
  | @loaded path paths skipped p p' f loaded hnew houtcome hrest ih =>
    have hone : Visits t [path] p [(path, f)] [] (p.after (.file (p.attempt t path))) :=
      .loaded hnew houtcome (.none _)
    have hfiles : (p.after (.file (p.attempt t path))).linker.files = p.linker.files ++ [f.scope] :=
      files_load_of_ok hnew houtcome
    have hknown : ((p.after (.file (p.attempt t path))).linker.file?
        (p.importName path).1).isSome :=
      Pool.isSome_file? ⟨f.scope, by simp [hfiles], SchemaFile.name_eq_of_outcome houtcome⟩
    obtain ⟨hall, houtcomes, hothers, hfirsts⟩ := (ih hclean).cons hrest.tally hone.tally hknown
    refine ⟨hall, ?_, ?_, ?_⟩
    · exact List.forall_mem_cons.mpr ⟨houtcome, houtcomes⟩
    · exact List.forall_mem_cons.mpr ⟨hnew, hothers⟩
    · exact List.forall_mem_cons.mpr ⟨⟨[], paths, rfl, by simp⟩, hfirsts⟩

/-- The linker behind some visits is the one that the loaded files have been declared to. -/
theorem Visits.linker (h : Visits t paths p loaded skipped p') {l : Linker} (hl : l.Coherent)
    (hp : p.linker = l.quiet) :
    p'.linker = ((loaded.map Prod.snd).foldl Linker.declare l).quiet := by
  induction h generalizing l with
  | none p => exact hp
  | skipped _ _ ih => exact ih hl hp
  | @loaded path paths skipped p p' f loaded hnew houtcome _ ih =>
    have hfits : p.Fits (.file (p.attempt t path)) := ⟨hnew, .inl rfl⟩
    have heffect := hfits.effect hl hp
    have hdeclared : [LoadEvent.file (p.attempt t path)].foldl LoadEvent.declared l =
        l.declare f := by
      simp [LoadEvent.declared, LoadEvent.loaded?, houtcome, Except.toOption]
    rw [List.map_cons, List.foldl_cons]
    exact ih (hdeclared ▸ heffect.coherent) (hdeclared ▸ heffect.linker)
  | @failed path paths skipped p p' loaded r hnew houtcome _ ih =>
    have hfits : p.Fits (.file (p.attempt t path)) := ⟨hnew, .inl rfl⟩
    have heffect := hfits.effect hl hp
    have hdeclared : [LoadEvent.file (p.attempt t path)].foldl LoadEvent.declared l = l := by
      simp [LoadEvent.declared, LoadEvent.loaded?, houtcome, Except.toOption]
    exact ih hl (hdeclared ▸ heffect.linker)

/-! ## The search path -/

/-- A directory is the first of some below which there is a file by a name. -/
def IsFirst (t : FileTree) (directories : List Path) (name : Text) (root : Path) : Prop :=
  ∃ before after, directories = before ++ root :: after ∧ t.isFile (root.join (.ofText name)) ∧
    ∀ r ∈ before, ¬ t.isFile (r.join (.ofText name))

/-- The search for an import finds the first file by its name, unless it breaks down before. -/
theorem findBelow_of_first {name : Text} {before after : List Path}
    (hfile : t.isFile (root.join (.ofText name)))
    (hnone : ∀ r ∈ before, ¬ t.isFile (r.join (.ofText name))) :
    findBelow t name (before ++ root :: after) = .ok (some (root.join (.ofText name), root)) ∨
      ∃ r ∈ before, t.find (r.join (.ofText name)) = .error .nameTooLong ∧
        findBelow t name (before ++ root :: after) =
          .error (.access .nameTooLong (r.join (.ofText name)).text) := by
  induction before with
  | nil =>
    obtain ⟨l, bytes, hfind⟩ := FileTree.exists_find_of_isFile hfile
    left
    simp [findBelow, lookUp_of_find hfind]
  | cons r before ih =>
    rw [List.forall_mem_cons] at hnone
    have hrest : findBelow t name (before ++ root :: after) =
          .ok (some (root.join (.ofText name), root)) ∨
        ∃ r' ∈ r :: before, t.find (r'.join (.ofText name)) = .error .nameTooLong ∧
          findBelow t name (before ++ root :: after) =
            .error (.access .nameTooLong (r'.join (.ofText name)).text) := by
      rcases ih hnone.2 with hfound | ⟨r', hr', hbroken⟩
      · exact .inl hfound
      · exact .inr ⟨r', List.mem_cons_of_mem _ hr', hbroken⟩
    rw [List.cons_append, findBelow]
    cases hfind : t.find (r.join (.ofText name)) with
    | ok found =>
      obtain ⟨l, bytes | _⟩ := found
      · simp only [lookUp_of_find hfind]
        exact hrest
      · exact absurd (by simp [FileTree.isFile, hfind]) hnone.1
    | error e =>
      by_cases he : e = .nameTooLong
      · subst he
        refine .inr ⟨r, List.mem_cons_self, hfind, ?_⟩
        simp [FileTree.lookUp, hfind]
      · have hmissing : t.lookUp (r.join (.ofText name)) = .ok none := by
          unfold FileTree.lookUp
          rw [hfind]
          cases e <;> first | rfl | exact absurd rfl he
        simp only [hmissing]
        exact hrest

/-- Where an item of one of many lists stands, all lists before stand before it. -/
theorem exists_of_flatMap_eq_append {α β : Type} {g : α → List β} {as : List α} {b : β}
    {before after : List β} (h : as.flatMap g = before ++ b :: after) :
    ∃ as₁ a as₂, as = as₁ ++ a :: as₂ ∧ b ∈ g a ∧ ∀ a' ∈ as₁, g a' ⊆ before := by
  induction as generalizing before with
  | nil => simp at h
  | cons a as ih =>
    rw [List.flatMap_cons, List.append_eq_append_iff] at h
    rcases h with ⟨rest, rfl, hrest⟩ | ⟨rest, ha, hrest⟩
    · obtain ⟨as₁, a', as₂, rfl, hb, hbefore⟩ := ih hrest
      refine ⟨a :: as₁, a', as₂, rfl, hb, List.forall_mem_cons.mpr ⟨?_, fun a'' ha'' => ?_⟩⟩
      · exact List.subset_append_left ..
      · exact List.Subset.trans (hbefore a'' ha'') (List.subset_append_right ..)
    · cases rest with
      | nil =>
        have hfirst : as.flatMap g = [] ++ b :: after := hrest.symm
        obtain ⟨as₁, a', as₂, rfl, hb, hbefore⟩ := ih hfirst
        refine ⟨a :: as₁, a', as₂, rfl, hb, List.forall_mem_cons.mpr ⟨?_, fun a'' ha'' => ?_⟩⟩
        · rw [ha, List.append_nil]
          exact List.Subset.refl _
        · exact List.Subset.trans (hbefore a'' ha'') (List.nil_subset _)
      | cons b' rest =>
        obtain ⟨rfl, -⟩ := List.cons.inj hrest
        exact ⟨[], a, as, rfl, by simp [ha], by simp⟩

section

variable (ht : t.Named) (hapart : Apart q.directories) (hmem : root ∈ q.directories)
  (hplain : root.IsPlain)
include ht hapart hmem hplain

/-- A schema file below a directory goes by the names that lead to it from there. -/
theorem exists_way_of_mem_schemaFiles (hfound : path ∈ t.schemaFiles root) (hfile : t.isFile path) :
    ∃ cs, (∀ c ∈ cs, Path.IsEntry c) ∧ cs ≠ [] ∧ FileTree.isSchemaName (cs.getLastD ⟨[]⟩) ∧
      root.join (.ofText (Path.text ⟨false, cs⟩)) = path ∧
      q.importName path = (Path.text ⟨false, cs⟩, root) := by
  obtain ⟨place, hroot⟩ := FileTree.exists_place_of_mem_schemaFiles hfound
  obtain ⟨key, bytes, hkey, ⟨cs, rfl⟩, hschema, rfl⟩ := (FileTree.mem_schemaFiles hroot).mp hfound
  have hnames : ∀ c ∈ place ++ cs, Path.IsEntry c := ht _ hkey
  have hcs : cs ≠ [] := by
    -- the directory itself is no file
    rintro rfl
    obtain ⟨l, bytes', hfind⟩ := FileTree.exists_find_of_isFile hfile
    have hnode := FileTree.node?_of_find_below hplain hroot (List.prefix_append ..) hnames hfind
    have hdirectory := (FileTree.walk_of_find hroot).2.2
    rw [List.append_nil] at hnode
    simp [FileTree.nodeAt?, hnode] at hdirectory
  have hjoin : root.join (.ofText (Path.text ⟨false, (place ++ cs).drop place.length⟩)) =
      FileTree.pathBelow root place (place ++ cs) := FileTree.join_ofText_below hnames
  have hname := importName_of_apart hapart hmem hplain hroot (List.prefix_append ..) hnames
  rw [List.drop_left] at hjoin hname
  refine ⟨cs, fun c hc => hnames c (List.mem_append_right _ hc), hcs, ?_, hjoin, hname⟩
  obtain ⟨cs, c, rfl⟩ := (List.eq_nil_or_concat cs).resolve_left hcs
  rw [List.concat_eq_append, ← List.append_assoc, List.getLastD_concat] at hschema
  simpa using hschema

/-- What names lead to from a directory goes by these names, if it is a schema file. -/
theorem exists_schemaFile_of_way (hroot : t.lookUp root = .ok (some .directory)) {cs : List Text}
    (hnames : ∀ c ∈ cs, Path.IsEntry c) (hcs : cs ≠ [])
    (hschema : FileTree.isSchemaName (cs.getLastD ⟨[]⟩))
    (hfile : t.isFile (root.join (.ofText (Path.text ⟨false, cs⟩)))) :
    ∃ path ∈ t.schemaFiles root, q.importName path = (Path.text ⟨false, cs⟩, root) := by
  obtain ⟨place, bytes, hplace, hkey, hfound⟩ :=
    FileTree.exists_schemaFile_of_isFile hplain hroot hnames hcs hschema hfile
  have hname := importName_of_apart hapart hmem hplain hplace (List.prefix_append ..) (ht _ hkey)
  rw [List.drop_left] at hname
  exact ⟨_, hfound, hname⟩

end

/-- A file that is loaded from the directories is the first by its name. -/
theorem Firsts.isFirst (ht : t.Named) (hapart : Apart q.directories)
    (hplain : ∀ r ∈ q.directories, r.IsPlain)
    (hroots : ∀ r ∈ q.directories, t.lookUp r = .ok (some .directory))
    (h : Firsts t q (q.directories.flatMap t.schemaFiles) loaded p) {x : Path × SchemaFile}
    (hx : x ∈ loaded) : ∃ root, IsFirst t q.directories x.2.name root ∧
      Attempt.outcome ⟨t, root.join (.ofText x.2.name), x.2.name, root⟩ = .ok x.2 := by
  have houtcome := h.outcome x hx
  obtain ⟨before, after, hpaths, hothers⟩ := h.first x hx
  obtain ⟨roots, root, roots', hdirectories, hfound, hbefore⟩ := exists_of_flatMap_eq_append hpaths
  have hmem : root ∈ q.directories := by simp [hdirectories]
  have hfile : t.isFile x.1 := by
    obtain ⟨l, bytes, hfind⟩ := Attempt.exists_find houtcome
    rw [FileTree.isFile, show t.find x.1 = _ from hfind]
  obtain ⟨cs, hnames, hcs, hschema, hjoin, hname⟩ :=
    exists_way_of_mem_schemaFiles ht hapart hmem (hplain root hmem) hfound hfile
  have hown : x.2.name = Path.text ⟨false, cs⟩ :=
    (SchemaFile.name_eq_of_outcome houtcome).trans (congrArg Prod.fst hname)
  rw [hown]
  refine ⟨root, ⟨roots, roots', hdirectories, hjoin ▸ hfile, fun r hr hearlier => ?_⟩, ?_⟩
  · -- a file below an earlier directory would have gone by the same name
    have hrmem : r ∈ q.directories := by simp [hdirectories, hr]
    obtain ⟨path, hpath, hname'⟩ := exists_schemaFile_of_way ht hapart hrmem (hplain r hrmem)
      (hroots r hrmem) hnames hcs hschema hearlier
    exact hothers path (hbefore r hr hpath) (by rw [hname', hname])
  · rw [attempt, hname] at houtcome
    rw [hjoin]
    exact houtcome

/-- The directories of a new pool have been gone through. -/
theorem exists_scans_of_create (h : create t id directories subscriber = (.ok (), p)) :
    ∃ loaded skipped, Scans t directories (fresh id directories subscriber) loaded skipped p := by
  rw [create_eq] at h
  rcases hrun : (loadEachDirectory directories).on t (fresh id directories subscriber) with
    ⟨e | count, p'⟩ <;> rw [hrun] at h <;> cases h
  obtain ⟨loaded, skipped, hscans, -⟩ := exists_scans hrun
  exact ⟨loaded, skipped, hscans⟩

/-- Whatever is in a file tree: if a new pool of directories that lie apart has nothing to report, then
its files are those that have been loaded under their names, each from the first directory below which
there is a file by this name; and every schema file below any of the directories goes by the way to it.
A search for an import by one of the names finds the same file. Only if the path to ask for below an
earlier directory is too long does the search break down instead. -/
theorem create_loads_first (ht : t.Named) {directories : List Text}
    (hapart : Apart (directories.map Path.ofText))
    (hcreate : create t id (directories.map Path.ofText) subscriber = (.ok (), p))
    (hclean : p.reports = []) :
    p.directories = directories.map Path.ofText ∧
    (∃ files, p.linker = (Linker.ofFiles files).quiet ∧ p.linker.files = files.map (·.scope) ∧
      ∀ f ∈ files, ∃ root, IsFirst t p.directories f.name root ∧
        Attempt.outcome ⟨t, root.join (.ofText f.name), f.name, root⟩ = .ok f ∧
        ∀ importer,
          p.findImport t f.name importer = .ok (some (root.join (.ofText f.name), root)) ∨
          ∃ r ∈ p.directories, Path.isTooLong (r.join (.ofText f.name)).text ∧
            p.findImport t f.name importer =
              .error (.access .nameTooLong (r.join (.ofText f.name)).text)) ∧
    ∀ root ∈ p.directories, ∀ place, t.find root = .ok (⟨0, place⟩, .directory) →
      ∀ key bytes, t.node? key = some (.file bytes) → place <+: key →
        FileTree.isSchemaName (key.getLastD ⟨[]⟩) →
        (p.linker.file? (Path.text ⟨false, key.drop place.length⟩)).isSome := by
  obtain ⟨loaded, skipped, hscans⟩ := exists_scans_of_create hcreate
  obtain ⟨hroots, hvisits⟩ := hscans.of_reports hclean
  have hblank := blank_fresh id (directories.map Path.ofText) subscriber
  have hsearched : (fresh id (directories.map Path.ofText) subscriber).directories =
      directories.map Path.ofText := rfl
  generalize fresh id (directories.map Path.ofText) subscriber = q at hscans hvisits hblank hsearched
  have htally := hvisits.tally
  have hdirectories : p.directories = q.directories := htally.directories
  rw [← hsearched] at hapart hroots hvisits hscans ⊢
  have hplain : ∀ r ∈ q.directories, r.IsPlain := by
    rw [hsearched]
    exact List.forall_mem_map.mpr fun text _ => Path.isPlain_ofText text
  have hfirsts := hvisits.firsts hclean
  refine ⟨hdirectories, ⟨loaded.map Prod.snd, ?_, ?_, ?_⟩, ?_⟩
  · exact hvisits.linker Linker.coherent_empty hblank.linker
  · rw [htally.files, hblank.linker]
    simp [Linker.empty]
  · intro f hf
    obtain ⟨x, hx, rfl⟩ := List.mem_map.mp hf
    obtain ⟨root, hfirst, houtcome⟩ := hfirsts.isFirst ht hapart hplain hroots hx
    refine ⟨root, hdirectories ▸ hfirst, houtcome, fun importer => ?_⟩
    obtain ⟨before, after, hsplit, hfile, hnone⟩ := hfirst
    have hmem : ∀ r ∈ before, r ∈ q.directories := fun r hr => by simp [hsplit, hr]
    rw [findImport, hdirectories, hsplit, List.append_assoc, List.cons_append]
    rcases findBelow_of_first hfile hnone with hfound | ⟨r, hr, hfind, hbroken⟩
    · exact .inl hfound
    · refine .inr ⟨r, by simp [hr], ?_, hbroken⟩
      exact FileTree.isTooLong_of_find_join (hplain root (by simp [hsplit])) (Path.isPlain_ofText _)
        hfile (hplain r (hmem r hr)) (hroots r (hmem r hr)) hfind
  · intro root hroot place hplace key bytes hnode hbelow hschema
    rw [hdirectories] at hroot
    have hkey := FileTree.mem_nodes_of_node?_key hnode
    have hpath : FileTree.pathBelow root place key ∈ q.directories.flatMap t.schemaFiles :=
      List.mem_flatMap.mpr ⟨root, hroot, (FileTree.mem_schemaFiles hplace).mpr
        ⟨key, bytes, hkey, hbelow, hschema, rfl⟩⟩
    have hknown := hfirsts.known _ hpath
    rwa [importName_of_apart hapart hroot (hplain root hroot) hplace hbelow (ht _ hkey)] at hknown

end Pool

/-! ## A path that is long -/

namespace Sample

/-- A name of 252 characters. -/
def longName : Text := ⟨List.replicate 252 (.char 'a')⟩

/-- A path of 4092 characters, which leads to and fro and in the end to the directory of that name. -/
def windingPath : Path :=
  ⟨false, (List.replicate 15 [longName, Path.up]).flatten ++ [longName]⟩

/-- The text of that path. -/
def winding : Text := windingPath.text

/-- The place of a file in another directory. -/
def placeX : List Text := ["b", "x.proto"]

/-- A file tree with the two directories and the file. -/
def windingTree : FileTree :=
  ⟨[([longName], .directory), ([Text.ofString "b"], .directory),
    (placeX, .file ((Lexed.spaced messageLexemes).map fun c => c.toNat.toUInt8))]⟩

/-- The directory that holds the file. -/
def sourceDirectory : Path := .ofText (Text.ofString "b")

/-- The pool of that directory and another one before it. -/
def poolBehind (root : Path) : Pool :=
  { Pool.fresh 1 [root, sourceDirectory] none with
    linker := (Linker.empty.declare (definer "x.proto")).quiet
    roots := [("x.proto", sourceDirectory)] }

/-- The two directories. -/
def twoDirectories : List Path := [winding, Text.ofString "b"].map Path.ofText

/-- The pool of the two directories. -/
def windingPool : Pool := poolBehind windingPath

end Sample

namespace Pool

theorem mem_windingPath {c : Text} (h : c ∈ Sample.windingPath.components) :
    c = Sample.longName ∨ c = Path.up := by
  simp only [Sample.windingPath, List.mem_append, List.mem_flatten, List.mem_replicate,
    List.mem_singleton] at h
  rcases h with ⟨_, ⟨-, rfl⟩, hc⟩ | rfl
  · simpa using hc
  · exact .inl rfl

theorem ofText_winding : Path.ofText Sample.winding = Sample.windingPath := by
  refine Path.ofText_text_of_isEffective (fun c hc => ?_) fun c hc => ?_
  · rcases mem_windingPath hc with rfl | rfl <;> decide
  · rcases mem_windingPath hc with rfl | rfl
    · exact fun hslash => absurd (List.eq_of_mem_replicate hslash) (by decide)
    · decide

theorem twoDirectories_eq : Sample.twoDirectories = [Sample.windingPath, Sample.sourceDirectory] := by
  rw [Sample.twoDirectories, List.map_cons, ofText_winding]
  rfl

theorem length_toBytes_longName : Sample.longName.toBytes.length = 252 := by
  rw [Text.toBytes, Sample.longName, List.length_flatMap, List.map_replicate, List.sum_replicate]
  rfl

/-- Going to and fro takes the bytes of the name, two points and two slashes. -/
theorem length_toBytes_toAndFro (name : Text) (n : Nat) {cs : List Text} (hcs : cs ≠ []) :
    (Path.text ⟨false, (List.replicate n [name, Path.up]).flatten ++ cs⟩).toBytes.length =
      n * (name.toBytes.length + 4) + (Path.text ⟨false, cs⟩).toBytes.length := by
  have hup : Path.up.toBytes.length = 2 := rfl
  induction n with
  | zero => rw [Nat.zero_mul, Nat.zero_add]; rfl
  | succ n ih =>
    rw [List.replicate_succ, List.flatten_cons, List.append_assoc, List.cons_append, List.cons_append,
      List.nil_append, Path.length_toBytes_text_cons _ (List.cons_ne_nil _ _),
      Path.length_toBytes_text_cons _ (by simp [hcs]), ih, hup, Nat.succ_mul]
    omega

theorem length_toBytes_winding : Sample.winding.toBytes.length = 4092 := by
  rw [Sample.winding, Sample.windingPath, length_toBytes_toAndFro _ _ (List.cons_ne_nil _ _),
    Path.text_singleton, length_toBytes_longName]

theorem hasZero_windingPath {cs : List Text} (h : ∀ c ∈ cs, Path.hasZero c = false) :
    Path.hasZero (Path.text ⟨false, Sample.windingPath.components ++ cs⟩) = false := by
  refine Path.hasZero_text fun c hc => (List.mem_append.mp hc).elim (fun hc => ?_) (h c)
  rcases mem_windingPath hc with rfl | rfl
  · rw [Path.hasZero, List.contains_eq_mem]
    exact decide_eq_false fun hzero => absurd (List.eq_of_mem_replicate hzero) (by decide)
  · decide

/-- Going to and fro leads nowhere else. -/
theorem walk_toAndFro {t : FileTree} {l : Location} {name : Text}
    (hplace : t.nodeAt? l = some .directory) (hthere : t.nodeAt? (l.step name) = some .directory)
    (hback : (l.step name).step Path.up = l) (hplain : name ≠ Path.here)
    (hshort : name.toBytes.length ≤ Path.longestName) (n : Nat) (cs : List Text) :
    t.walk l ((List.replicate n [name, Path.up]).flatten ++ cs) = t.walk l cs := by
  have hup : ¬ Path.longestName < Path.up.toBytes.length ∧ Path.up ≠ Path.here := by decide
  induction n with
  | zero => rfl
  | succ n ih =>
    rw [List.replicate_succ, List.flatten_cons, List.append_assoc, List.cons_append, List.cons_append,
      List.nil_append, FileTree.walk, hplace]
    simp only [if_neg hplain, if_neg (Nat.not_lt.mpr hshort)]
    rw [FileTree.walk, hthere]
    simp only [if_neg hup.1, if_neg hup.2, hback]
    exact ih

theorem find_winding : Sample.windingTree.find Sample.windingPath =
    .ok (⟨0, [Sample.longName]⟩, .directory) := by
  have hzero : Path.hasZero Sample.windingPath.text = false := by
    have hzero := hasZero_windingPath (List.forall_mem_nil _)
    rwa [List.append_nil] at hzero
  have hshort : Path.isTooLong Sample.windingPath.text = false := by
    rw [Path.isTooLong, ← Sample.winding, length_toBytes_winding]
    rfl
  have hplain : Sample.longName ≠ Path.here := by decide
  have hstep : Location.step .start Sample.longName = ⟨0, [Sample.longName]⟩ := by
    rw [Location.step, if_neg (by decide)]
    rfl
  have hthere : Sample.windingTree.nodeAt? ⟨0, [Sample.longName]⟩ = some .directory := by
    simp [FileTree.nodeAt?, FileTree.node?, Sample.windingTree]
  have hwalk : Sample.windingTree.walk .start Sample.windingPath.components =
      .ok ⟨0, [Sample.longName]⟩ := by
    have hname : Sample.longName.toBytes.length ≤ Path.longestName := by
      rw [length_toBytes_longName]
      decide
    rw [Sample.windingPath, walk_toAndFro rfl (hstep ▸ hthere) (hstep ▸ rfl) hplain hname,
      FileTree.walk, show Sample.windingTree.nodeAt? .start = some .directory from rfl]
    simp only [if_neg hplain, if_neg (Nat.not_lt.mpr hname), hstep]
    rfl
  simp only [FileTree.find, hzero, hshort, hwalk, hthere, bind, Except.bind]
  simp [Sample.windingPath]

/-- Behind the winding path, even a short name makes a path that is too long. -/
theorem find_behind_winding : Sample.windingTree.find
    (Sample.windingPath.join (.ofText (Text.ofString "x.proto"))) = .error .nameTooLong := by
  have hjoin : Sample.windingPath.join (.ofText (Text.ofString "x.proto")) =
      ⟨false, Sample.windingPath.components ++ [Text.ofString "x.proto"]⟩ := rfl
  have hzero : Path.hasZero
      (Path.text ⟨false, Sample.windingPath.components ++ [Text.ofString "x.proto"]⟩) = false :=
    hasZero_windingPath (by decide)
  have hlong : Path.isTooLong
      (Path.text ⟨false, Sample.windingPath.components ++ [Text.ofString "x.proto"]⟩) = true := by
    rw [Path.isTooLong, Sample.windingPath, List.append_assoc,
      length_toBytes_toAndFro _ _ (by simp), List.singleton_append,
      Path.length_toBytes_text_cons _ (List.cons_ne_nil _ _), Path.text_singleton,
      length_toBytes_longName]
    decide
  rw [hjoin, FileTree.find, hzero, hlong]
  rfl

theorem find_sourceDirectory : Sample.windingTree.find Sample.sourceDirectory =
    .ok (⟨0, [Text.ofString "b"]⟩, .directory) := rfl

theorem schemaFiles_winding : Sample.windingTree.schemaFiles Sample.windingPath = [] := by
  refine List.eq_nil_iff_forall_not_mem.mpr fun path hpath => ?_
  obtain ⟨key, bytes, hkey, hbelow, -⟩ := (FileTree.mem_schemaFiles find_winding).mp hpath
  obtain ⟨rest, hrest⟩ := hbelow
  simp [Sample.windingTree, Sample.placeX, ← hrest] at hkey
  exact absurd hkey.1.1 (by decide)

theorem schemaFiles_windingTree :
    Sample.windingTree.schemaFiles Sample.sourceDirectory = [⟨false, Sample.placeX⟩] := by
  simp only [FileTree.schemaFiles, find_sourceDirectory]
  rw [← List.mergeSort_singleton (a := (⟨false, Sample.placeX⟩ : Path))]
  congr 1

theorem outcome_windingTree :
    Attempt.outcome ⟨Sample.windingTree, ⟨false, Sample.placeX⟩, "x.proto", Sample.sourceDirectory⟩ =
      .ok (Sample.definer "x.proto") := by
  have hread : (Sample.windingTree.readText ⟨false, Sample.placeX⟩
      (Path.text ⟨false, Sample.placeX⟩)).toOption = some (Lexed.spaced Sample.messageLexemes) := by
    decide +kernel
  cases h : Sample.windingTree.readText ⟨false, Sample.placeX⟩
      (Path.text ⟨false, Sample.placeX⟩) with
  | error e => simp [h, Except.toOption] at hread
  | ok text =>
    obtain rfl : text = _ := by simpa [h, Except.toOption] using hread
    simp only [Attempt.outcome, h, SchemaFile.parse_messageLexemes]
    rfl

/-- The file is loaded, whatever directory without schema files stands before. -/
theorem create_poolBehind {root : Path}
    (hroot : Sample.windingTree.lookUp root = .ok (some .directory))
    (hempty : Sample.windingTree.schemaFiles root = [])
    (hname : (fresh 1 [root, Sample.sourceDirectory] none).importName ⟨false, Sample.placeX⟩ =
      (Text.ofString "x.proto", Sample.sourceDirectory)) :
    create Sample.windingTree 1 [root, Sample.sourceDirectory] none = (.ok (), Sample.poolBehind root) := by
  have hfirst : (loadDirectory root).on Sample.windingTree (fresh 1 [root, Sample.sourceDirectory] none) =
      (.ok 0, fresh 1 [root, Sample.sourceDirectory] none) := by
    rw [on_loadDirectory hroot, hempty, on_loadFiles_nil]
  have hload : (loadFile ⟨false, Sample.placeX⟩).on Sample.windingTree
      (fresh 1 [root, Sample.sourceDirectory] none) = (.ok true, Sample.poolBehind root) := by
    have hzero : ¬ Path.hasZero (Path.text ⟨false, Sample.placeX⟩) := by decide
    have hnotes : (Linker.empty.declare (Sample.definer "x.proto")).reports = [] := by
      decide +kernel
    rw [on_loadFile_of_ok (f := Sample.definer "x.proto") Bool.false_ne_true rfl hzero (by rfl)
      (by rw [hname]; exact outcome_windingTree) hnotes, hname]
    rfl
  obtain ⟨l, bytes, hfind⟩ := Attempt.exists_find outcome_windingTree
  have hfound := lookUp_of_find hfind
  have hsecond : (loadDirectory Sample.sourceDirectory).on Sample.windingTree
      (fresh 1 [root, Sample.sourceDirectory] none) = (.ok 1, Sample.poolBehind root) := by
    have hroot' : Sample.windingTree.lookUp Sample.sourceDirectory = .ok (some .directory) := rfl
    rw [on_loadDirectory hroot', schemaFiles_windingTree, on_loadFiles_cons hfound hload,
      on_loadFiles_nil]
    rfl
  have hroots : (loadEachDirectory [root, Sample.sourceDirectory]).on Sample.windingTree
      (fresh 1 [root, Sample.sourceDirectory] none) = (.ok (0 + (1 + 0)), Sample.poolBehind root) :=
    on_loadEachDirectory_cons hfirst (on_loadEachDirectory_cons hsecond (on_loadEachDirectory_nil ..))
  rw [create_eq, hroots]
  rfl

theorem named_windingTree : Sample.windingTree.Named := by
  unfold FileTree.Named
  decide

theorem apart_twoDirectories : Apart Sample.twoDirectories := by
  have hwinding : Sample.windingPath.location? = some ⟨0, [Sample.longName]⟩ :=
    FileTree.location?_of_find (ofText_winding ▸ Path.isPlain_ofText _) find_winding
  have hsource : Sample.sourceDirectory.location? = some ⟨0, [Text.ofString "b"]⟩ := rfl
  have hnames : Sample.longName ≠ Text.ofString "b" := by decide
  have hapart : Sample.windingPath.relative? Sample.sourceDirectory = none ∧
      Sample.sourceDirectory.relative? Sample.windingPath = none := by
    simp [← Option.not_isSome_iff_eq_none, Path.isSome_relative?, hwinding, hsource, hnames, hnames.symm]
  rw [twoDirectories_eq]
  exact List.pairwise_pair.mpr hapart

theorem create_winding : create Sample.windingTree 1 Sample.twoDirectories none =
    (.ok (), Sample.windingPool) := by
  have hapart := apart_twoDirectories
  rw [twoDirectories_eq] at hapart ⊢
  have hbelow : [Text.ofString "b"] <+: Sample.placeX := ⟨[Text.ofString "x.proto"], rfl⟩
  have hname : (fresh 1 [Sample.windingPath, Sample.sourceDirectory] none).importName
      (FileTree.pathBelow Sample.sourceDirectory [Text.ofString "b"] Sample.placeX) =
        (Path.text ⟨false, [Text.ofString "x.proto"]⟩, Sample.sourceDirectory) :=
    importName_of_apart hapart (by simp [fresh]) (Path.isPlain_ofText _) find_sourceDirectory hbelow
      (by decide)
  exact create_poolBehind (lookUp_of_find find_winding) schemaFiles_winding hname

theorem create_loads_first_winding : ∃ files,
    Sample.windingPool.linker = (Linker.ofFiles files).quiet ∧
      (∀ f ∈ files, ∃ root, IsFirst Sample.windingTree Sample.twoDirectories f.name root) ∧
      (Sample.windingPool.linker.file? (Path.text ⟨false, ["x.proto"]⟩)).isSome := by
  have hcreate : create Sample.windingTree 1
      ([Sample.winding, Text.ofString "b"].map Path.ofText) none = (.ok (), Sample.windingPool) :=
    create_winding
  have hapart : Apart ([Sample.winding, Text.ofString "b"].map Path.ofText) := apart_twoDirectories
  obtain ⟨hdirectories, ⟨files, hlinker, -, hfirst⟩, hknown⟩ :=
    create_loads_first named_windingTree hapart hcreate rfl
  rw [hdirectories] at hfirst hknown
  refine ⟨files, hlinker, fun f hf => ?_, ?_⟩
  · obtain ⟨root, hroot, -⟩ := hfirst f hf
    exact ⟨root, hroot⟩
  · exact hknown _ (by simp [Sample.sourceDirectory]) _ find_sourceDirectory Sample.placeX _ rfl
      ⟨[Text.ofString "x.proto"], rfl⟩ (by decide)

/-- There is nothing to report, and yet the search for the file that has been loaded breaks down. -/
theorem search_breaks_down : Sample.windingTree.Named ∧ Apart Sample.twoDirectories ∧
    create Sample.windingTree 1 Sample.twoDirectories none = (.ok (), Sample.windingPool) ∧
    Sample.windingPool.reports = [] ∧
    ∃ f ∈ Sample.windingPool.linker.files, ∀ importer, ∃ failure,
      Sample.windingPool.findImport Sample.windingTree f.name importer = .error failure := by
  have hfile : (Sample.definer "x.proto").scope ∈ Sample.windingPool.linker.files := by
    decide +kernel
  refine ⟨named_windingTree, apart_twoDirectories, create_winding, rfl,
    (Sample.definer "x.proto").scope, hfile, fun importer => ?_⟩
  have hname : (Sample.definer "x.proto").scope.name = Text.ofString "x.proto" := rfl
  have hsearched : Sample.windingPool.directories =
      [Sample.windingPath, Sample.sourceDirectory] := rfl
  have hbehind : Sample.windingTree.lookUp
      (Sample.windingPath.join (.ofText (Text.ofString "x.proto"))) = .error (.access .nameTooLong
        (Sample.windingPath.join (.ofText (Text.ofString "x.proto"))).text) := by
    rw [FileTree.lookUp, find_behind_winding]
  rw [hname, findImport, hsearched, List.cons_append, findBelow]
  simp only [hbehind]
  exact ⟨_, rfl⟩

end Pool

end ProtoSchema
