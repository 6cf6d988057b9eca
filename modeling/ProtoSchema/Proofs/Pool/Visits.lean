import Mathlib.Data.List.Perm.Subperm
import ProtoSchema.Proofs.Pool.Thorough

/-!
# Going through directories

A pool goes through its directories in turn and visits the schema files below each (`Scans`). A file
whose name is taken is skipped, be it the same file again or another one below a directory that comes
later. So the number that is given in the end counts the files that have been loaded and those that
have been skipped (`loadDirectories_counts`).
-/

namespace ProtoSchema

namespace Pool

variable {α β : Type} {t : FileTree} {p p' p'' p₁ : Pool} {path root : Path}
  {paths paths' roots skipped skipped' : List Path} {loaded loaded' : List (Path × SchemaFile)}

/-! ## Visits -/

/-- From `p` to `p'` the files at some paths have been visited in turn: `loaded` are those that have
been loaded, each with what it holds, and `skipped` those whose names had been loaded before. The
others could not be read or parsed. -/
inductive Visits (t : FileTree) :
    List Path → Pool → List (Path × SchemaFile) → List Path → Pool → Prop
  | none (p : Pool) : Visits t [] p [] [] p
  | loaded {path : Path} {paths skipped : List Path} {p p' : Pool} {f : SchemaFile}
    {loaded : List (Path × SchemaFile)} (hnew : p.linker.file? (p.importName path).1 = none)
    (houtcome : (p.attempt t path).outcome = .ok f)
    (hrest : Visits t paths (p.after (.file (p.attempt t path))) loaded skipped p') :
    Visits t (path :: paths) p ((path, f) :: loaded) skipped p'
  | skipped {path : Path} {paths skipped : List Path} {p p' : Pool}
    {loaded : List (Path × SchemaFile)} (hknown : (p.linker.file? (p.importName path).1).isSome)
    (hrest : Visits t paths p loaded skipped p') :
    Visits t (path :: paths) p loaded (path :: skipped) p'
  | failed {path : Path} {paths skipped : List Path} {p p' : Pool}
    {loaded : List (Path × SchemaFile)} {r : Report}
    (hnew : p.linker.file? (p.importName path).1 = none)
    (houtcome : (p.attempt t path).outcome = .error r)
    (hrest : Visits t paths (p.after (.file (p.attempt t path))) loaded skipped p') :
    Visits t (path :: paths) p loaded skipped p'

/-- From `p` to `p'` some directories have been gone through in turn, and those that are none have
been reported. -/
inductive Scans (t : FileTree) :
    List Path → Pool → List (Path × SchemaFile) → List Path → Pool → Prop
  | none (p : Pool) : Scans t [] p [] [] p
  | directory {root : Path} {roots skipped skipped' : List Path} {p p₁ p' : Pool}
    {loaded loaded' : List (Path × SchemaFile)} (hroot : t.lookUp root = .ok (some .directory))
    (hfirst : Visits t (t.schemaFiles root) p loaded skipped p₁)
    (hrest : Scans t roots p₁ loaded' skipped' p') :
    Scans t (root :: roots) p (loaded ++ loaded') (skipped ++ skipped') p'
  | noDirectory {root : Path} {roots skipped : List Path} {p p' : Pool}
    {loaded : List (Path × SchemaFile)} (hroot : t.lookUp root ≠ .ok (some .directory))
    (hrest : Scans t roots (p.after (.noDirectory t root)) loaded skipped p') :
    Scans t (root :: roots) p loaded skipped p'

theorem Visits.trans (h : Visits t paths p loaded skipped p₁)
    (h' : Visits t paths' p₁ loaded' skipped' p') :
    Visits t (paths ++ paths') p (loaded ++ loaded') (skipped ++ skipped') p' := by
  induction h with
  | none p => exact h'
  | loaded hnew houtcome _ ih => exact .loaded hnew houtcome (ih h')
  | skipped hknown _ ih => exact .skipped hknown (ih h')
  | failed hnew houtcome _ ih => exact .failed hnew houtcome (ih h')

/-! ## Loading is visiting -/

/-- A file counts as loaded just if it can be read and parsed. -/
theorem snd_load (path root : Path) (name : Text) : (p.load t path name root).2 =
    (Attempt.outcome ⟨t, path, name, root⟩).toOption.isSome := by
  unfold load Attempt.outcome
  cases t.readText path path.text with
  | error e => rfl
  | ok text =>
    simp only [Linker.loadText]
    cases SchemaFile.parse name text <;> rfl

/-- A file that has been loaded, or is skipped, counts for one. -/
theorem Visits.of_loadFile {counts : Bool} (hrun : (loadFile path).on t p = (.ok counts, p₁))
    (hrest : Visits t paths p₁ loaded skipped p') :
    ∃ loaded' skipped', Visits t (path :: paths) p loaded' skipped' p' ∧
      loaded'.length + skipped'.length =
        loaded.length + skipped.length + if counts then 1 else 0 := by
  rw [on_loadFile] at hrun
  split_ifs at hrun with hclosed hfinalized hzero <;> try cases hrun
  simp only at hrun
  split at hrun
  · next hknown =>
    cases hrun
    exact ⟨loaded, path :: skipped, .skipped hknown hrest, rfl⟩
  · next hnew =>
    rw [Option.not_isSome_iff_eq_none] at hnew
    obtain ⟨hcounts, rfl⟩ := Prod.mk.inj hrun
    rw [Except.ok.injEq, snd_load] at hcounts
    subst hcounts
    cases houtcome : (p.attempt t path).outcome with
    | ok f =>
      refine ⟨(path, f) :: loaded, skipped, .loaded hnew houtcome hrest, ?_⟩
      rw [attempt] at houtcome
      simp only [houtcome, Except.toOption, Option.isSome_some, if_true, List.length_cons]
      omega
    | error r =>
      refine ⟨loaded, skipped, .failed hnew houtcome hrest, ?_⟩
      rw [attempt] at houtcome
      simp [houtcome, Except.toOption]

theorem exists_visits {count : Nat} (hrun : (loadFiles paths).on t p = (.ok count, p')) :
    ∃ loaded skipped, Visits t paths p loaded skipped p' ∧
      count = loaded.length + skipped.length := by
  induction paths generalizing p count with
  | nil =>
    cases hrun
    exact ⟨[], [], .none _, rfl⟩
  | cons path paths ih =>
    obtain ⟨⟨⟩, p₀, hasked, hrun⟩ := exists_of_on_bind hrun
    obtain ⟨counts, p₁, hfile, hrun⟩ := exists_of_on_bind hrun
    obtain ⟨count', p₂, hfiles, hrun⟩ := exists_of_on_bind hrun
    obtain ⟨rfl, rfl⟩ : (if counts then count' + 1 else count') = count ∧ p₂ = p' := by
      cases hrun
      exact ⟨rfl, rfl⟩
    have hsame : p₀ = p := by
      have hdiscard : (discard (lookUp path) : Run Unit) = (fun _ => ()) <$> lookUp path := rfl
      rw [hdiscard, on_map, on_lookUp] at hasked
      exact (congrArg Prod.snd hasked).symm
    obtain ⟨loaded, skipped, hvisits, rfl⟩ := ih hfiles
    obtain ⟨loaded', skipped', hvisits', hcount⟩ := hvisits.of_loadFile (hsame ▸ hfile)
    refine ⟨loaded', skipped', hvisits', ?_⟩
    rw [hcount]
    split_ifs <;> rfl

theorem exists_scans {count : Nat} (hrun : (loadEachDirectory roots).on t p = (.ok count, p')) :
    ∃ loaded skipped, Scans t roots p loaded skipped p' ∧
      count = loaded.length + skipped.length := by
  induction roots generalizing p count with
  | nil =>
    cases hrun
    exact ⟨[], [], .none _, rfl⟩
  | cons root roots ih =>
    obtain ⟨count₁, p₁, hroot, hrun⟩ := exists_of_on_bind hrun
    obtain ⟨count₂, p₂, hroots, hrun⟩ := exists_of_on_bind hrun
    cases hrun
    obtain ⟨loaded', skipped', hscans, rfl⟩ := ih hroots
    obtain ⟨found, p₀, hfound, hroot⟩ := exists_of_on_bind hroot
    rw [on_lookUp, Prod.mk.injEq] at hfound
    obtain ⟨hasked, rfl⟩ := hfound
    have hlookUp : t.lookUp root = .ok found := by
      cases h : t.lookUp root with
      | error e => simp [h, Except.mapError] at hasked
      | ok found' => simpa [h, Except.mapError] using hasked
    split at hroot
    · obtain ⟨loaded, skipped, hvisits, rfl⟩ := exists_visits hroot
      refine ⟨loaded ++ loaded', skipped ++ skipped', .directory hlookUp hvisits hscans, ?_⟩
      rw [List.length_append, List.length_append]
      omega
    · next hother =>
      cases hroot
      refine ⟨loaded', skipped', .noDirectory ?_ hscans, Nat.zero_add _⟩
      rintro hdirectory
      exact hother (Except.ok.inj (hlookUp.symm.trans hdirectory))

/-! ## What visits come to -/

/-- What has become of some paths that have been visited: each file that is loaded stands behind the
others under the name of its path, and each path that is skipped has a name that is known. No path is
counted twice. -/
structure Tally (p : Pool) (paths : List Path) (loaded : List (Path × SchemaFile))
    (skipped : List Path) (p' : Pool) : Prop where
  directories : p'.directories = p.directories
  files : p'.linker.files = p.linker.files ++ loaded.map fun x => x.2.scope
  found : (loaded.map Prod.fst ++ skipped).Subperm paths
  named : ∀ x ∈ loaded, x.2.scope.name = (p.importName x.1).1
  known : ∀ path ∈ skipped, (p'.linker.file? (p.importName path).1).isSome

theorem importName_of_directories (h : p'.directories = p.directories) :
    p'.importName = p.importName := by
  funext path
  rw [importName, importName, h]

theorem Tally.of_same (hdirectories : p'.directories = p.directories)
    (hfiles : p'.linker.files = p.linker.files) : Tally p paths [] [] p' :=
  ⟨hdirectories, by simp [hfiles], List.nil_subperm, by simp, by simp⟩

/-- A name that is known stays known. -/
theorem Tally.isSome_file? (h : Tally p paths loaded skipped p') {name : Text}
    (hname : (p.linker.file? name).isSome) : (p'.linker.file? name).isSome := by
  obtain ⟨f, hf⟩ := Option.isSome_iff_exists.mp hname
  rw [Linker.file?, h.files, List.find?_append]
  rw [Linker.file?] at hf
  simp [hf]

theorem Tally.append (h : Tally p paths loaded skipped p₁)
    (h' : Tally p₁ paths' loaded' skipped' p') :
    Tally p (paths ++ paths') (loaded ++ loaded') (skipped ++ skipped') p' := by
  have hnames := importName_of_directories h.directories
  refine ⟨h'.directories.trans h.directories, ?_, ?_, ?_, ?_⟩
  · rw [h'.files, h.files, List.map_append, List.append_assoc]
  · refine List.Subperm.trans (List.Perm.subperm ?_) (h.found.append h'.found)
    rw [List.map_append, List.append_assoc, List.append_assoc]
    exact (List.perm_append_comm_assoc ..).append_left _
  · exact List.forall_mem_append.mpr ⟨h.named, fun x hx => hnames ▸ h'.named x hx⟩
  · refine List.forall_mem_append.mpr ⟨fun path hpath => ?_, fun path hpath => ?_⟩
    · exact h'.isSome_file? (h.known path hpath)
    · exact hnames ▸ h'.known path hpath

/-- A file that is loaded stands behind the others. -/
theorem files_load_of_ok {name : Text} {f : SchemaFile} (hnew : p.linker.file? name = none)
    (houtcome : Attempt.outcome ⟨t, path, name, root⟩ = .ok f) :
    (p.load t path name root).1.linker.files = p.linker.files ++ [f.scope] := by
  have hname : f.scope.name = name := SchemaFile.name_eq_of_outcome houtcome
  have hfree : p.linker.file? f.scope.name = none := hname ▸ hnew
  simp [load_of_ok houtcome, withLinker, Pool.publish, Linker.files_declare,
    Linker.addFile_of_new hfree]

/-- A file that cannot be read or parsed leaves the files as they are, and is reported. -/
theorem load_of_failed {name : Text} {r : Report}
    (houtcome : Attempt.outcome ⟨t, path, name, root⟩ = .error r) :
    (p.load t path name root).1.linker.files = p.linker.files ∧
      (p.load t path name root).1.reports ≠ [] := by
  unfold Attempt.outcome at houtcome
  unfold load
  cases htext : t.readText path path.text with
  | error e => simp [Pool.publish, fail]
  | ok text =>
    cases hparse : SchemaFile.parse name text with
    | ok f => simp [htext, hparse, Except.mapError] at houtcome
    | error fault => simp [Linker.loadText, hparse, withLinker, Pool.publish, fail, Linker.note]

theorem Visits.tally (h : Visits t paths p loaded skipped p') :
    Tally p paths loaded skipped p' := by
  induction h with
  | none p => exact .of_same rfl rfl
  | @loaded path paths skipped p p' f loaded hnew houtcome _ ih =>
    have hfirst : Tally p [path] [(path, f)] [] (p.after (.file (p.attempt t path))) := by
      refine ⟨places_load.1, files_load_of_ok hnew houtcome, .refl _, ?_, by simp⟩
      exact List.forall_mem_singleton.mpr (SchemaFile.name_eq_of_outcome houtcome)
    exact hfirst.append ih
  | @skipped path paths skipped p p' loaded hknown _ ih =>
    have hfirst : Tally p [path] [] [path] p := ⟨rfl, by simp, .refl _, by simp, by simpa using hknown⟩
    exact hfirst.append ih
  | @failed path paths skipped p p' loaded r hnew houtcome _ ih =>
    have hfirst : Tally p [path] [] [] (p.after (.file (p.attempt t path))) :=
      .of_same places_load.1 (load_of_failed houtcome).1
    exact hfirst.append ih

theorem Scans.tally (h : Scans t roots p loaded skipped p') :
    Tally p (roots.flatMap t.schemaFiles) loaded skipped p' := by
  induction h with
  | none p => exact .of_same rfl rfl
  | directory _ hfirst _ ih => exact hfirst.tally.append ih
  | @noDirectory root roots skipped p p' loaded _ _ ih =>
    have hfirst : Tally p (t.schemaFiles root) [] [] (p.after (.noDirectory t root)) :=
      .of_same rfl rfl
    exact hfirst.append ih

/-- Where all names are new and no two the same, nothing is skipped. -/
theorem Tally.skipped_eq_nil (h : Tally p paths loaded skipped p')
    (hnew : ∀ path ∈ paths, p.linker.file? (p.importName path).1 = none)
    (hnodup : (paths.map fun path => (p.importName path).1).Nodup) : skipped = [] := by
  refine List.eq_nil_iff_forall_not_mem.mpr fun path hpath => ?_
  obtain ⟨f, hf⟩ := Option.isSome_iff_exists.mp (h.known path hpath)
  have hname : f.name = (p.importName path).1 := of_decide_eq_true (List.find?_some hf :)
  have hmem := List.mem_of_find?_eq_some hf
  rw [h.files] at hmem
  rcases List.mem_append.mp hmem with hold | hloaded
  · have hpath' := h.found.subset (List.mem_append_right _ hpath)
    have hfree := Linker.file?_eq_none.mp (hnew path hpath')
    exact hfree (List.mem_map.mpr ⟨f, hold, hname⟩)
  · obtain ⟨x, hx, rfl⟩ := List.mem_map.mp hloaded
    -- the path of a file that has been loaded has another name
    obtain ⟨counted, hperm, hsublist⟩ := h.found
    have hdistinct := (hperm.map fun path => (p.importName path).1).nodup_iff.mp
      ((hsublist.map _).nodup hnodup)
    rw [List.map_append] at hdistinct
    refine List.disjoint_of_nodup_append hdistinct ?_ (List.mem_map_of_mem hpath)
    exact List.mem_map.mpr ⟨x.1, List.mem_map_of_mem hx, (h.named x hx).symm.trans hname⟩

/-! ## Counting -/

/-- A run that does nothing but load files, and that a pool which takes files refuses only when
something cannot be asked for. -/
structure Admits (m : Run α) : Prop where
  loads : LoadsOnly m
  refuses : ∀ t p, ¬ p.isClosed → p.linked = none → ∀ e, (m.on t p).1 = .error e →
    ∃ failure, e = .unreachable failure

theorem Admits.bind {m : Run α} {f : α → Run β} (hm : Admits m) (hf : ∀ a, Admits (f a)) :
    Admits (m >>= f) := by
  refine ⟨hm.loads.bind fun a => (hf a).loads, fun t p hopen hlinked e he => ?_⟩
  have hkept := hm.loads t p
  rw [on_bind] at he
  rcases hrun : m.on t p with ⟨e' | a, p₁⟩ <;> rw [hrun] at hkept he
  · obtain rfl : e' = e := Except.error.inj he
    exact hm.refuses t p hopen hlinked e' (by rw [hrun])
  · exact (hf a).refuses t p₁ (hkept.isClosed ▸ hopen) (hkept.linked.trans hlinked) e he

theorem admits_pure (a : α) : Admits (pure a : Run α) := ⟨loadsOnly_pure a, by simp⟩

theorem admits_lookUp (path : Path) : Admits (lookUp path) := by
  refine ⟨loadsOnly_lookUp path, fun t p _ _ e he => ?_⟩
  rw [on_lookUp] at he
  cases hfound : t.lookUp path with
  | error failure => exact ⟨failure, by simpa [hfound, Except.mapError, eq_comm] using he⟩
  | ok found => simp [hfound, Except.mapError] at he

theorem admits_loadFile (path : Path) : Admits (loadFile path) := by
  refine ⟨loadsOnly_loadFile path, fun t p hopen hlinked e he => ?_⟩
  have hfinalized : ¬ p.isFinalized := by simp [isFinalized, hlinked]
  rw [on_loadFile, if_neg hopen, if_neg hfinalized] at he
  split_ifs at he
  · exact ⟨_, (Except.error.inj he).symm⟩
  · simp only at he
    split at he <;> cases he

theorem admits_loadFiles (paths : List Path) : Admits (loadFiles paths) := by
  induction paths with
  | nil => exact admits_pure 0
  | cons path paths ih =>
    refine .bind ?_ fun _ => .bind (admits_loadFile path) fun _ => .bind ih fun _ => admits_pure _
    exact .bind (admits_lookUp path) fun _ => admits_pure _

theorem admits_loadEachDirectory (roots : List Path) : Admits (loadEachDirectory roots) := by
  induction roots with
  | nil => exact admits_pure 0
  | cons root roots ih =>
    refine .bind ?_ fun _ => .bind ih fun _ => admits_pure _
    refine .bind (admits_lookUp root) fun found => ?_
    split
    · exact .bind ⟨fun _ p => .refl p, by simp⟩ fun t => admits_loadFiles _
    · exact .bind ⟨fun _ p => loads_publish p _, by simp⟩ fun _ => admits_pure 0

/-- Whatever is below the directories of a pool that takes files: it goes through all of them, unless
a path cannot be asked for. The files that have been loaded stand behind the others in the end, and
the number that is given counts these and the files that were skipped because their names were known.
So it is the number of new files just if nothing was skipped, as where all names are new and no two
the same. -/
theorem loadDirectories_counts (hopen : ¬ p.isClosed) (hlinked : p.linked = none) :
    match loadDirectories.on t p with
    | (.error e, _) => ∃ failure, e = .unreachable failure
    | (.ok count, p') => ∃ loaded skipped, Scans t p.directories p loaded skipped p' ∧
        p'.linker.files = p.linker.files ++ loaded.map (fun x => x.2.scope) ∧
        count = loaded.length + skipped.length ∧
        (count = p'.linker.files.length - p.linker.files.length ↔ skipped = []) ∧
        ((∀ path ∈ p.directories.flatMap t.schemaFiles,
            p.linker.file? (p.importName path).1 = none) →
          ((p.directories.flatMap t.schemaFiles).map fun path => (p.importName path).1).Nodup →
          skipped = []) := by
  rw [on_loadDirectories]
  rcases hrun : (loadEachDirectory p.directories).on t p with ⟨e | count, p'⟩
  · exact (admits_loadEachDirectory _).refuses t p hopen hlinked e (by rw [hrun])
  · obtain ⟨loaded, skipped, hscans, rfl⟩ := exists_scans hrun
    have htally := hscans.tally
    refine ⟨loaded, skipped, hscans, htally.files, rfl, ?_, htally.skipped_eq_nil⟩
    rw [htally.files, List.length_append, List.length_map, ← List.length_eq_zero_iff]
    omega

/-- A file whose name is known is skipped, and yet counts. -/
theorem on_loadFile_of_known (hopen : ¬ p.isClosed) (hlinked : p.linked = none)
    (hzero : ¬ Path.hasZero path.text) (hknown : (p.linker.file? (p.importName path).1).isSome) :
    (loadFile path).on t p = (.ok true, p) := by
  have hfinalized : ¬ p.isFinalized := by simp [isFinalized, hlinked]
  rw [on_loadFile, if_neg hopen, if_neg hfinalized, if_neg hzero]
  simp only [hknown, if_true]

/-- The files of the working directory are skipped when it is gone through again, and counted. -/
theorem on_loadDirectories_pairPool :
    loadDirectories.on Sample.pairTree Sample.pairPool = (.ok 2, Sample.pairPool) := by
  have hroot : Sample.pairTree.lookUp Sample.workingDirectory = .ok (some .directory) := rfl
  have hasked : (Sample.pairTree.lookUp Sample.pathA).toOption.isSome ∧
      (Sample.pairTree.lookUp Sample.pathB).toOption.isSome := by
    decide +kernel
  obtain ⟨foundA, hA⟩ := exists_lookUp hasked.1
  obtain ⟨foundB, hB⟩ := exists_lookUp hasked.2
  have hloadA : (loadFile Sample.pathA).on Sample.pairTree Sample.pairPool =
      (.ok true, Sample.pairPool) :=
    on_loadFile_of_known Bool.false_ne_true rfl (by decide +kernel) (by decide +kernel)
  have hloadB : (loadFile Sample.pathB).on Sample.pairTree Sample.pairPool =
      (.ok true, Sample.pairPool) :=
    on_loadFile_of_known Bool.false_ne_true rfl (by decide +kernel) (by decide +kernel)
  have hfiles : (loadFiles [Sample.pathA, Sample.pathB]).on Sample.pairTree Sample.pairPool =
      (.ok 2, Sample.pairPool) := by
    rw [on_loadFiles_cons hA hloadA, on_loadFiles_cons hB hloadB, on_loadFiles_nil]
    rfl
  have hdirectory : (loadDirectory Sample.workingDirectory).on Sample.pairTree Sample.pairPool =
      (.ok 2, Sample.pairPool) := by
    rw [on_loadDirectory hroot, schemaFiles_pairTree, hfiles]
  have hsearched : Sample.pairPool.directories = [Sample.workingDirectory] := rfl
  rw [on_loadDirectories, hsearched]
  exact on_loadEachDirectory_cons hdirectory (on_loadEachDirectory_nil ..)

theorem loadDirectories_counts_pairTree : ∃ loaded skipped,
    Scans Sample.pairTree [Sample.workingDirectory] Sample.pairPool loaded skipped
      Sample.pairPool ∧ 2 = loaded.length + skipped.length := by
  have hopen : ¬ Sample.pairPool.isClosed := Bool.false_ne_true
  have hcounts := loadDirectories_counts (t := Sample.pairTree) hopen rfl
  rw [on_loadDirectories_pairPool] at hcounts
  obtain ⟨loaded, skipped, hscans, -, hcount, -⟩ := hcounts
  exact ⟨loaded, skipped, hscans, hcount⟩

/-- No file is new when the directory is gone through again, and still two are counted. -/
theorem counts_skipped_files : ¬ Sample.pairPool.isClosed ∧ Sample.pairPool.linked = none ∧
    ∃ count p', loadDirectories.on Sample.pairTree Sample.pairPool = (.ok count, p') ∧
      count ≠ p'.linker.files.length - Sample.pairPool.linker.files.length := by
  refine ⟨Bool.false_ne_true, rfl, 2, Sample.pairPool, on_loadDirectories_pairPool, ?_⟩
  rw [Nat.sub_self]
  exact two_ne_zero

end Pool

end ProtoSchema
