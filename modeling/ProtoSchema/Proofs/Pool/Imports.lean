import ProtoSchema.Proofs.Linker.Holders
import ProtoSchema.Proofs.Pool.Steady
import ProtoSchema.Proofs.Schema.Accepted

/-!
# Imports

Loading imports tries one name after another, each of which some file imports and none twice
(`Tries`). So it comes to an end, and then nothing is left: whatever a file of the pool imports has
been loaded, could not be loaded and has been reported for this, or has been looked for in vain and
reported once (`imports_complete`).
-/

namespace ProtoSchema

/-- A file is tried under a name that goes with its path: the one that a pool gives it, or one that
leads to it from the directory it was found in. -/
def Attempt.Named (a : Attempt) : Prop :=
  (∃ p : Pool, (a.name, a.root) = p.importName a.path) ∨ a.path = a.root.join (.ofText a.name)

namespace Pool

variable {α β : Type} {t : FileTree} {p p' p'' : Pool} {tried tried' attempted : List Text}

/-! ## Names that are tried -/

/-- The names that are tried in turn, while imports are loaded beside a file tree. -/
inductive Tries (t : FileTree) : Pool → List Text → Pool → Prop
  | none (p : Pool) : Tries t p [] p
  | next {p p' : Pool} {importer : FileScope} {i : ImportDecl} {found : Option (Path × Path)}
    {tried : List Text} (hwanted : p.Wanted importer i)
    (hfound : p.findImport t i.path importer.name = .ok found)
    (hrest : Tries t (p.loadImport t importer i found) tried p') : Tries t p (i.path :: tried) p'

theorem Tries.trans (h : Tries t p tried p') (h' : Tries t p' tried' p'') :
    Tries t p (tried ++ tried') p'' := by
  induction h with
  | none p => exact h'
  | next hwanted hfound _ ih => exact .next hwanted hfound (ih h')

/-- A name that cannot be asked for ends the search, before it has been tried. -/
def Stuck (t : FileTree) (p : Pool) (tried : List Text) (e : ReadFailure) : Prop :=
  ∃ importer i, p.Wanted importer i ∧ i.path ∉ tried ∧
    p.findImport t i.path importer.name = .error e

/-- A round tries new names only, each once. -/
theorem tries_loadEach {imports : List (FileScope × ImportDecl)}
    (hwanted : ∀ x ∈ imports, x.2.path ∉ attempted → p.Wanted x.1 x.2)
    (hnodup : attempted.Nodup) :
    ∃ tried, Tries t p tried (p.loadEach t attempted imports).1 ∧ (attempted ++ tried).Nodup ∧
      match (p.loadEach t attempted imports).2 with
      | .ok attempted' => attempted' = attempted ++ tried
      | .error e => (p.loadEach t attempted imports).1.Stuck t (attempted ++ tried) e := by
  induction imports generalizing p attempted with
  | nil => exact ⟨[], .none p, by simpa using hnodup, by simp [loadEach]⟩
  | cons x rest ih =>
    obtain ⟨importer, i⟩ := x
    unfold loadEach
    split
    · exact ih (fun y hy => hwanted y (by simp [hy])) hnodup
    · next hi =>
      have hfirst := hwanted (importer, i) (by simp) hi
      cases hfound : p.findImport t i.path importer.name with
      | error e =>
        exact ⟨[], .none p, by simpa using hnodup, importer, i, hfirst, by simpa using hi, hfound⟩
      | ok found =>
        have hrest : ∀ x ∈ rest, x.2.path ∉ attempted ++ [i.path] →
            (p.loadImport t importer i found).Wanted x.1 x.2 := by
          intro x hx htried
          simp only [List.mem_append, List.mem_singleton, not_or] at htried
          exact (hwanted x (by simp [hx]) htried.1).loadImport hfirst htried.2 found
        have hnodup' : (attempted ++ [i.path]).Nodup :=
          hnodup.append (List.nodup_singleton _) (List.disjoint_singleton.mpr hi)
        obtain ⟨tried, htries, hall, houtcome⟩ := ih hrest hnodup'
        rw [List.append_assoc] at hall houtcome
        exact ⟨i.path :: tried, .next hfirst hfound htries, hall, houtcome⟩

/-- Round after round new names are tried, until nothing is missing. -/
theorem tries_loadMissing {known : List Text}
    (h : ∀ n ∈ p.linker.importPaths, n ∈ known ++ t.importPaths) (hnodup : attempted.Nodup) :
    ∃ tried, Tries t p tried (p.loadMissing t known attempted h).1 ∧
      (attempted ++ tried).Nodup ∧
      match (p.loadMissing t known attempted h).2 with
      | .ok _ => (p.loadMissing t known attempted h).1.missingImports (attempted ++ tried) = []
      | .error e => (p.loadMissing t known attempted h).1.Stuck t (attempted ++ tried) e := by
  fun_induction Pool.loadMissing t known p attempted h with
  | case1 p attempted h hnone => exact ⟨[], .none p, by simpa using hnodup, by simpa using hnone⟩
  | case2 p attempted h x rest hm e ht =>
    obtain ⟨tried, htries, hall, houtcome⟩ := @tries_loadEach t p attempted (x :: rest)
      (fun y hy _ => wanted_of_missingImports (hm ▸ hy)) hnodup
    rw [ht] at houtcome
    exact ⟨tried, htries, hall, houtcome⟩
  | case3 p attempted h x rest hm attempted' ht hless ih =>
    obtain ⟨tried, htries, hall, houtcome⟩ := @tries_loadEach t p attempted (x :: rest)
      (fun y hy _ => wanted_of_missingImports (hm ▸ hy)) hnodup
    rw [ht] at houtcome
    obtain rfl : attempted' = attempted ++ tried := houtcome
    obtain ⟨tried', htries', hall', houtcome'⟩ := ih hall
    rw [List.append_assoc] at hall' houtcome'
    exact ⟨tried ++ tried', htries.trans htries', hall', houtcome'⟩

/-! ## What a name that is tried comes to -/

/-- The name is not found: this is reported, where a file of the pool imports it, and only once. -/
def NotFoundOnce (p : Pool) (new : List Report) (n : Text) : Prop :=
  ∃ importer ∈ p.linker.files, ∃ i ∈ importer.imports, i.path = n ∧
    new.filter (fun r => r.problem = .load (.importNotFound n)) =
      [⟨.load (.importNotFound n), importer.name, some i.position⟩]

/-- From `p` to `p'` nothing has been lost, and names have been reported as not found only if they
were tried. -/
structure Gains (p p' : Pool) (tried : List Text) (new : List Report) : Prop where
  reports : p'.reports = p.reports ++ new
  files : p.linker.files ⊆ p'.linker.files
  failed : p.failed ⊆ p'.failed
  notFound : ∀ r ∈ new, ∀ n, r.problem = .load (.importNotFound n) → n ∈ tried

theorem Gains.trans {new new' : List Report} (h : Gains p p' tried new)
    (h' : Gains p' p'' tried' new') : Gains p p'' (tried ++ tried') (new ++ new') := by
  refine ⟨?_, fun f hf => h'.files (h.files hf), fun n hn => h'.failed (h.failed hn), ?_⟩
  · rw [h'.reports, h.reports, List.append_assoc]
  · refine List.forall_mem_append.mpr ⟨fun r hr n hn => ?_, fun r hr n hn => ?_⟩
    · exact List.mem_append_left _ (h.notFound r hr n hn)
    · exact List.mem_append_right _ (h'.notFound r hr n hn)

/-- The files that could not be loaded since the generation of a pool began, with what was reported
for each. -/
structure Failures (p : Pool) (failures : List (Attempt × Report)) : Prop where
  failed : p.failed = failures.map (·.1.name)
  reported : (failures.map (·.2)).Sublist p.reports
  outcome : ∀ x ∈ failures, x.1.Named ∧ x.1.outcome = .error x.2

/-- A pool whose linker has nothing to report, and every file that could not be loaded has been
reported since its generation began. -/
structure Orderly (p : Pool) : Prop where
  quiet : p.linker.reports = []
  failures : ∃ failures, p.Failures failures

/-- What has failed stays reported. -/
theorem Orderly.of_reports (h : p.Orderly) (hquiet : p'.linker.reports = [])
    (hfailed : p'.failed = p.failed) {new : List Report} (hreports : p'.reports = p.reports ++ new) :
    p'.Orderly := by
  obtain ⟨failures, hnames, hreported, houtcome⟩ := h.failures
  refine ⟨hquiet, failures, hfailed.trans hnames, ?_, houtcome⟩
  rw [hreports]
  exact hreported.trans (List.sublist_append_left _ _)

/-- One more file that could not be loaded is reported. -/
theorem Orderly.fail (h : p.Orderly) {a : Attempt} (hnamed : a.Named) {r : Report}
    (houtcome : a.outcome = .error r) : ((p.fail a.name).publish [r]).Orderly := by
  obtain ⟨failures, hnames, hreported, hall⟩ := h.failures
  refine ⟨h.quiet, failures ++ [(a, r)], ?_, ?_, ?_⟩
  · simp [publish, Pool.fail, hnames]
  · rw [List.map_append]
    exact hreported.append (List.Sublist.refl [r])
  · exact List.forall_mem_append.mpr ⟨hall, by simpa using ⟨hnamed, houtcome⟩⟩

/-- A file is found where its name leads to from one of the directories. -/
theorem mem_of_findBelow {name : Text} {path root : Path} {roots : List Path}
    (h : findBelow t name roots = .ok (some (path, root))) :
    root ∈ roots ∧ path = root.join (.ofText name) := by
  induction roots with
  | nil => cases h
  | cons first roots ih =>
    simp only [findBelow] at h
    split at h
    · cases h
    · cases h
      exact ⟨List.mem_cons_self, rfl⟩
    · obtain ⟨hroot, hpath⟩ := ih h
      exact ⟨List.mem_cons_of_mem _ hroot, hpath⟩

/-- An import leads to the file that it is found at. -/
theorem named_of_findImport {name importer : Text} {path root : Path}
    (h : p.findImport t name importer = .ok (some (path, root))) :
    Attempt.Named ⟨t, path, name, root⟩ :=
  .inr (mem_of_findBelow h).2

/-- What declaring a file reports is no failed search. -/
theorem problem_ne_of_mem_declare {l : Linker} (hquiet : l.reports = []) {f : SchemaFile}
    {r : Report} (hr : r ∈ (l.declare f).reports) (p : LoadProblem) : r.problem ≠ .load p := by
  have hadvances := Linker.advances_declare l f
  have hsemantic := ((hadvances.warranted r hr).resolve_left (by simp [hquiet])).semantic
  intro hproblem
  rw [hproblem] at hsemantic
  cases hsemantic

/-- A file that cannot be loaded is not reported as one that cannot be found. -/
theorem problem_ne_of_outcome {a : Attempt} {r : Report} (h : a.outcome = .error r) (n : Text) :
    r.problem ≠ .load (.importNotFound n) := by
  unfold Attempt.outcome at h
  split at h
  · cases h
    simp
  · next text _ =>
    cases hparse : SchemaFile.parse a.name text with
    | ok f =>
      rw [hparse] at h
      cases h
    | error fault =>
      rw [hparse] at h
      cases h
      simp [Fault.report]

/-- A file of a new name that is loaded is among the files behind, or among those that could not be
loaded. -/
theorem Orderly.load (h : p.Orderly) {path root : Path} {name : Text}
    (hnamed : Attempt.Named ⟨t, path, name, root⟩) (hnew : p.linker.file? name = none) :
    let p' := (p.load t path name root).1
    p'.Orderly ∧ (∃ new, Gains p p' [] new) ∧
      ((∃ f ∈ p'.linker.files, f.name = name) ∨ name ∈ p'.failed) := by
  intro p'
  cases houtcome : Attempt.outcome ⟨t, path, name, root⟩ with
  | error r =>
    have hp' : p' = (p.fail name).publish [r] :=
      congrArg Prod.fst (load_of_error h.quiet houtcome)
    rw [hp']
    refine ⟨h.fail hnamed houtcome, ⟨[r], rfl, List.Subset.refl _, List.subset_append_left _ _, ?_⟩,
      .inr (by simp [Pool.publish, Pool.fail])⟩
    intro r' hr' n hproblem
    obtain rfl := List.mem_singleton.mp hr'
    exact absurd hproblem (problem_ne_of_outcome houtcome n)
  | ok f =>
    have hname : f.scope.name = name := SchemaFile.name_eq_of_outcome houtcome
    have hfiles : (p.linker.declare f).files = p.linker.files ++ [f.scope] := by
      rw [Linker.files_declare, Linker.addFile_of_new (hname ▸ hnew)]
    have hp' : p' = (({ p with roots := p.roots ++ [(name, root)] } : Pool).withLinker
        (p.linker.declare f)) := congrArg Prod.fst (load_of_ok houtcome)
    rw [hp']
    refine ⟨h.of_reports rfl rfl rfl, ⟨(p.linker.declare f).reports, rfl, ?_, List.Subset.refl _, ?_⟩,
      .inl ⟨f.scope, ?_, hname⟩⟩
    · simp [withLinker, Pool.publish, hfiles]
    · intro r hr n hproblem
      exact absurd hproblem (problem_ne_of_mem_declare h.quiet hr _)
    · simp [withLinker, Pool.publish, hfiles]

theorem Orderly.publish (h : p.Orderly) (reports : List Report) : (p.publish reports).Orderly :=
  h.of_reports h.quiet rfl rfl

/-- A name that is tried is loaded, remembered as failed, or reported as not found. -/
theorem Orderly.loadImport (h : p.Orderly) {importer : FileScope} {i : ImportDecl}
    (hwanted : p.Wanted importer i) {found : Option (Path × Path)}
    (hfound : p.findImport t i.path importer.name = .ok found) :
    let p' := p.loadImport t importer i found
    p'.Orderly ∧ ∃ new, Gains p p' [i.path] new ∧
      ((∃ f ∈ p'.linker.files, f.name = i.path) ∨ i.path ∈ p'.failed ∨
        new = [⟨.load (.importNotFound i.path), importer.name, some i.position⟩]) := by
  cases found with
  | none =>
    refine ⟨h.publish _, _, ⟨rfl, List.Subset.refl _, List.Subset.refl _, ?_⟩, .inr (.inr rfl)⟩
    intro r hr n hproblem
    obtain rfl := List.mem_singleton.mp hr
    simpa [eq_comm] using hproblem
  | some place =>
    obtain ⟨horderly, ⟨new, hgains⟩, hcomes⟩ :=
      h.load (named_of_findImport hfound) hwanted.new
    refine ⟨horderly, new, ⟨hgains.reports, hgains.files, hgains.failed, ?_⟩,
      hcomes.imp_right .inl⟩
    intro r hr n hproblem
    exact absurd (hgains.notFound r hr n hproblem) (by simp)

/-- Whatever names are tried in turn, none twice: each is loaded, remembered as failed, or reported as
not found once. -/
theorem Tries.gains (h : Tries t p tried p') (hp : p.Orderly) :
    p'.Orderly ∧ ∃ new, Gains p p' tried new ∧
      (tried.Nodup → ∀ n ∈ tried, (∃ f ∈ p'.linker.files, f.name = n) ∨ n ∈ p'.failed ∨
        NotFoundOnce p' new n) := by
  induction h with
  | none p =>
    exact ⟨hp, [], ⟨by simp, List.Subset.refl _, List.Subset.refl _, by simp⟩, by simp⟩
  | @next p p' importer i found tried hwanted hfound _ ih =>
    obtain ⟨hfirst, new, hgains, hcomes⟩ := hp.loadImport hwanted hfound
    obtain ⟨horderly, new', hgains', hrest⟩ := ih hfirst
    refine ⟨horderly, new ++ new', hgains.trans hgains', fun hnodup n hn => ?_⟩
    obtain ⟨hnew, hnodup'⟩ := List.nodup_cons.mp hnodup
    rcases List.mem_cons.mp hn with rfl | hn
    · rcases hcomes with ⟨f, hf, hname⟩ | hfailed | hnone
      · exact .inl ⟨f, hgains'.files hf, hname⟩
      · exact .inr (.inl (hgains'.failed hfailed))
      · -- the names tried later are others
        have hlater : new'.filter (fun r => r.problem = .load (.importNotFound i.path)) = [] := by
          refine List.filter_eq_nil_iff.mpr fun r hr hproblem => hnew ?_
          exact hgains'.notFound r hr i.path (of_decide_eq_true hproblem)
        refine .inr (.inr ⟨importer, hgains'.files (hgains.files hwanted.known), i,
          hwanted.imported, rfl, ?_⟩)
        rw [List.filter_append, hlater, hnone]
        simp
    · rcases hrest hnodup' n hn with hloaded | hfailed | ⟨importer', hknown, j, hj, hpath, honce⟩
      · exact .inl hloaded
      · exact .inr (.inl hfailed)
      · have hother : new.filter (fun r => r.problem = .load (.importNotFound n)) = [] := by
          refine List.filter_eq_nil_iff.mpr fun r hr hproblem => hnew ?_
          have hi := hgains.notFound r hr n (of_decide_eq_true hproblem)
          exact List.mem_singleton.mp hi ▸ hn
        refine .inr (.inr ⟨importer', hknown, j, hj, hpath, ?_⟩)
        rw [List.filter_append, hother, honce]
        simp

/-! ## Pools in use are orderly -/

/-- A file is tried under a name that goes with its path. -/
theorem Fits.named {a : Attempt} (h : p.Fits (.file a)) : a.Named := by
  rcases h.2 with hname | ⟨importer, i, -, -, hfound⟩
  · exact .inl ⟨p, hname⟩
  · exact named_of_findImport hfound

theorem orderly_of_empty (hlinker : p.linker = .empty) (hfailed : p.failed = []) : p.Orderly :=
  ⟨by rw [hlinker]; rfl, [], hfailed, List.nil_sublist _, by simp⟩

theorem steady_orderly : Steady Orderly where
  blank hp := orderly_of_empty hp.linker hp.failed
  event {p e} hfits hp := by
    cases e with
    | file a => exact (hp.load hfits.named hfits.1).1
    | noImport t importer i => exact hp.publish _
    | noDirectory t root => exact hp.publish _
  refused _ _ _ hp := hp.of_reports rfl rfl rfl
  linked _ _ _ hp := hp.of_reports rfl rfl rfl
  directories _ hp := hp.of_reports hp.quiet rfl (List.append_nil _).symm
  close {p} hopen _ := by
    rw [Pool.close, if_neg hopen]
    exact orderly_of_empty rfl rfl

theorem World.orderly_after (es : List Event) : ∀ p ∈ (World.empty.after es).pools, p.Orderly :=
  World.steady_after steady_orderly es

/-! ## Nothing is left -/

/-- Only names are tried that files of the pool or of the tree import. -/
theorem Tries.mem_importPaths (h : Tries t p tried p') :
    ∀ n ∈ tried, n ∈ p.linker.importPaths ++ t.importPaths := by
  induction h with
  | none p => simp
  | @next p p' importer i found tried hwanted _ _ ih =>
    intro n hn
    rcases List.mem_cons.mp hn with rfl | hn
    · exact List.mem_append_left _ (Linker.mem_importPaths.mpr
        ⟨importer, hwanted.known, List.mem_map.mpr ⟨i, hwanted.imported, rfl⟩⟩)
    · rcases List.mem_append.mp (ih n hn) with hn | hn
      · exact List.mem_append.mpr (mem_importPaths_loadImport hn)
      · exact List.mem_append_right _ hn

/-- Where nothing is missing, every name that is imported is loaded, has failed or was tried. -/
theorem settled_of_missingImports (h : p.missingImports tried = []) {n : Text}
    (hn : n ∈ p.linker.importPaths) :
    (p.linker.file? n).isSome ∨ n ∈ p.failed ∨ n ∈ tried := by
  obtain ⟨f, hf, hin⟩ := Linker.mem_importPaths.mp hn
  obtain ⟨i, hi, rfl⟩ := List.mem_map.mp hin
  by_contra hnone
  simp only [not_or, Option.not_isSome_iff_eq_none] at hnone
  have hmissing : (f, i) ∈ p.missingImports tried :=
    mem_missingImports.mpr ⟨hf, hi, by simp [isMissing, hnone]⟩
  rw [h] at hmissing
  simp at hmissing

theorem isSome_file? {l : Linker} {n : Text} (h : ∃ f ∈ l.files, f.name = n) :
    (l.file? n).isSome := by
  obtain ⟨f, hf, hname⟩ := h
  exact List.find?_isSome.mpr ⟨f, hf, decide_eq_true hname⟩

/-- Whatever has been done with a pool, and whatever the file tree holds: loading imports tries some
names that are imported, none twice, and comes to an end. Then everything that a file of the pool
imports has been loaded, could not be loaded and has been reported for this since the generation
began, or was not found, which has been reported once. Only a name that cannot be asked for ends the
search before. -/
theorem imports_complete {es : List Event} (hp : p ∈ (World.empty.after es).pools) (t : FileTree) :
    ∃ tried new, Tries t p tried (p.loadImports t).1 ∧ tried.Nodup ∧
      (∀ n ∈ tried, n ∈ p.linker.importPaths ++ t.importPaths) ∧
      (p.loadImports t).1.reports = p.reports ++ new ∧
      match p.loadImports t with
      | (p', .ok _) => (∃ failures, p'.Failures failures) ∧ ∀ n ∈ p'.linker.importPaths,
          (p'.linker.file? n).isSome ∨ n ∈ p'.failed ∨ p'.NotFoundOnce new n
      | (p', .error e) => p'.Stuck t tried e := by
  obtain ⟨tried, htries, hnodup, houtcome⟩ := @tries_loadMissing t p [] p.linker.importPaths
    (fun _ hn => List.mem_append_left _ hn) List.nodup_nil
  rw [List.nil_append] at hnodup houtcome
  obtain ⟨horderly, new, hgains, hcomes⟩ := htries.gains (World.orderly_after es p hp)
  refine ⟨tried, new, htries, hnodup, htries.mem_importPaths, hgains.reports, ?_⟩
  rw [← loadImports] at horderly houtcome hcomes
  rcases hresult : p.loadImports t with ⟨p', e | u⟩ <;>
    rw [hresult] at horderly houtcome hcomes
  · exact houtcome
  · refine ⟨horderly.failures, fun n hn => ?_⟩
    rcases settled_of_missingImports houtcome hn with hloaded | hfailed | htried
    · exact .inl hloaded
    · exact .inr (.inl hfailed)
    · exact (hcomes hnodup n htried).imp_left isSome_file?

end Pool

/-! ## A sample pool -/

namespace Sample

/-- The name that the sample file imports, as it is spelled. -/
def importedPath : List Char := ['"', '.', '/', 'b', '.', 'p', 'r', 'o', 't', 'o', '"']

/-- The lexemes of an import. -/
def importLexemes : List Lexed :=
  [(.keyword .kwImport, ['i', 'm', 'p', 'o', 'r', 't']), (.string, importedPath),
    (.mark .semicolon, [';'])]

/-- The tree of a file with this import. -/
def importTree : Tree (.nonterminal .schemaFile) :=
  let keyword : Tree (.key .kwImport) :=
    .leaf ⟨.keyword .kwImport, ['i', 'm', 'p', 'o', 'r', 't'], .start⟩
  let run : Tree (.part .stringRun) :=
    .node ⟨.stringRun, ⟨0, by decide⟩⟩ (.cons (.leaf ⟨.string, importedPath, ⟨1, 8⟩⟩) .nil)
  let path : Tree (.part .strings) := .node ⟨.strings, ⟨0, by decide⟩⟩ (.cons run .nil)
  let semicolon : Tree (.mark .semicolon) := .leaf ⟨.mark .semicolon, [';'], ⟨1, 20⟩⟩
  let statement : Tree (.part .importStmt) :=
    .node ⟨.importStmt, ⟨1, by decide⟩⟩ (.cons keyword (.cons path (.cons semicolon .nil)))
  let item : Tree (.part .topItem) := .node ⟨.topItem, ⟨0, by decide⟩⟩ (.cons statement .nil)
  .node .bareFile (.cons (.node .firstItem (.cons item .nil)) .nil)

/-- The file that imports `./b.proto`. -/
def importer (name : Text) : SchemaFile :=
  ⟨name, .proto2, none, [⟨"./b.proto", none, ⟨1, 8⟩⟩], [], [], [], [], []⟩

/-- A file tree with one file, which imports a file that is not there. -/
def lonelyTree : FileTree :=
  ⟨[([Text.ofString "a.proto"],
    .file ((Lexed.spaced importLexemes).map fun c => c.toNat.toUInt8))]⟩

/-- A pool is made, and the file is loaded. -/
def loadLonely : List Pool.Event :=
  [⟨lonelyTree, .create [] none⟩, ⟨lonelyTree, .call 0 (.loadFile pathA)⟩]

/-- The pool with the file. -/
def lonelyPool : Pool :=
  { newPool with
    linker := (Linker.empty.declare (importer (Text.ofString "a.proto"))).quiet
    roots := [newPool.importName pathA] }

end Sample

theorem SchemaFile.parse_importLexemes (name : Text) :
    SchemaFile.parse name (Lexed.spaced Sample.importLexemes) = .ok (Sample.importer name) := by
  have hvalue : Sample.importTree.value = .ok (Sample.importer "") := by
    with_unfolding_all rfl
  exact parse_spaced_tree (by decide) (by decide) hvalue rfl name

namespace Pool

theorem outcome_lonely (root : Path) :
    Attempt.outcome ⟨Sample.lonelyTree, Sample.pathA, (Sample.newPool.importName Sample.pathA).1,
      root⟩ = .ok (Sample.importer (Text.ofString "a.proto")) := by
  have hname : (Sample.newPool.importName Sample.pathA).1 = Text.ofString "a.proto" := by
    decide +kernel
  have htext : Sample.lonelyTree.readText Sample.pathA Sample.pathA.text =
      .ok (Lexed.spaced Sample.importLexemes) := by
    have hread : (Sample.lonelyTree.readText Sample.pathA Sample.pathA.text).toOption =
        some (Lexed.spaced Sample.importLexemes) := by
      decide +kernel
    cases h : Sample.lonelyTree.readText Sample.pathA Sample.pathA.text with
    | error e => simp [h, Except.toOption] at hread
    | ok text => simpa [h, Except.toOption] using hread
  simp only [Attempt.outcome, htext, hname, SchemaFile.parse_importLexemes]
  rfl

theorem after_loadLonely :
    (World.empty.after Sample.loadLonely).pools = [Sample.lonelyPool] := by
  have hnotes : (Linker.empty.declare (Sample.importer (Text.ofString "a.proto"))).reports = [] := by
    decide +kernel
  have hzero : ¬ Path.hasZero Sample.pathA.text := by decide +kernel
  have hloaded : ((loadFile Sample.pathA).on Sample.lonelyTree Sample.newPool).2 =
      Sample.lonelyPool := by
    rw [on_loadFile_of_new Bool.false_ne_true rfl hzero rfl, load_of_ok (outcome_lonely _)]
    have hlinker : Sample.newPool.linker = .empty := rfl
    simp only [withLinker, publish, hlinker, hnotes]
    rfl
  have hmade : (World.empty.step ⟨Sample.lonelyTree, .create [] none⟩).1 =
      ⟨[Sample.newPool], 2⟩ := rfl
  have hrun (path : Path) (t : FileTree) (p : Pool) :
      ((Call.loadFile path).run.on t p).2 = ((loadFile path).on t p).2 := by
    rw [Call.run, on_map]
  rw [Sample.loadLonely, World.after_cons, hmade, World.after_cons]
  simp only [World.step, List.getElem?_cons_zero, hrun, hloaded]
  rfl

/-- The file imports one name, which is tried. -/
theorem imports_complete_lonely : Sample.lonelyPool ∈ (World.empty.after Sample.loadLonely).pools ∧
    Sample.lonelyPool.linker.importPaths = ["./b.proto"] ∧
    ∃ tried new, Tries Sample.lonelyTree Sample.lonelyPool tried
        (Sample.lonelyPool.loadImports Sample.lonelyTree).1 ∧ tried.Nodup ∧
      (∀ n ∈ tried, n ∈ Sample.lonelyPool.linker.importPaths ++ Sample.lonelyTree.importPaths) ∧
      (Sample.lonelyPool.loadImports Sample.lonelyTree).1.reports = new ∧
      match Sample.lonelyPool.loadImports Sample.lonelyTree with
      | (p', .ok _) => (∃ failures, p'.Failures failures) ∧ ∀ n ∈ p'.linker.importPaths,
          (p'.linker.file? n).isSome ∨ n ∈ p'.failed ∨ p'.NotFoundOnce new n
      | (p', .error e) => p'.Stuck Sample.lonelyTree tried e := by
  have hmem : Sample.lonelyPool ∈ (World.empty.after Sample.loadLonely).pools := by
    rw [after_loadLonely]
    exact List.mem_singleton_self _
  exact ⟨hmem, by decide +kernel, imports_complete hmem Sample.lonelyTree⟩

end Pool

end ProtoSchema
