import ProtoSchema.Proofs.FileTree.Location
import ProtoSchema.Proofs.Linker.Meaning
import ProtoSchema.Proofs.Pool.Declared
import ProtoSchema.Proofs.Tables.Complete

/-!
# Pools of one directory

A pool of one directory that is there tries each schema file below it, under the way to the file from
the directory (`searches_create`): no two of them go by one name, so that none is skipped for another.
What is not there in the end has been reported, be it a file that cannot be loaded, an import that is
not found or a reference without a meaning. So a pool without reports has everything: the files below
the directory and whatever they import, with all types and method ends resolved (`whole_of_reports`).
-/

namespace ProtoSchema

/-- A file that is loaded parses from the bytes at its path. -/
theorem Attempt.exists_parse {a : Attempt} {f : SchemaFile} (h : a.outcome = .ok f) :
    ∃ l bytes text, a.tree.find a.path = .ok (l, .file bytes) ∧
      FileTree.textOfBytes bytes = .ok text ∧ SchemaFile.parse a.name text = .ok f := by
  obtain ⟨l, bytes, hfind⟩ := Attempt.exists_find h
  have hread : a.tree.readBytes a.path = .ok bytes := by
    simp [FileTree.readBytes, hfind, bind, Except.bind]
  unfold Attempt.outcome FileTree.readText at h
  rw [hread] at h
  split_ifs at h with hzero hlong
  simp only at h
  cases htext : FileTree.textOfBytes bytes with
  | error e => simp [htext, Except.mapError] at h
  | ok text =>
    simp only [htext, Except.mapError] at h
    cases hparse : SchemaFile.parse a.name text with
    | error fault => simp [hparse] at h
    | ok f' =>
      rw [hparse] at h
      cases h
      exact ⟨l, bytes, text, hfind, htext, hparse⟩

namespace Pool

variable {t : FileTree} {p p' q q' : Pool} {events : List LoadEvent} {root path : Path}
  {place key : List Text} {S : List Path} {subscriber : Option String} {id : Nat}

/-! ## The search -/

theorem Loading.directories (h : Loading p events p') : p'.directories = p.directories := by
  induction h with
  | none p => rfl
  | @next p p' e events hfits hrest ih =>
    rw [ih]
    cases e with
    | file a => exact places_load.1
    | noImport | noDirectory => rfl

/-- How a pool tries the file at a path. -/
def attempt (t : FileTree) (p : Pool) (path : Path) : Attempt :=
  ⟨t, path, (p.importName path).1, (p.importName path).2⟩

/-- From `q` to `p` only files at some paths have been tried. -/
structure Searches (t : FileTree) (q : Pool) (S : List Path) (events : List LoadEvent) (p : Pool) :
    Prop where
  loading : Loading q events p
  tried : ∀ e ∈ events, ∃ path ∈ S, e = .file (q.attempt t path)

theorem Searches.importName_eq (h : Searches t q S events p) (path : Path) :
    p.importName path = q.importName path := by
  rw [importName, importName, h.loading.directories]

/-- A name that is loaded has been tried. -/
theorem Loading.exists_file (h : Loading q events p) (hq : q.Blank) {name : Text}
    (hname : (p.linker.file? name).isSome) : ∃ a, .file a ∈ events ∧ a.name = name := by
  have heffect := h.effect Linker.coherent_empty hq.linker
  obtain ⟨f, hf⟩ := Option.isSome_iff_exists.mp hname
  have hmem : name ∈ p.linker.files.map (·.name) :=
    List.mem_map.mpr ⟨f, List.mem_of_find?_eq_some hf, of_decide_eq_true (List.find?_some hf :)⟩
  have hfiles : p.linker.files = (events.foldl LoadEvent.declared .empty).files := by
    rw [heffect.linker]
    rfl
  rw [hfiles, heffect.names] at hmem
  obtain ⟨⟨f, r⟩, hloaded, rfl⟩ : ∃ x ∈ events.filterMap LoadEvent.loaded?, x.1.name = name := by
    simpa [Linker.empty] using hmem
  obtain ⟨e, he, hloaded⟩ := List.mem_filterMap.mp hloaded
  cases e with
  | noImport | noDirectory => cases hloaded
  | file a =>
    obtain ⟨f', houtcome, hf'⟩ := Option.map_eq_some_iff.mp hloaded
    obtain ⟨rfl, -⟩ := Prod.mk.inj hf'
    refine ⟨a, he, ?_⟩
    cases hresult : a.outcome with
    | error r' => simp [hresult, Except.toOption] at houtcome
    | ok f'' =>
      obtain rfl : f'' = f' := by simpa [hresult, Except.toOption] using houtcome
      exact (SchemaFile.name_eq_of_outcome hresult).symm

/-- The names that a pool gives to some paths tell these apart. -/
def TellsApart (q : Pool) (S : List Path) : Prop :=
  ∀ path ∈ S, ∀ path' ∈ S, (q.importName path).1 = (q.importName path').1 → path = path'

/-- One more file is tried, unless it has been. -/
theorem Searches.of_loadFile (h : Searches t q S events p) (hq : q.Blank) (hapart : q.TellsApart S)
    (hpath : path ∈ S) {loaded : Bool} (hrun : (loadFile path).on t p = (.ok loaded, p')) :
    ∃ events', Searches t q S events' p' ∧ events ⊆ events' ∧
      .file (q.attempt t path) ∈ events' := by
  rw [on_loadFile] at hrun
  split_ifs at hrun with hclosed hfinalized hzero <;> try cases hrun
  simp only [h.importName_eq] at hrun
  split at hrun
  · next hloaded =>
    -- the name has been tried, and no other path goes by it
    cases hrun
    obtain ⟨a, ha, hname⟩ := h.loading.exists_file hq hloaded
    obtain ⟨path', hpath', hattempt⟩ := h.tried _ ha
    obtain rfl := LoadEvent.file.inj hattempt
    obtain rfl := hapart path' hpath' path hpath hname
    exact ⟨events, h, List.Subset.refl _, ha⟩
  · next hnew =>
    cases hrun
    have hfits : p.Fits (.file (q.attempt t path)) :=
      ⟨by simpa [attempt] using hnew, .inl (h.importName_eq path).symm⟩
    refine ⟨events ++ [.file (q.attempt t path)], ⟨h.loading.trans (.single hfits), ?_⟩, ?_, ?_⟩
    · refine List.forall_mem_append.mpr ⟨h.tried, ?_⟩
      simpa using ⟨path, hpath, rfl⟩
    · exact List.subset_append_left _ _
    · simp

theorem Searches.of_loadFiles (h : Searches t q S events p) (hq : q.Blank) (hapart : q.TellsApart S)
    {paths : List Path} (hpaths : paths ⊆ S) {count : Nat}
    (hrun : (loadFiles paths).on t p = (.ok count, p')) :
    ∃ events', Searches t q S events' p' ∧ events ⊆ events' ∧
      ∀ path ∈ paths, .file (q.attempt t path) ∈ events' := by
  induction paths generalizing p events count with
  | nil =>
    cases hrun
    exact ⟨events, h, List.Subset.refl _, by simp⟩
  | cons path paths ih =>
    obtain ⟨hpath, hrest⟩ := List.cons_subset.mp hpaths
    unfold Pool.loadFiles at hrun
    have hdiscard : (discard (lookUp path) : Run Unit) = (fun _ => ()) <$> lookUp path := rfl
    simp only [on_bind, hdiscard, on_map, on_lookUp] at hrun
    obtain ⟨found, hfound⟩ : ∃ found, t.lookUp path = .ok found := by
      cases hfound : t.lookUp path with
      | error e => simp [hfound, Except.mapError, Except.map] at hrun
      | ok found => exact ⟨found, rfl⟩
    simp only [hfound, Except.mapError, Except.map] at hrun
    rcases hfile : (loadFile path).on t p with ⟨e | loaded, p₁⟩ <;> rw [hfile] at hrun
    · cases hrun
    rcases hfiles : (Pool.loadFiles paths).on t p₁ with ⟨e | count', p₂⟩ <;>
      simp only [hfiles] at hrun
    · cases hrun
    · cases hrun
      obtain ⟨events₁, hfirst, hkept, hmem⟩ := h.of_loadFile hq hapart hpath hfile
      obtain ⟨events₂, hsecond, hkept', hmem'⟩ := ih hfirst hrest hfiles
      refine ⟨events₂, hsecond, fun e he => hkept' (hkept he), ?_⟩
      exact List.forall_mem_cons.mpr ⟨hkept' hmem, hmem'⟩

/-! ## Names below the directory -/

/-- No directory lies below another one, or is another one. -/
def Apart (directories : List Path) : Prop :=
  directories.Pairwise fun r r' => r.relative? r' = none ∧ r'.relative? r = none

/-- The name of a file is the way to it from the only directory that it lies below. -/
theorem importName_of_apart (hapart : Apart q.directories) (hmem : root ∈ q.directories)
    (hplain : root.IsPlain) {node : FileNode} (hroot : t.find root = .ok (⟨0, place⟩, node))
    (hbelow : place <+: key) (hnames : ∀ c ∈ key, Path.IsEntry c) :
    q.importName (FileTree.pathBelow root place key) =
      (Path.text ⟨false, key.drop place.length⟩, root) := by
  have hzero : ¬ Path.hasZero root.text := by
    intro hzero
    simp [FileTree.find, hzero] at hroot
  have hlocation := FileTree.location?_of_find hplain hroot
  have hpath := FileTree.location?_below hplain hroot hbelow hnames
  have hrelative := FileTree.relative?_below hplain hroot hbelow hnames
  obtain ⟨before, after, hdirectories⟩ := List.append_of_mem hmem
  have hothers : ∀ r ∈ before, r.relative? (FileTree.pathBelow root place key) = none := by
    intro r hr
    rw [Apart, hdirectories, List.pairwise_append] at hapart
    exact Path.relative?_of_apart (hapart.2.2 r hr root List.mem_cons_self) hzero hlocation hpath hbelow
  have hnone : (before.findSome? fun r => (r.relative? (FileTree.pathBelow root place key)).map
      fun relative => (relative.text, r)) = none := by
    rw [List.findSome?_eq_none_iff]
    exact fun r hr => by rw [hothers r hr]; rfl
  rw [importName, hdirectories, List.findSome?_append, hnone]
  simp [hrelative]

/-- A file below the only directory of a pool goes by the way from there. -/
theorem importName_below (hdirectories : q.directories = [root]) (hplain : root.IsPlain)
    {node : FileNode} (hroot : t.find root = .ok (⟨0, place⟩, node)) (hbelow : place <+: key)
    (hnames : ∀ c ∈ key, Path.IsEntry c) :
    q.importName (FileTree.pathBelow root place key) =
      (Path.text ⟨false, key.drop place.length⟩, root) := by
  have hapart : Apart q.directories := hdirectories ▸ List.pairwise_singleton _ root
  exact importName_of_apart hapart (by simp [hdirectories]) hplain hroot hbelow hnames

theorem tellsApart_schemaFiles (ht : t.Named) (hdirectories : q.directories = [root])
    (hplain : root.IsPlain) (hroot : t.find root = .ok (⟨0, place⟩, .directory)) :
    q.TellsApart (t.schemaFiles root) := by
  intro path hpath path' hpath' hname
  obtain ⟨key, bytes, hmem, hbelow, -, rfl⟩ := (FileTree.mem_schemaFiles hroot).mp hpath
  obtain ⟨key', bytes', hmem', hbelow', -, rfl⟩ := (FileTree.mem_schemaFiles hroot).mp hpath'
  have hnames : ∀ c ∈ key, Path.IsEntry c := ht _ hmem
  have hnames' : ∀ c ∈ key', Path.IsEntry c := ht _ hmem'
  rw [importName_below hdirectories hplain hroot hbelow hnames,
    importName_below hdirectories hplain hroot hbelow' hnames'] at hname
  have hsame : key.drop place.length = key'.drop place.length :=
    Path.text_inj (fun c hc => hnames c (List.mem_of_mem_drop hc))
      (fun c hc => hnames' c (List.mem_of_mem_drop hc)) hname
  rw [FileTree.pathBelow, FileTree.pathBelow, hsame]

theorem lookUp_of_find {l : Location} {node : FileNode} (h : t.find root = .ok (l, node)) :
    t.lookUp root = .ok (some node) := by
  rw [FileTree.lookUp, h]

theorem blank_fresh (id : Nat) (directories : List Path) (subscriber : Option String) :
    (fresh id directories subscriber).Blank :=
  ⟨by simp [fresh], rfl, rfl, rfl, rfl, rfl⟩

/-- A new pool of one directory has tried all schema files below it, and nothing else. -/
theorem searches_create (ht : t.Named) (hplain : root.IsPlain)
    (hroot : t.find root = .ok (⟨0, place⟩, .directory))
    (hcreate : create t id [root] subscriber = (.ok (), p)) :
    ∃ events, Searches t (fresh id [root] subscriber) (t.schemaFiles root) events p ∧
      ∀ path ∈ t.schemaFiles root,
        .file ((fresh id [root] subscriber).attempt t path) ∈ events := by
  rw [create_of_directory (lookUp_of_find hroot)] at hcreate
  obtain ⟨count, hrun⟩ : ∃ count, (loadFiles (t.schemaFiles root)).on t (fresh id [root] subscriber) =
      (.ok count, p) := by
    rcases hrun : (loadFiles (t.schemaFiles root)).on t (fresh id [root] subscriber) with
      ⟨e | count, p₁⟩ <;> rw [hrun] at hcreate <;> cases hcreate
    exact ⟨count, rfl⟩
  have hnone : Searches t (fresh id [root] subscriber) (t.schemaFiles root) []
      (fresh id [root] subscriber) := ⟨.none _, by simp⟩
  obtain ⟨events, hsearches, -, hall⟩ := hnone.of_loadFiles (blank_fresh ..)
    (tellsApart_schemaFiles ht rfl hplain hroot) (List.Subset.refl _) hrun
  exact ⟨events, hsearches, hall⟩

/-! ## Pools without reports -/

/-- Where nothing is reported, every file that is tried is loaded. -/
theorem exists_outcome_of_reportsOf {l : Linker} (h : reportsOf l events = []) {a : Attempt}
    (ha : .file a ∈ events) : ∃ f, a.outcome = .ok f := by
  induction events generalizing l with
  | nil => simp at ha
  | cons e events ih =>
    rw [reportsOf, List.append_eq_nil_iff] at h
    rcases List.mem_cons.mp ha with rfl | ha
    · cases houtcome : a.outcome with
      | ok f => exact ⟨f, rfl⟩
      | error r => simp [LoadEvent.reported, houtcome] at h
    · exact ih h.2 ha

theorem failed_of_reportsOf {l : Linker} (h : reportsOf l events = []) :
    events.filterMap LoadEvent.failed? = [] := by
  refine List.filterMap_eq_nil_iff.mpr fun e he => ?_
  cases e with
  | noImport | noDirectory => rfl
  | file a =>
    obtain ⟨f, hf⟩ := exists_outcome_of_reportsOf h he
    simp [LoadEvent.failed?, hf, Except.toOption]

theorem mem_loadedFiles {a : Attempt} {f : SchemaFile} (ha : .file a ∈ events)
    (hf : a.outcome = .ok f) : f ∈ loadedFiles events := by
  rw [← map_snd_loads]
  exact List.mem_map.mpr ⟨(a, f), mem_loads.mpr ⟨ha, hf⟩, rfl⟩

/-- A linked pool has everything that is below a place of a file tree: `files` are its files, and they
link to its tables; each schema file below the place is one of them, under the way to it; so is
whatever they import; and there is no field without a type and no method without its two ends. -/
structure Whole (t : FileTree) (place : List Text) (files : List SchemaFile) (ts : Tables)
    (p : Pool) : Prop where
  linked : p.linked = some ts
  scopes : p.linker.files = files.map (·.scope)
  tables : (Linker.ofFiles files).link.2 = .ok ts
  schemas : ∀ key bytes, t.node? key = some (.file bytes) → place <+: key →
    FileTree.isSchemaName (key.getLastD ⟨[]⟩) →
      let name := Path.text ⟨false, key.drop place.length⟩
      ∃ text f, FileTree.textOfBytes bytes = .ok text ∧ SchemaFile.parse name text = .ok f ∧
        f ∈ files ∧ p.linker.file? name = some f.scope
  imports : ∀ f ∈ files, ∀ i ∈ f.imports, (p.linker.file? i.path).isSome
  types : ∀ r ∈ ts.fields, r.type ≠ .unresolved
  methods : ∀ r ∈ ts.methods, r.inputType.isSome ∧ r.outputType.isSome

/-- If loading imports reports nothing, then every import has been loaded or is remembered as
failed. -/
theorem file?_of_loadImports (hp : p.Orderly) (hloads : p.loadImports t = (p', .ok ()))
    (hclean : p'.reports = []) {n : Text} (hn : n ∈ p'.linker.importPaths) :
    (p'.linker.file? n).isSome ∨ n ∈ p'.failed := by
  obtain ⟨tried, htries, hnodup, houtcome⟩ := @tries_loadMissing t p [] p.linker.importPaths
    (fun _ hn => List.mem_append_left _ hn) List.nodup_nil
  rw [List.nil_append] at hnodup houtcome
  obtain ⟨-, new, hgains, hcomes⟩ := htries.gains hp
  have hreports := hgains.reports
  rw [← loadImports, hloads] at houtcome hreports hcomes
  rw [hclean] at hreports
  rcases settled_of_missingImports houtcome hn with hloaded | hfailed | htried
  · exact .inl hloaded
  · exact .inr hfailed
  rcases hcomes hnodup n htried with hloaded | hfailed | ⟨importer, -, i, -, -, honce⟩
  · exact .inl (isSome_file? hloaded)
  · exact .inr hfailed
  · -- a name that is not found would have been reported
    have hnew : new = [] := (List.append_eq_nil_iff.mp hreports.symm).2
    simp [hnew] at honce

/-- A schema file below the directory that has been tried and loaded is one of the files. -/
theorem Searches.exists_parse (hdirectories : q.directories = [root]) (hplain : root.IsPlain)
    {node : FileNode} (hroot : t.find root = .ok (⟨0, place⟩, node)) (hbelow : place <+: key)
    (hnames : ∀ c ∈ key, Path.IsEntry c) {bytes : List UInt8}
    (hnode : t.node? key = some (.file bytes)) {f : SchemaFile}
    (h : (q.attempt t (FileTree.pathBelow root place key)).outcome = .ok f) :
    ∃ text, FileTree.textOfBytes bytes = .ok text ∧
      SchemaFile.parse (Path.text ⟨false, key.drop place.length⟩) text = .ok f := by
  obtain ⟨l, bytes', text, hfind, htext, hparse⟩ := Attempt.exists_parse h
  have hfound := FileTree.node?_of_find_below hplain hroot hbelow hnames hfind
  rw [hnode, Option.some.injEq, FileNode.file.injEq] at hfound
  subst hfound
  have hname := importName_below hdirectories hplain hroot hbelow hnames
  refine ⟨text, htext, ?_⟩
  simpa only [attempt, hname] using hparse

/-- A pool of one directory that is there has everything below it once it is linked, if nothing has
been reported. -/
theorem whole_of_reports (ht : t.Named) (hplain : root.IsPlain)
    (hroot : t.find root = .ok (⟨0, place⟩, .directory))
    (hcreate : create t id [root] subscriber = (.ok (), p)) {ts : Tables}
    (htables : tables.on t p = (.ok ts, p')) (hclean : p'.reports = []) :
    ∃ files, Whole t place files ts p' := by
  have hblank := blank_fresh id [root] subscriber
  obtain ⟨loaded, hsearches, hall⟩ := searches_create ht hplain hroot hcreate
  have hkept := (hsearches.loading.effect Linker.coherent_empty rfl).kept
  have hopen : ¬ p.isClosed := hkept.isClosed ▸ hblank.isOpen
  rw [on_tables_of_unlinked hopen (hkept.linked.trans hblank.linked)] at htables
  rcases hloads : p.loadImports t with ⟨q', e | u⟩
  · simp [hloads] at htables
  rcases hlink : q'.linker.link with ⟨l, e | ts'⟩
  · simp [hloads, hlink] at htables
  simp only [hloads, hlink, Prod.mk.injEq, Except.ok.injEq] at htables
  obtain ⟨rfl, rfl⟩ := htables
  -- what has happened since the pool was new
  obtain ⟨imported, himported⟩ := loading_loadImports t p
  rw [hloads] at himported
  have hloading := hsearches.loading.trans himported
  have heffect := hloading.effect Linker.coherent_empty hblank.linker
  obtain ⟨htables, hdistinct, -, hfailed, hreports⟩ := heffect.replays hblank hlink
  rw [hclean] at hreports
  obtain ⟨hevents, -⟩ := List.append_eq_nil_iff.mp hreports.symm
  rw [failed_of_reportsOf hevents] at hfailed
  -- neither loading nor linking has reported anything
  have hq' : q'.reports = [] ∧ l.reports = [] := List.append_eq_nil_iff.mp hclean
  have hcoherent : q'.linker.Coherent := heffect.kept.coherent (hblank.linker ▸ Linker.coherent_empty)
  obtain ⟨rfl, hknows, hclears⟩ := hcoherent.eq_linkedTables hlink
  obtain ⟨htypes, hmethods⟩ := hcoherent.links_resolved (hclears.mp hq'.2).2
  let files := loadedFiles (loaded ++ imported)
  have hscopes : q'.linker.files = files.map (·.scope) := by
    have hfold := foldl_declared .empty (loaded ++ imported)
    rw [heffect.linker, hfold]
    exact Linker.files_ofFiles hdistinct
  have hfile? : l.file? = q'.linker.file? := by
    funext name
    rw [Linker.file?, Linker.file?, hknows.files]
  refine ⟨files, rfl, hknows.files.trans hscopes, htables, ?_, ?_, htypes, hmethods⟩
  · intro key bytes hnode hbelow hschema name
    have hkey := FileTree.mem_nodes_of_node?_key hnode
    have htried : .file ((fresh id [root] subscriber).attempt t (FileTree.pathBelow root place key)) ∈
        loaded ++ imported := by
      refine List.mem_append_left _ (hall _ ((FileTree.mem_schemaFiles hroot).mpr ?_))
      exact ⟨key, bytes, hkey, hbelow, hschema, rfl⟩
    obtain ⟨f, hf⟩ := exists_outcome_of_reportsOf hevents htried
    obtain ⟨text, htext, hparse⟩ :=
      Searches.exists_parse rfl hplain hroot hbelow (ht _ hkey) hnode hf
    have hmem := mem_loadedFiles htried hf
    refine ⟨text, f, htext, hparse, hmem, ?_⟩
    have hscope : f.scope ∈ q'.linker.files := hscopes ▸ List.mem_map_of_mem hmem
    have hname : f.scope.name = name := SchemaFile.name_of_parse hparse
    exact hfile? ▸ hname ▸ Linker.file?_eq_some hknows.distinct hscope
  · intro f hf i hi
    have hpath : i.path ∈ q'.linker.importPaths := by
      refine Linker.mem_importPaths.mpr ⟨f.scope, ?_, List.mem_map_of_mem hi⟩
      exact hscopes ▸ List.mem_map_of_mem hf
    have horderly : p.Orderly :=
      steady_orderly.loading hsearches.loading (steady_orderly.blank hblank)
    have hnone : i.path ∉ q'.failed := by
      have hsame : q'.failed = [] := hfailed
      simp [hsame]
    have hloaded := (file?_of_loadImports horderly hloads hq'.1 hpath).resolve_right hnone
    exact hfile? ▸ hloaded

end Pool

end ProtoSchema
