import ProtoSchema.Proofs.FileTree.Location
import ProtoSchema.Proofs.Linker.Redefinitions
import ProtoSchema.Proofs.Pool.Imports
import ProtoSchema.Proofs.Pool.Refusals

/-!
# Files that are declared once

A pool tells files apart by the names they are loaded under. Whatever path leads to a file, there is
one name that the pool gives it (`importName_eq_of_find`), and no name is loaded twice; so a file that
is loaded twice has been imported under another name than this (`declared_once`). Where that does not
happen, a name is reported as already defined only if two files, or one alone, define it twice.
-/

namespace ProtoSchema

/-- Where the file is that a pool tries to load. -/
def Attempt.location? (a : Attempt) : Option Location := (a.tree.find a.path).toOption.map Prod.fst

/-- What is loaded has been found. -/
theorem Attempt.exists_find {a : Attempt} {f : SchemaFile} (h : a.outcome = .ok f) :
    ∃ l bytes, a.tree.find a.path = .ok (l, .file bytes) := by
  unfold Attempt.outcome at h
  split at h
  · cases h
  · next text htext =>
    unfold FileTree.readText at htext
    split at htext
    · cases htext
    split at htext
    · cases htext
    split at htext
    · cases htext
    · next bytes hbytes =>
      unfold FileTree.readBytes at hbytes
      rcases hfind : a.tree.find a.path with e | ⟨l, node⟩ <;>
        simp only [hfind, bind, Except.bind] at hbytes
      · cases hbytes
      · cases node with
        | file bytes' => exact ⟨l, bytes', rfl⟩
        | directory => cases hbytes

/-- The file that an event loads. -/
def LoadEvent.load? : LoadEvent → Option (Attempt × SchemaFile)
  | .file a => a.outcome.toOption.map fun f => (a, f)
  | .noImport .. | .noDirectory .. => none

/-- The files that some events load, each with how it was found. -/
def loads (events : List LoadEvent) : List (Attempt × SchemaFile) :=
  events.filterMap LoadEvent.load?

theorem map_snd_loads (events : List LoadEvent) :
    (loads events).map Prod.snd = loadedFiles events := by
  unfold loads loadedFiles
  rw [List.map_filterMap, List.map_filterMap]
  congr 1
  funext e
  cases e <;> simp [LoadEvent.load?, LoadEvent.loaded?, Function.comp_def]

theorem mem_loads {events : List LoadEvent} {x : Attempt × SchemaFile} :
    x ∈ loads events ↔ .file x.1 ∈ events ∧ x.1.outcome = .ok x.2 := by
  unfold loads
  rw [List.mem_filterMap]
  constructor
  · rintro ⟨e, he, hx⟩
    cases e with
    | noImport | noDirectory => cases hx
    | file a =>
      obtain ⟨f, hf, rfl⟩ := Option.map_eq_some_iff.mp hx
      refine ⟨he, ?_⟩
      cases houtcome : a.outcome with
      | error r => simp [houtcome, Except.toOption] at hf
      | ok f' =>
        rw [houtcome] at hf
        cases hf
        rfl
  · rintro ⟨he, houtcome⟩
    exact ⟨_, he, by simp [LoadEvent.load?, houtcome, Except.toOption]⟩

/-! ## Names that are defined twice -/

/-- The files define names once: each by itself, and any two of them that are not at one location. -/
structure DefineOnce (files : List (Attempt × SchemaFile)) : Prop where
  own : ∀ x ∈ files, Fits [] x.2.outline.definitions ∧ x.2.outline.DistinctMembers
  apart : ∀ x ∈ files, ∀ y ∈ files, x.1.location? ≠ y.1.location? →
    ∀ d ∈ x.2.outline.definitions, ∀ d' ∈ y.2.outline.definitions, d.Compatible d'

/-- Files that define names once, and are at different locations, can all be declared. -/
theorem DefineOnce.fits {files : List (Attempt × SchemaFile)} (h : DefineOnce files)
    (hlocations : (files.map fun x => x.1.location?).Nodup) :
    Fits [] (Outline.ofFiles (files.map Prod.snd)).definitions := by
  refine ⟨?_, by simp⟩
  have hdefinitions : (Outline.ofFiles (files.map Prod.snd)).definitions =
      files.flatMap fun x => x.2.outline.definitions := by
    simp [Outline.ofFiles, Outline.flatten, List.flatMap_map]
  rw [hdefinitions, List.pairwise_flatMap]
  refine ⟨fun x hx => (h.own x hx).1.1, ?_⟩
  exact (List.pairwise_map.mp hlocations).imp_of_mem fun hx hy => h.apart _ hx _ hy

/-- A file that cannot be loaded is not reported as defining a name twice. -/
theorem isRedefinition_of_outcome {a : Attempt} {r : Report} (h : a.outcome = .error r) :
    r.isRedefinition = false := by
  unfold Attempt.outcome at h
  split at h
  · cases h
    rfl
  · next text _ =>
    cases hparse : SchemaFile.parse a.name text with
    | ok f =>
      rw [hparse] at h
      cases h
    | error fault =>
      rw [hparse] at h
      cases h
      rfl

/-- While files are loaded, no name is reported as already defined unless it is defined twice. -/
theorem isRedefinition_of_mem_reportsOf {events : List LoadEvent} {l : Linker}
    (hmembers : ∀ f ∈ loadedFiles events, f.outline.DistinctMembers)
    (hfits : Fits l.definitions (Outline.ofFiles (loadedFiles events)).definitions) :
    ∀ r ∈ reportsOf l events, r.isRedefinition = false := by
  induction events generalizing l with
  | nil => simp [reportsOf]
  | cons e events ih =>
    rw [reportsOf]
    refine List.forall_mem_append.mpr ?_
    -- what is not loaded makes for one report, of something else
    have hother (hnone : e.loaded? = none) (hreported : ∀ r ∈ e.reported l,
        r.isRedefinition = false) : (∀ r ∈ e.reported l, r.isRedefinition = false) ∧
          ∀ r ∈ reportsOf (e.declared l) events, r.isRedefinition = false := by
      have hsame : loadedFiles (e :: events) = loadedFiles events := by
        simp [loadedFiles, hnone]
      rw [hsame] at hmembers hfits
      refine ⟨hreported, ih hmembers ?_⟩
      rwa [LoadEvent.declared, hnone]
    cases e with
    | noImport t importer i => exact hother rfl (by simp [LoadEvent.reported, Report.isRedefinition])
    | noDirectory t root => exact hother rfl (by simp [LoadEvent.reported, Report.isRedefinition])
    | file a =>
      cases houtcome : a.outcome with
      | error r =>
        refine hother (by simp [LoadEvent.loaded?, houtcome, Except.toOption]) fun r' hr' => ?_
        simp only [LoadEvent.reported, houtcome, List.mem_singleton] at hr'
        exact hr' ▸ isRedefinition_of_outcome houtcome
      | ok f =>
        have hfiles : loadedFiles (.file a :: events) = f :: loadedFiles events := by
          simp [loadedFiles, LoadEvent.loaded?, houtcome, Except.toOption]
        have hdeclared : (LoadEvent.file a).declared l = l.declare f := by
          simp [LoadEvent.declared, LoadEvent.loaded?, houtcome, Except.toOption]
        rw [hfiles] at hmembers hfits
        rw [Outline.ofFiles, List.map_cons, Outline.flatten_cons, Outline.append_definitions,
          fits_append] at hfits
        have hreported : (LoadEvent.file a).reported l = (l.quiet.declare f).reports := by
          simp [LoadEvent.reported, houtcome]
        rw [hreported, hdeclared]
        refine ⟨fun r hr => ?_, ih (fun f hf => hmembers f (by simp [hf])) ?_⟩
        · have hadds := (Linker.claims_declare l.quiet f).free (hmembers f (by simp)) hfits.1
          exact (hadds r hr).resolve_left (by simp [Linker.quiet])
        · exact (Linker.claims_declare l f).fits hfits.2

/-! ## Loading from directories -/

/-- An event beside a file tree: a file that is tried there has a path without single points. -/
def LoadEvent.IsBeside (t : FileTree) : LoadEvent → Prop
  | .file a => a.tree = t ∧ a.path.IsPlain
  | .noImport .. | .noDirectory .. => True

namespace Pool

variable {α β : Type} {t : FileTree} {p p' p'' q : Pool} {events events' : List LoadEvent}
  {e : LoadEvent} {tried : List Text} {path root : Path} {name : Text}

/-- All paths of a pool are without single points. -/
structure IsPlain (p : Pool) : Prop where
  directories : ∀ d ∈ p.directories, d.IsPlain
  roots : ∀ r ∈ p.roots, r.2.IsPlain

/-- Loading a file touches no directory, and remembers the one that the file was found in. -/
theorem places_load : (p.load t path name root).1.directories = p.directories ∧
    ∀ r ∈ (p.load t path name root).1.roots, r ∈ p.roots ∨ r = (name, root) := by
  unfold load
  split
  · exact ⟨rfl, fun r hr => .inl hr⟩
  · next text _ =>
    rcases p.linker.loadText name text with ⟨l, _ | _⟩
    · exact ⟨rfl, fun r hr => .inl hr⟩
    · refine ⟨rfl, fun r hr => ?_⟩
      simpa [withLinker, Pool.publish] using hr

theorem isPlain_importName (hp : p.IsPlain) (hpath : path.IsPlain) :
    (p.importName path).2.IsPlain := by
  unfold importName
  cases hfound : p.directories.findSome? fun root =>
      (root.relative? path).map fun relative => (relative.text, root) with
  | none => exact hpath.parent
  | some place =>
    obtain ⟨root, hroot, hplace⟩ := List.exists_of_findSome?_eq_some hfound
    obtain ⟨relative, -, rfl⟩ := Option.map_eq_some_iff.mp hplace
    exact hp.directories root hroot

theorem isPlain_of_findImport (hp : p.IsPlain) {importer : Text}
    (h : p.findImport t name importer = .ok (some (path, root))) : root.IsPlain ∧ path.IsPlain := by
  obtain ⟨hroot, rfl⟩ := mem_of_findBelow h
  have hplain : root.IsPlain := by
    rcases List.mem_append.mp hroot with hroot | hroot
    · exact hp.directories root hroot
    · obtain ⟨r, hr, rfl⟩ := Option.map_eq_some_iff.mp (Option.mem_toList.mp hroot)
      exact hp.roots r (List.mem_of_find?_eq_some hr)
  exact ⟨hplain, hplain.join (Path.isPlain_ofText name)⟩

/-- An event beside a file tree leaves the paths of a pool without single points, and its directories
as they are. -/
theorem IsPlain.after (hp : p.IsPlain) (hfits : p.Fits e) (he : e.IsBeside t) :
    (p.after e).IsPlain ∧ (p.after e).directories = p.directories := by
  cases e with
  | noImport t' importer i => exact ⟨⟨hp.directories, hp.roots⟩, rfl⟩
  | noDirectory t' root => exact ⟨⟨hp.directories, hp.roots⟩, rfl⟩
  | file a =>
    have hroot : a.root.IsPlain := by
      rcases hfits.2 with hname | ⟨importer, i, -, -, hfound⟩
      · have hroot := isPlain_importName hp he.2
        rwa [← hname] at hroot
      · exact (isPlain_of_findImport hp hfound).1
    obtain ⟨hdirectories, hroots⟩ :=
      @places_load a.tree p a.path a.root a.name
    refine ⟨⟨?_, fun r hr => ?_⟩, hdirectories⟩
    · exact fun d hd => hp.directories d (hdirectories ▸ hd)
    · rcases hroots r hr with hr | rfl
      · exact hp.roots r hr
      · exact hroot

theorem Loading.isPlain (h : Loading p events p') (hp : p.IsPlain)
    (hevents : ∀ e ∈ events, e.IsBeside t) : p'.IsPlain ∧ p'.directories = p.directories := by
  induction h with
  | none p => exact ⟨hp, rfl⟩
  | next hfits _ ih =>
    rw [List.forall_mem_cons] at hevents
    obtain ⟨hfirst, hdirectories⟩ := hp.after hfits hevents.1
    obtain ⟨hrest, hdirectories'⟩ := ih hfirst hevents.2
    exact ⟨hrest, hdirectories'.trans hdirectories⟩

/-- Names that are tried make for events beside the file tree. -/
theorem Tries.exists_loading (h : Tries t p tried p') (hp : p.IsPlain) :
    ∃ events, Loading p events p' ∧ ∀ e ∈ events, e.IsBeside t := by
  induction h with
  | none p => exact ⟨[], .none p, by simp⟩
  | @next p p' importer i found tried hwanted hfound _ ih =>
    have hfirst : ∃ e : LoadEvent, p.Fits e ∧ e.IsBeside t ∧
        p.loadImport t importer i found = p.after e := by
      cases found with
      | none => exact ⟨.noImport t importer i, ⟨hwanted, hfound⟩, trivial, rfl⟩
      | some place =>
        obtain ⟨path, root⟩ := place
        refine ⟨.file ⟨t, path, i.path, root⟩, ⟨hwanted.new, .inr ?_⟩, ⟨rfl, ?_⟩, rfl⟩
        · exact ⟨importer, i, hwanted, rfl, hfound⟩
        · exact (isPlain_of_findImport hp hfound).2
    obtain ⟨e, hfits, he, hafter⟩ := hfirst
    rw [hafter] at ih
    obtain ⟨events, hevents, hall⟩ := ih (hp.after hfits he).1
    exact ⟨e :: events, .next hfits hevents, List.forall_mem_cons.mpr ⟨he, hall⟩⟩

/-- A run that does nothing but load files beside a file tree, whatever comes of it. -/
def LoadsBeside (t : FileTree) (m : Run α) : Prop :=
  ∀ p, ∃ events, Loading p events (m.on t p).2 ∧ ∀ e ∈ events, e.IsBeside t

theorem loadsBeside_pure (a : α) : LoadsBeside t (pure a : Run α) :=
  fun p => ⟨[], .none p, by simp⟩

theorem LoadsBeside.bind {m : Run α} {f : α → Run β} (hm : LoadsBeside t m)
    (hf : ∀ a, LoadsBeside t (f a)) : LoadsBeside t (m >>= f) := by
  intro p
  obtain ⟨events, h, hall⟩ := hm p
  rw [on_bind]
  rcases heq : m.on t p with ⟨_ | a, p'⟩ <;> rw [heq] at h
  · exact ⟨events, h, hall⟩
  · obtain ⟨events', h', hall'⟩ := hf a p'
    exact ⟨events ++ events', h.trans h', List.forall_mem_append.mpr ⟨hall, hall'⟩⟩

theorem loadsBeside_loadFile (hpath : path.IsPlain) : LoadsBeside t (loadFile path) := by
  intro p
  rw [on_loadFile]
  split_ifs with hclosed hfinalized hzero
  · exact ⟨[], .none p, by simp⟩
  · exact ⟨[], .none p, by simp⟩
  · exact ⟨[], .none p, by simp⟩
  · simp only
    split
    · exact ⟨[], .none p, by simp⟩
    · next hnew =>
      refine ⟨[.file ⟨t, path, (p.importName path).1, (p.importName path).2⟩], .single ?_, ?_⟩
      · exact ⟨by simpa using hnew, .inl rfl⟩
      · simpa [LoadEvent.IsBeside] using hpath

theorem loadsBeside_lookUp (path : Path) : LoadsBeside t (lookUp path) := by
  intro p
  unfold lookUp
  rw [on_bind, on_read]
  simp only
  split <;> exact ⟨[], .none p, by simp⟩

theorem loadsBeside_loadFiles {paths : List Path} (hpaths : ∀ path ∈ paths, path.IsPlain) :
    LoadsBeside t (loadFiles paths) := by
  induction paths with
  | nil => exact loadsBeside_pure 0
  | cons path paths ih =>
    rw [List.forall_mem_cons] at hpaths
    refine .bind ?_ fun _ => .bind (loadsBeside_loadFile hpaths.1) fun _ =>
      .bind (ih hpaths.2) fun _ => loadsBeside_pure _
    exact .bind (loadsBeside_lookUp path) fun _ => loadsBeside_pure _

theorem loadsBeside_loadDirectory (ht : t.IsPlain) (hroot : root.IsPlain) :
    LoadsBeside t (loadDirectory root) := by
  intro p
  unfold loadDirectory lookUp
  simp only [on_bind, on_read]
  rcases hfound : t.lookUp root with e | found
  · exact ⟨[], .none p, by simp⟩
  · simp only [on_pure]
    split
    · exact loadsBeside_loadFiles (fun _ h => FileTree.isPlain_of_mem_schemaFiles ht hroot h) p
    · next hother =>
      refine ⟨[.noDirectory t root], .single ?_, by simp [LoadEvent.IsBeside]⟩
      exact fun hdirectory => hother (Except.ok.inj (hfound.symm.trans hdirectory))

theorem loading_loadDirectories (ht : t.IsPlain) (hp : p.IsPlain) :
    ∃ events, Loading p events (loadDirectories.on t p).2 ∧ ∀ e ∈ events, e.IsBeside t := by
  have heach {roots : List Path} (hroots : ∀ root ∈ roots, root.IsPlain) :
      LoadsBeside t (loadEachDirectory roots) := by
    induction roots with
    | nil => exact loadsBeside_pure 0
    | cons root roots ih =>
      rw [List.forall_mem_cons] at hroots
      exact .bind (loadsBeside_loadDirectory ht hroots.1) fun _ => .bind (ih hroots.2) fun _ =>
        loadsBeside_pure _
  exact heach hp.directories p

/-! ## Import names -/

/-- Whether a file is tried under the name that the pool gives it. -/
def isCanonical (p : Pool) (a : Attempt) : Bool := (p.importName a.path).1 = a.name

/-- All paths without single points that lead to one file have one name. -/
theorem importName_eq_of_find {path' : Path} (hpath : path.IsPlain) (hpath' : path'.IsPlain)
    {l : Location} {bytes : List UInt8} (h : t.find path = .ok (l, .file bytes))
    (h' : t.find path' = .ok (l, .file bytes)) :
    (p.importName path).1 = (p.importName path').1 := by
  unfold importName
  simp only [FileTree.relative?_eq_of_find hpath hpath' h h']
  cases p.directories.findSome? fun root =>
      (root.relative? path').map fun relative => (relative.text, root) with
  | some place => rfl
  | none => exact (FileTree.name_of_find hpath h).trans (FileTree.name_of_find hpath' h').symm

theorem Loading.mem_files (h : Loading p events p') {f : FileScope} (hf : f ∈ p.linker.files) :
    f ∈ p'.linker.files := by
  induction h with
  | none p => exact hf
  | @next p p' e events hfits _ ih =>
    refine ih ?_
    cases e with
    | file a => exact mem_files_load hfits.1 hf
    | noImport | noDirectory => exact hf

/-- A file that is not loaded under its import name is imported by a file of the pool. -/
theorem Loading.imported (h : Loading p events p') (hp : p.IsPlain)
    (hevents : ∀ e ∈ events, e.IsBeside t) {a : Attempt} (ha : .file a ∈ events)
    (hother : ¬ p.isCanonical a) :
    ∃ importer ∈ p'.linker.files, a.name ∈ importer.importNames := by
  induction h with
  | none p => simp at ha
  | @next p p' e events hfits hrest ih =>
    rw [List.forall_mem_cons] at hevents
    obtain ⟨hfirst, hdirectories⟩ := hp.after hfits hevents.1
    rcases List.mem_cons.mp ha with rfl | ha
    · rcases hfits.2 with hname | ⟨importer, i, hwanted, hi, -⟩
      · exact absurd (decide_eq_true (congrArg Prod.fst hname).symm) hother
      · refine ⟨importer, ?_, hi ▸ List.mem_map_of_mem hwanted.imported⟩
        exact hrest.mem_files (mem_files_load hfits.1 hwanted.known)
    · refine ih hfirst hevents.2 ha ?_
      rwa [isCanonical, importName, hdirectories]

/-! ## Declared once -/

/-- No name is loaded twice. -/
theorem Effect.nodup_names (h : Effect .empty events p p') :
    ((loads events).map fun x => x.1.name).Nodup := by
  have hfiles := h.coherent.unlinked.files
  rw [h.names] at hfiles
  have hattempts : ((loads events).map fun x => x.1.name) = (loadedFiles events).map (·.name) := by
    rw [← map_snd_loads, List.map_map]
    exact List.map_congr_left fun x hx => (SchemaFile.name_eq_of_outcome (mem_loads.mp hx).2).symm
  rw [hattempts, loadedFiles, List.map_map]
  exact hfiles

/-- The files that are loaded under their import names are at different locations, if no name is
loaded twice. -/
theorem nodup_locations (hevents : ∀ e ∈ events, e.IsBeside t)
    (hnames : ((loads events).map fun x => x.1.name).Nodup) :
    (((loads events).filter fun x => q.isCanonical x.1).map fun x => x.1.location?).Nodup := by
  refine List.Nodup.map_on (fun x hx y hy hsame => ?_) (hnames.of_map _ |>.filter _)
  obtain ⟨hx, hcanonical⟩ := List.mem_filter.mp hx
  obtain ⟨hy, hcanonical'⟩ := List.mem_filter.mp hy
  obtain ⟨hx', houtcome⟩ := mem_loads.mp hx
  obtain ⟨hy', houtcome'⟩ := mem_loads.mp hy
  obtain ⟨htree, hplain⟩ := hevents _ hx'
  obtain ⟨htree', hplain'⟩ := hevents _ hy'
  obtain ⟨l, bytes, hfind⟩ := Attempt.exists_find houtcome
  obtain ⟨l', bytes', hfind'⟩ := Attempt.exists_find houtcome'
  rw [Attempt.location?, Attempt.location?, hfind, hfind'] at hsame
  obtain rfl : l = l' := Option.some.inj hsame
  rw [htree] at hfind
  rw [htree'] at hfind'
  -- at one location there is one file
  have hnode := (FileTree.walk_of_find hfind).2.2.symm.trans (FileTree.walk_of_find hfind').2.2
  obtain rfl : bytes = bytes' := FileNode.file.inj (Option.some.inj hnode)
  refine List.inj_on_of_nodup_map hnames hx hy ?_
  calc x.1.name
    _ = (q.importName x.1.path).1 := (of_decide_eq_true hcanonical).symm
    _ = (q.importName y.1.path).1 := importName_eq_of_find hplain hplain' hfind hfind'
    _ = y.1.name := of_decide_eq_true hcanonical'

/-- What has been reported once a pool is linked: what was reported while imports were loaded, and
perhaps what linking reports. -/
theorem reports_tables (hopen : ¬ p.isClosed) (hlinked : p.linked = none) :
    ∃ noted, (tables.on t p).2.reports = (p.loadImports t).1.reports ++ noted ∧
      ∀ r ∈ noted, r ∈ (p.loadImports t).1.linker.link.1.reports := by
  rw [on_tables_of_unlinked hopen hlinked]
  rcases p.loadImports t with ⟨p', e | u⟩
  · exact ⟨[], (List.append_nil _).symm, by simp⟩
  · rcases hlink : p'.linker.link with ⟨l, e | ts⟩ <;> simp only [hlink] <;>
      exact ⟨l.reports, rfl, fun r hr => hr⟩

/-- Whatever is in a file tree, and whichever directories a pool begins a generation with: when it is
linked, its files have been loaded from the tree, no two under one name, and no file of the tree twice
under its import name. A file that is loaded under another name is imported under that name. Where
there is none, no file of the tree is declared twice; and if the files then define names once, no name
is reported as already defined. -/
theorem declared_once (ht : t.IsPlain) (hq : q.Blank) {directories : List Text}
    (hdirectories : q.directories = directories.map Path.ofText) :
    let p := (loadDirectories.on t q).2
    let p' := (p.loadImports t).1
    ∃ files : List (Attempt × SchemaFile),
      p'.linker = (Linker.ofFiles (files.map Prod.snd)).quiet ∧
      (∀ x ∈ files, x.1.tree = t ∧ x.1.outcome = .ok x.2) ∧
      (files.map fun x => x.1.name).Nodup ∧
      ((files.filter fun x => q.isCanonical x.1).map fun x => x.1.location?).Nodup ∧
      (∀ x ∈ files, ¬ q.isCanonical x.1 →
        ∃ importer ∈ p'.linker.files, x.1.name ∈ importer.importNames) ∧
      ((∀ x ∈ files, q.isCanonical x.1) → (files.map fun x => x.1.location?).Nodup ∧
        (DefineOnce files → ∀ r ∈ (tables.on t p).2.reports, r.isRedefinition = false)) := by
  intro p p'
  have hplain : q.IsPlain := by
    refine ⟨?_, by simp [hq.roots]⟩
    rw [hdirectories]
    exact List.forall_mem_map.mpr fun text _ => Path.isPlain_ofText text
  obtain ⟨loaded, hloaded, hbeside⟩ := loading_loadDirectories ht hplain
  obtain ⟨hplain', -⟩ := hloaded.isPlain hplain hbeside
  obtain ⟨tried, htries, -⟩ := @tries_loadMissing t p [] p.linker.importPaths
    (fun _ hn => List.mem_append_left _ hn) List.nodup_nil
  obtain ⟨imported, himported, hbeside'⟩ := htries.exists_loading hplain'
  let events := loaded ++ imported
  have hloading : Loading q events p' := hloaded.trans himported
  have hall : ∀ e ∈ events, e.IsBeside t := List.forall_mem_append.mpr ⟨hbeside, hbeside'⟩
  have heffect := hloading.effect Linker.coherent_empty hq.linker
  have hfold : events.foldl LoadEvent.declared .empty = Linker.ofFiles (loadedFiles events) :=
    foldl_declared .empty events
  have hlocations := nodup_locations (q := q) hall heffect.nodup_names
  refine ⟨loads events, ?_, fun x hx => ?_, heffect.nodup_names, hlocations, fun x hx hother => ?_,
    fun hcanonical => ?_⟩
  · rw [map_snd_loads, ← hfold]
    exact heffect.linker
  · obtain ⟨he, houtcome⟩ := mem_loads.mp hx
    exact ⟨(hall _ he).1, houtcome⟩
  · exact hloading.imported hplain hall (mem_loads.mp hx).1 hother
  · rw [List.filter_eq_self.mpr hcanonical] at hlocations
    refine ⟨hlocations, fun hdefine r hr => ?_⟩
    have hmembers : ∀ f ∈ loadedFiles events, f.outline.DistinctMembers := by
      rw [← map_snd_loads]
      exact List.forall_mem_map.mpr fun x hx => (hdefine.own x hx).2
    have hfits := hdefine.fits hlocations
    rw [map_snd_loads] at hfits
    -- until it is linked, the pool stays open
    have hkept := (hloaded.effect Linker.coherent_empty hq.linker).kept
    have hopen : ¬ p.isClosed := hkept.isClosed ▸ hq.isOpen
    obtain ⟨noted, hreports, hnoted⟩ :=
      @reports_tables t p hopen (hkept.linked.trans hq.linked)
    have himports : (p.loadImports t).1 = p' := rfl
    rw [himports] at hreports hnoted
    rw [hreports, heffect.reports, hq.reports, List.nil_append] at hr
    rcases List.mem_append.mp hr with hr | hr
    · exact isRedefinition_of_mem_reportsOf (l := .empty) hmembers hfits r hr
    · have hquiet : p'.linker.reports = [] := by
        rw [heffect.linker]
        rfl
      have hcoherent : p'.linker.Coherent := by
        rw [heffect.linker]
        exact heffect.coherent.withReports []
      exact (hcoherent.adds_link r (hnoted r hr)).resolve_left (by simp [hquiet])

end Pool

/-! ## A file that is declared twice -/

namespace Sample
/-- The lexemes of an empty message. -/
def messageLexemes : List Lexed :=
  [(.keyword .kwMessage, ['m', 'e', 's', 's', 'a', 'g', 'e']), (.name, ['B']),
    (.mark .lbrace, ['\x7b']), (.mark .rbrace, ['\x7d'])]

/-- The tree of a file with this message. -/
def messageTree : Tree (.nonterminal .schemaFile) :=
  let keyword : Tree (.key .kwMessage) :=
    .leaf ⟨.keyword .kwMessage, ['m', 'e', 's', 's', 'a', 'g', 'e'], .start⟩
  let name : Tree (.part .name) :=
    .node ⟨.name, 0⟩ (.cons (.leaf ⟨.name, ['B'], ⟨1, 9⟩⟩) .nil)
  let opening : Tree (.mark .lbrace) := .leaf ⟨.mark .lbrace, ['\x7b'], ⟨1, 11⟩⟩
  let closing : Tree (.mark .rbrace) := .leaf ⟨.mark .rbrace, ['\x7d'], ⟨1, 13⟩⟩
  let message : Tree (.part .messageDecl) := .node ⟨.messageDecl, 1⟩
    (.cons keyword (.cons name (.cons opening (.cons closing .nil))))
  let item : Tree (.part .topItem) := .node ⟨.topItem, 3⟩ (.cons message .nil)
  .node .bareFile (.cons (.node .firstItem (.cons item .nil)) .nil)

/-- The file that defines this message. -/
def definer (name : Text) : SchemaFile :=
  ⟨name, .proto2, none, [], [⟨"B", [], [], [], [], [], [], [], [], [], ⟨1, 9⟩⟩], [], [], [], []⟩

/-- A file tree with two files, one of which imports the other. -/
def pairTree : FileTree :=
  ⟨[([Text.ofString "a.proto"], .file ((Lexed.spaced importLexemes).map fun c => c.toNat.toUInt8)),
    ([Text.ofString "b.proto"], .file ((Lexed.spaced messageLexemes).map fun c => c.toNat.toUInt8))]⟩

/-- The working directory. -/
def workingDirectory : Path := .ofText (Text.ofString ".")

/-- The first file of the tree. -/
def tryA : Attempt × SchemaFile :=
  (⟨pairTree, pathA, Text.ofString "a.proto", workingDirectory⟩, importer (Text.ofString "a.proto"))

/-- The second file of the tree, under any name. -/
def tryB (name : Text) : Attempt × SchemaFile :=
  (⟨pairTree, pathB, name, workingDirectory⟩, definer name)

/-- A pool over the working directory. -/
def workingPool : Pool := .fresh 1 [workingDirectory] none

/-- The pool that has loaded the first file. -/
def halfPool : Pool :=
  { workingPool with
    linker := (Linker.empty.declare (importer (Text.ofString "a.proto"))).quiet
    roots := [(Text.ofString "a.proto", workingDirectory)] }

/-- The pool that has loaded both files. -/
def pairPool : Pool :=
  { halfPool with
    linker := (halfPool.linker.declare (definer (Text.ofString "b.proto"))).quiet
    roots := halfPool.roots ++ [(Text.ofString "b.proto", workingDirectory)] }

end Sample

theorem SchemaFile.parse_messageLexemes (name : Text) :
    SchemaFile.parse name (Lexed.spaced Sample.messageLexemes) = .ok (Sample.definer name) := by
  have hvalue : Sample.messageTree.value = .ok (Sample.definer "") := by
    with_unfolding_all rfl
  exact parse_spaced_tree (by decide) (by decide) hvalue rfl name

namespace Pool

theorem schemaFiles_pairTree :
    Sample.pairTree.schemaFiles Sample.workingDirectory = [Sample.pathA, Sample.pathB] := by
  have hfind : Sample.pairTree.find Sample.workingDirectory = .ok (.start, .directory) := rfl
  have horder : [Sample.pathA, Sample.pathB].Pairwise fun p q =>
      (! q.components.lex p.components Text.isBefore) = true := by
    decide +kernel
  simp only [FileTree.schemaFiles, hfind, Location.start]
  rw [← List.mergeSort_of_pairwise horder]
  congr 1

theorem outcome_pairTree_a (root : Path) :
    Attempt.outcome ⟨Sample.pairTree, Sample.pathA, Text.ofString "a.proto", root⟩ =
      .ok (Sample.importer (Text.ofString "a.proto")) := by
  have hread : (Sample.pairTree.readText Sample.pathA Sample.pathA.text).toOption =
      some (Lexed.spaced Sample.importLexemes) := by
    decide +kernel
  cases h : Sample.pairTree.readText Sample.pathA Sample.pathA.text with
  | error e => simp [h, Except.toOption] at hread
  | ok text =>
    obtain rfl : text = _ := by simpa [h, Except.toOption] using hread
    simp only [Attempt.outcome, h, SchemaFile.parse_importLexemes]
    rfl

theorem outcome_pairTree_b (name : Text) (root : Path) :
    Attempt.outcome ⟨Sample.pairTree, Sample.pathB, name, root⟩ = .ok (Sample.definer name) := by
  have hread : (Sample.pairTree.readText Sample.pathB Sample.pathB.text).toOption =
      some (Lexed.spaced Sample.messageLexemes) := by
    decide +kernel
  cases h : Sample.pairTree.readText Sample.pathB Sample.pathB.text with
  | error e => simp [h, Except.toOption] at hread
  | ok text =>
    obtain rfl : text = _ := by simpa [h, Except.toOption] using hread
    simp only [Attempt.outcome, h, SchemaFile.parse_messageLexemes]
    rfl

theorem on_loadFiles_nil (t : FileTree) (p : Pool) : (loadFiles []).on t p = (.ok 0, p) := rfl

/-- A file that can be asked for is loaded before the others. -/
theorem on_loadFiles_cons {t : FileTree} {p p' : Pool} {path : Path} {paths : List Path}
    {found : Option FileNode} {loaded : Bool} (hfound : t.lookUp path = .ok found)
    (hload : (loadFile path).on t p = (.ok loaded, p')) :
    (loadFiles (path :: paths)).on t p =
      (((loadFiles paths).on t p').1.map fun count => if loaded then count + 1 else count,
        ((loadFiles paths).on t p').2) := by
  have hasked : (discard (lookUp path) : Run Unit).on t p = (.ok (), p) := by
    have hmap := on_map (t := t) (p := p) (fun _ => ()) (lookUp path)
    rw [on_lookUp, hfound] at hmap
    exact hmap
  rw [loadFiles, on_bind, hasked]
  simp only
  rw [on_bind, hload]
  simp only
  rw [on_bind]
  rcases (loadFiles paths).on t p' with ⟨_ | count, p''⟩ <;> rfl

theorem exists_lookUp {t : FileTree} {path : Path} (h : (t.lookUp path).toOption.isSome) :
    ∃ found, t.lookUp path = .ok found := by
  cases hfound : t.lookUp path with
  | error e => simp [hfound, Except.toOption] at h
  | ok found => exact ⟨found, rfl⟩

theorem on_loadDirectory {t : FileTree} {p : Pool} {root : Path}
    (hroot : t.lookUp root = .ok (some .directory)) :
    (loadDirectory root).on t p = (loadFiles (t.schemaFiles root)).on t p := by
  rw [loadDirectory, on_bind, on_lookUp, hroot]
  simp only [Except.mapError, on_bind, on_read]

theorem on_loadEachDirectory_cons {t : FileTree} {p p₁ p' : Pool} {root : Path} {roots : List Path}
    {count count' : Nat}
    (hroot : (loadDirectory root).on t p = (.ok count, p₁))
    (hroots : (loadEachDirectory roots).on t p₁ = (.ok count', p')) :
    (loadEachDirectory (root :: roots)).on t p = (.ok (count + count'), p') := by
  rw [loadEachDirectory, on_bind, hroot]
  simp only [on_bind, hroots, on_pure]

theorem on_loadEachDirectory_nil (t : FileTree) (p : Pool) :
    (loadEachDirectory []).on t p = (.ok 0, p) := rfl

theorem on_loadDirectories (t : FileTree) (p : Pool) :
    loadDirectories.on t p = (loadEachDirectory p.directories).on t p := by
  rw [loadDirectories, on_bind, on_get]

/-- A new pool is made of what is loaded from its directories. -/
theorem create_eq (t : FileTree) (id : Nat) (directories : List Path) (subscriber : Option String) :
    create t id directories subscriber =
      (((loadEachDirectory directories).on t (fresh id directories subscriber)).1.map fun _ => (),
        ((loadEachDirectory directories).on t (fresh id directories subscriber)).2) := by
  have hmap := on_map (t := t) (p := fresh id directories subscriber) (fun _ => ()) loadDirectories
  rw [on_loadDirectories] at hmap
  exact hmap

/-- A pool is made of what is loaded from its directory. -/
theorem create_of_directory {t : FileTree} {id : Nat} {root : Path} {subscriber : Option String}
    (hroot : t.lookUp root = .ok (some .directory)) :
    create t id [root] subscriber =
      (((loadFiles (t.schemaFiles root)).on t (fresh id [root] subscriber)).1.map fun _ => (),
        ((loadFiles (t.schemaFiles root)).on t (fresh id [root] subscriber)).2) := by
  rw [create_eq, loadEachDirectory, on_bind, on_loadDirectory hroot]
  rcases (loadFiles (t.schemaFiles root)).on t (fresh id [root] subscriber) with ⟨_ | count, p⟩ <;> rfl

/-- A file of a new name on which there is nothing to note is loaded. -/
theorem on_loadFile_of_ok {t : FileTree} {p : Pool} {path : Path} (hopen : ¬ p.isClosed)
    (hlinked : p.linked = none) (hzero : ¬ Path.hasZero path.text)
    (hnew : (p.linker.file? (p.importName path).1).isSome = false) {f : SchemaFile}
    (houtcome : Attempt.outcome ⟨t, path, (p.importName path).1, (p.importName path).2⟩ = .ok f)
    (hnotes : (p.linker.declare f).reports = []) :
    (loadFile path).on t p = (.ok true, { p with
      roots := p.roots ++ [p.importName path]
      linker := (p.linker.declare f).quiet }) := by
  have hopen' : ¬ p.isFinalized := by simp [isFinalized, hlinked]
  rw [on_loadFile, if_neg hopen, if_neg hopen', if_neg hzero]
  simp only [hnew, load_of_ok houtcome, withLinker, publish, hnotes]
  simp [Linker.quiet]

theorem create_pairTree :
    (create Sample.pairTree 1 [Sample.workingDirectory] none).2 = Sample.pairPool := by
  have hroot : Sample.pairTree.lookUp Sample.workingDirectory = .ok (some .directory) := rfl
  have hasked : (Sample.pairTree.lookUp Sample.pathA).toOption.isSome ∧
      (Sample.pairTree.lookUp Sample.pathB).toOption.isSome := by
    decide +kernel
  obtain ⟨foundA, hA⟩ := exists_lookUp hasked.1
  obtain ⟨foundB, hB⟩ := exists_lookUp hasked.2
  have hnameA : Sample.workingPool.importName Sample.pathA =
      (Text.ofString "a.proto", Sample.workingDirectory) := by
    decide +kernel
  have hnameB : Sample.halfPool.importName Sample.pathB =
      (Text.ofString "b.proto", Sample.workingDirectory) := by
    decide +kernel
  have hloadA : (loadFile Sample.pathA).on Sample.pairTree Sample.workingPool =
      (.ok true, Sample.halfPool) := by
    rw [on_loadFile_of_ok (f := Sample.importer (Text.ofString "a.proto")) Bool.false_ne_true rfl
      (by decide +kernel) (by decide +kernel) (by rw [hnameA]; exact outcome_pairTree_a _)
      (by decide +kernel), hnameA]
    rfl
  have hloadB : (loadFile Sample.pathB).on Sample.pairTree Sample.halfPool =
      (.ok true, Sample.pairPool) := by
    rw [on_loadFile_of_ok (f := Sample.definer (Text.ofString "b.proto")) Bool.false_ne_true rfl
      (by decide +kernel) (by decide +kernel) (by rw [hnameB]; exact outcome_pairTree_b ..)
      (by decide +kernel), hnameB]
    rfl
  have hfiles : ((loadFiles [Sample.pathA, Sample.pathB]).on Sample.pairTree
      Sample.workingPool).2 = Sample.pairPool := by
    rw [on_loadFiles_cons hA hloadA, on_loadFiles_cons hB hloadB, on_loadFiles_nil]
  rw [← schemaFiles_pairTree] at hfiles
  exact (congrArg Prod.snd (create_of_directory hroot)).trans hfiles

/-- One import is missing, and none once it is loaded. -/
theorem loadImports_of_single {t : FileTree} {p : Pool} {importer : FileScope} {i : ImportDecl}
    {path root : Path} (hmissing : p.missingImports [] = [(importer, i)])
    (hfound : p.findImport t i.path importer.name = .ok (some (path, root)))
    (hdone : (p.load t path i.path root).1.missingImports [i.path] = []) :
    p.loadImports t = ((p.load t path i.path root).1, .ok ()) := by
  have hround : p.loadEach t [] [(importer, i)] =
      ((p.load t path i.path root).1, .ok [i.path]) := by
    rw [loadEach, if_neg List.not_mem_nil]
    simp only [hfound]
    rfl
  obtain ⟨h, heq⟩ := loadMissing_of_ok (fun _ hn => List.mem_append_left _ hn) hmissing
    (congrArg Prod.snd hround)
  rw [loadImports, heq]
  simp only [hround]
  exact loadMissing_of_nil _ hdone

/-- What comes of the import. -/
theorem loadImports_pairTree :
    Sample.pairPool.loadImports Sample.pairTree =
      ((Sample.pairPool.load Sample.pairTree Sample.pathB "./b.proto" Sample.workingDirectory).1,
        .ok ()) := by
  let i : ImportDecl := ⟨"./b.proto", none, ⟨1, 8⟩⟩
  let importer := (Sample.importer (Text.ofString "a.proto")).scope
  have hmissing : Sample.pairPool.missingImports [] = [(importer, i)] := by decide +kernel
  have hplace : (Sample.pairPool.findImport Sample.pairTree i.path importer.name).toOption =
      some (some (Sample.pathB, Sample.workingDirectory)) := by
    decide +kernel
  have hfound : Sample.pairPool.findImport Sample.pairTree i.path importer.name =
      .ok (some (Sample.pathB, Sample.workingDirectory)) := by
    cases h : Sample.pairPool.findImport Sample.pairTree i.path importer.name with
    | error e => simp [h, Except.toOption] at hplace
    | ok found => simpa [h, Except.toOption] using hplace
  refine loadImports_of_single hmissing hfound ?_
  rw [load_of_ok (outcome_pairTree_b ..)]
  decide +kernel

/-- The files of the tree define names once, whatever they are called. -/
theorem defineOnce_pairTree (name name' : Text) :
    DefineOnce [Sample.tryA, Sample.tryB name, Sample.tryB name'] := by
  have hempty : (Sample.importer (Text.ofString "a.proto")).outline = .empty := rfl
  have hmessage (name : Text) : (Sample.definer name).outline =
      .ofMessage ⟨⟨"B", "B", (Sample.definer name).scope, false, false, []⟩, []⟩ := rfl
  have hown (name : Text) : ProtoSchema.Fits [] (Sample.definer name).outline.definitions ∧
      (Sample.definer name).outline.DistinctMembers := by
    rw [hmessage]
    refine ⟨⟨List.pairwise_singleton _ _, by simp⟩, ⟨?_, ?_⟩⟩ <;> simp [Outline.ofMessage, Outline.empty]
  have hdefinitions : Sample.tryA.2.outline.definitions = [] := congrArg Outline.definitions hempty
  constructor
  · simp only [List.forall_mem_cons]
    refine ⟨⟨?_, ?_⟩, hown name, hown name', by simp⟩
    · rw [hdefinitions]
      exact fits_nil []
    · have hnone : Outline.empty.DistinctMembers := ⟨by simp [Outline.empty], by simp [Outline.empty]⟩
      exact hempty ▸ hnone
  · simp only [List.forall_mem_cons, hdefinitions, List.not_mem_nil]
    have hsame : (Sample.tryB name).1.location? = (Sample.tryB name').1.location? := rfl
    simp [hsame]

theorem linker_pairTree : (Sample.pairPool.loadImports Sample.pairTree).1.linker =
    (Linker.ofFiles [Sample.importer (Text.ofString "a.proto"),
      Sample.definer (Text.ofString "b.proto"), Sample.definer "./b.proto"]).quiet := by
  have hquiet (l : Linker) (f : SchemaFile) : (l.quiet.declare f).quiet = (l.declare f).quiet := by
    rw [Linker.declare_eq_behind l, Linker.quiet_behind]
  have hlinker (p : Pool) (l : Linker) : (p.withLinker l).linker = l.quiet := rfl
  rw [loadImports_pairTree, load_of_ok (outcome_pairTree_b ..)]
  simp only [hlinker, Sample.pairPool, Sample.halfPool, hquiet, Linker.ofFiles, List.foldl_cons,
    List.foldl_nil]

theorem reported_pairTree : ∃ r ∈ (Sample.pairPool.loadImports Sample.pairTree).1.reports,
    r.problem = .link (.alreadyDefined "B" (some (Text.ofString "b.proto"))) := by
  have hreports (p : Pool) (l : Linker) : (p.withLinker l).reports = p.reports ++ l.reports := rfl
  have hnotes : (Sample.pairPool.linker.declare (Sample.definer "./b.proto")).reports.any
      (·.problem = .link (.alreadyDefined "B" (some (Text.ofString "b.proto")))) := by
    decide +kernel
  obtain ⟨r, hr, hproblem⟩ := List.any_eq_true.mp hnotes
  refine ⟨r, ?_, of_decide_eq_true hproblem⟩
  rw [loadImports_pairTree, load_of_ok (outcome_pairTree_b ..), hreports]
  exact List.mem_append_right _ hr

/-- A file that is imported as `./b.proto`, and is found below the working directory as `b.proto`, is
declared twice, and its message reported as already defined. -/
theorem declared_twice :
    let t := Sample.pairTree
    let p := (create t 1 [Sample.workingDirectory] none).2
    (∃ files : List (Attempt × SchemaFile),
      (p.loadImports t).1.linker = (Linker.ofFiles (files.map Prod.snd)).quiet ∧
      (∀ x ∈ files, x.1.tree = t ∧ x.1.outcome = .ok x.2) ∧
      ¬ (files.map fun x => x.1.location?).Nodup ∧ DefineOnce files) ∧
    ∃ r ∈ (tables.on t p).2.reports,
      r.problem = .link (.alreadyDefined "B" (some (Text.ofString "b.proto"))) := by
  simp only [create_pairTree]
  refine ⟨⟨[Sample.tryA, Sample.tryB (Text.ofString "b.proto"), Sample.tryB "./b.proto"],
    linker_pairTree, ?_, ?_, defineOnce_pairTree _ _⟩, ?_⟩
  · simp only [List.forall_mem_cons, Sample.tryA, Sample.tryB, true_and]
    exact ⟨outcome_pairTree_a _, outcome_pairTree_b .., outcome_pairTree_b .., by simp⟩
  · simp [Sample.tryB, Attempt.location?]
  · obtain ⟨noted, hreports, -⟩ :=
      @reports_tables Sample.pairTree Sample.pairPool Bool.false_ne_true rfl
    obtain ⟨r, hr, hproblem⟩ := reported_pairTree
    rw [hreports]
    exact ⟨r, List.mem_append_left _ hr, hproblem⟩

/-- A pool over the working directory declares the files of the tree, and each once under its import
name. -/
theorem declared_once_pairTree : Sample.pairTree.IsPlain ∧ Sample.workingPool.Blank ∧
    ∃ files : List (Attempt × SchemaFile),
      (( loadDirectories.on Sample.pairTree Sample.workingPool).2.loadImports
        Sample.pairTree).1.linker = (Linker.ofFiles (files.map Prod.snd)).quiet ∧
      ((files.filter fun x => Sample.workingPool.isCanonical x.1).map
        fun x => x.1.location?).Nodup := by
  have hplain : Sample.pairTree.IsPlain := by
    unfold FileTree.IsPlain
    decide +kernel
  have hblank : Sample.workingPool.Blank := ⟨Bool.false_ne_true, rfl, rfl, rfl, rfl, rfl⟩
  obtain ⟨files, hlinker, -, -, hlocations, -⟩ :=
    @declared_once Sample.pairTree Sample.workingPool hplain hblank [Text.ofString "."] rfl
  exact ⟨hplain, hblank, files, hlinker, hlocations⟩

end Pool

end ProtoSchema
