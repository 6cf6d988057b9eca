import ProtoSchema.Proofs.Linker.Notes
import ProtoSchema.Proofs.Pool.Rebuilding
import ProtoSchema.Proofs.Schema.Accepted

/-!
# Pools and what they loaded

Whatever is asked of a pool, its files come in one by one: each `LoadEvent` tries one file that is new
to the pool, or gives up an import or a directory that is not there (`Loading`). Beside the pool runs
a linker that only the files are declared to which could be read and parsed, and the pool's own linker
stays that one without its notes (`Loading.effect`). So the tables that a pool ends with are those of
a linker that knows nothing of pools (`tables_like_ofFiles`).
-/

namespace ProtoSchema

/-! ## Events -/

/-- A file that a pool tries to load: the path, the name it is loaded under, and the directory it was
found in. -/
structure Attempt where
  tree : FileTree
  path : Path
  name : Text
  root : Path

/-- The file, or why it cannot be read or parsed. -/
def Attempt.outcome (a : Attempt) : Except Report SchemaFile :=
  match a.tree.readText a.path a.path.text with
  | .error e => .error ⟨.load (.unreadable e), a.path.text, none⟩
  | .ok text => (SchemaFile.parse a.name text).mapError fun fault => fault.report a.name

/-- What happens to a pool while files are loaded. -/
inductive LoadEvent
  | file (a : Attempt)
  | noImport (t : FileTree) (importer : FileScope) (i : ImportDecl)
  | noDirectory (t : FileTree) (root : Path)

namespace LoadEvent

/-- The file that has been loaded, with the directory it was found in. -/
def loaded? : LoadEvent → Option (SchemaFile × Path)
  | file a => a.outcome.toOption.map fun f => (f, a.root)
  | noImport .. | noDirectory .. => none

/-- The name of the file that cannot be read or parsed. -/
def failed? : LoadEvent → Option Text
  | file a => if a.outcome.toOption.isSome then none else some a.name
  | noImport .. | noDirectory .. => none

/-- The linker that the file is declared to, if it has been loaded. -/
def declared (l : Linker) (e : LoadEvent) : Linker :=
  match e.loaded? with
  | some (f, _) => l.declare f
  | none => l

/-- What is reported: what a linker notes on a file that has been loaded, and one report on anything
else. -/
def reported (l : Linker) : LoadEvent → List Report
  | file a =>
    match a.outcome with
    | .ok f => (l.quiet.declare f).reports
    | .error r => [r]
  | noImport _ importer i => [⟨.load (.importNotFound i.path), importer.name, some i.position⟩]
  | noDirectory _ root => [⟨.load .noDirectory, root.text, none⟩]

end LoadEvent

/-- The files that have been loaded by some events, in turn. -/
def loadedFiles (events : List LoadEvent) : List SchemaFile :=
  (events.filterMap LoadEvent.loaded?).map Prod.fst

/-- The reports of some events, where `l` is the linker that the files before were declared to. -/
def reportsOf (l : Linker) : List LoadEvent → List Report
  | [] => []
  | e :: events => e.reported l ++ reportsOf (e.declared l) events

theorem SchemaFile.name_eq_of_outcome {a : Attempt} {f : SchemaFile} (h : a.outcome = .ok f) :
    f.scope.name = a.name := by
  unfold Attempt.outcome at h
  split at h
  · cases h
  · next text _ =>
    cases hparse : SchemaFile.parse a.name text with
    | error fault =>
      rw [hparse] at h
      cases h
    | ok f' =>
      rw [hparse] at h
      cases h
      exact SchemaFile.name_of_parse hparse

namespace Pool

variable {α β : Type} {t : FileTree} {p p' p'' : Pool} {events events' : List LoadEvent}

/-- An import of one of the pool's files that is neither loaded nor given up. -/
structure Wanted (p : Pool) (importer : FileScope) (i : ImportDecl) : Prop where
  known : importer ∈ p.linker.files
  imported : i ∈ importer.imports
  new : p.linker.file? i.path = none
  untried : i.path ∉ p.failed

/-- When an event can happen: a file is tried only under a new name, which is the name of its path or
that of an import it is found for; an import is given up when there is no file for it, and a
directory when it is none. -/
def Fits (p : Pool) : LoadEvent → Prop
  | .file a => p.linker.file? a.name = none ∧
      ((a.name, a.root) = p.importName a.path ∨
        ∃ importer i, p.Wanted importer i ∧ i.path = a.name ∧
          p.findImport a.tree a.name importer.name = .ok (some (a.path, a.root)))
  | .noImport t importer i =>
    p.Wanted importer i ∧ p.findImport t i.path importer.name = .ok none
  | .noDirectory t root => t.lookUp root ≠ .ok (some .directory)

/-- The pool behind an event. -/
def after (p : Pool) : LoadEvent → Pool
  | .file a => (p.load a.tree a.path a.name a.root).1
  | .noImport _ importer i =>
    p.publish [⟨.load (.importNotFound i.path), importer.name, some i.position⟩]
  | .noDirectory _ root => p.publish [⟨.load .noDirectory, root.text, none⟩]

/-- From `p` to `p'` nothing but the events has happened, in turn. -/
inductive Loading : Pool → List LoadEvent → Pool → Prop
  | none (p : Pool) : Loading p [] p
  | next {p p' : Pool} {e : LoadEvent} {events : List LoadEvent} (hfits : p.Fits e)
    (hrest : Loading (p.after e) events p') : Loading p (e :: events) p'

theorem Loading.single {e : LoadEvent} (h : p.Fits e) : Loading p [e] (p.after e) :=
  .next h (.none _)

theorem Loading.trans (h : Loading p events p') (h' : Loading p' events' p'') :
    Loading p (events ++ events') p'' := by
  induction h with
  | none p => exact h'
  | next hfits _ ih => exact .next hfits (ih h')

/-! ## What an event does -/

theorem load_of_ok {path root : Path} {name : Text} {f : SchemaFile}
    (h : Attempt.outcome ⟨t, path, name, root⟩ = .ok f) :
    p.load t path name root =
      (({ p with roots := p.roots ++ [(name, root)] } : Pool).withLinker (p.linker.declare f),
        true) := by
  unfold Attempt.outcome at h
  unfold load
  cases htext : t.readText path path.text with
  | error e => simp [htext] at h
  | ok text =>
    cases hparse : SchemaFile.parse name text with
    | error fault => simp [htext, hparse, Except.mapError] at h
    | ok f' =>
      simp only [htext, hparse, Except.mapError, Except.ok.injEq] at h
      simp only [Linker.loadText, hparse, h]

/-- A file that cannot be read or parsed makes for one report, and the linker does not learn of
it. -/
theorem load_of_error (hquiet : p.linker.reports = []) {path root : Path} {name : Text}
    {r : Report} (h : Attempt.outcome ⟨t, path, name, root⟩ = .error r) :
    p.load t path name root = ((p.fail name).publish [r], false) := by
  unfold Attempt.outcome at h
  unfold load
  cases htext : t.readText path path.text with
  | error e =>
    simp only [htext, Except.error.injEq] at h
    simp only [h]
  | ok text =>
    cases hparse : SchemaFile.parse name text with
    | ok f => simp [htext, hparse, Except.mapError] at h
    | error fault =>
      simp only [htext, hparse, Except.mapError, Except.error.injEq] at h
      have hkept : ({ p.linker with reports := [] } : Linker) = p.linker := by
        rw [← hquiet]
      simp only [Linker.loadText, hparse, h, withLinker, Linker.note, hquiet, List.nil_append,
        hkept]
      rfl

/-- The effect of events on a pool whose linker is `l` without its notes: the files that could be
loaded are declared to the linker, the others are remembered as failed, and everything is
reported. -/
structure Effect (l : Linker) (events : List LoadEvent) (p p' : Pool) : Prop where
  linker : p'.linker = (events.foldl LoadEvent.declared l).quiet
  coherent : (events.foldl LoadEvent.declared l).Coherent
  names : (events.foldl LoadEvent.declared l).files.map (·.name) =
    l.files.map (·.name) ++ (events.filterMap LoadEvent.loaded?).map fun f => f.1.name
  roots : p'.roots = p.roots ++ (events.filterMap LoadEvent.loaded?).map fun f => (f.1.name, f.2)
  failed : p'.failed = p.failed ++ events.filterMap LoadEvent.failed?
  reports : p'.reports = p.reports ++ reportsOf l events
  kept : Loads p p'

theorem Effect.cons {l : Linker} {e : LoadEvent} (h : Effect l [e] p p')
    (h' : Effect (e.declared l) events p' p'') : Effect l (e :: events) p p'' := by
  obtain ⟨hlinker, -, hnames, hroots, hfailed, hreports, hkept⟩ := h
  obtain ⟨hlinker', hcoherent', hnames', hroots', hfailed', hreports', hkept'⟩ := h'
  have hcons {α : Type} (f : LoadEvent → Option α) :
      (e :: events).filterMap f = [e].filterMap f ++ events.filterMap f :=
    List.filterMap_append (l := [e])
  rw [List.foldl_cons, List.foldl_nil] at hnames
  refine ⟨hlinker', hcoherent', ?_, ?_, ?_, ?_, hkept.trans hkept'⟩
  · rw [List.foldl_cons, hnames', hnames, hcons, List.map_append, List.append_assoc]
  · rw [hroots', hroots, hcons, List.map_append, List.append_assoc]
  · rw [hfailed', hfailed, hcons, List.append_assoc]
  · rw [hreports', hreports, reportsOf, reportsOf, reportsOf, List.append_nil, List.append_assoc]

/-- A file that cannot be read or parsed is remembered as failed, and reported. -/
theorem effect_failed {l : Linker} {a : Attempt} (hl : l.Coherent) (hp : p.linker = l.quiet)
    (hnew : p.linker.file? a.name = none) {r : Report} (h : a.outcome = .error r) :
    Effect l [.file a] p (p.after (.file a)) := by
  obtain ⟨t, path, name, root⟩ := a
  have hkept : Loads p (p.load t path name root).1 := loads_load path root hnew
  have hload := load_of_error (p := p) (by rw [hp]; rfl) h
  simp only [after]
  rw [hload] at hkept ⊢
  refine ⟨?_, ?_, ?_, ?_, ?_, ?_, hkept⟩ <;>
    simp [LoadEvent.declared, LoadEvent.loaded?, LoadEvent.failed?, reportsOf, LoadEvent.reported, h,
      Except.toOption, publish, fail, hp, hl]

/-- A file that can be read and parsed is declared, and nothing is reported but what the linker
notes. -/
theorem effect_loaded {l : Linker} {a : Attempt} (hl : l.Coherent) (hp : p.linker = l.quiet)
    (hnew : p.linker.file? a.name = none) {f : SchemaFile} (h : a.outcome = .ok f) :
    Effect l [.file a] p (p.after (.file a)) := by
  obtain ⟨t, path, name, root⟩ := a
  have hkept : Loads p (p.load t path name root).1 := loads_load path root hnew
  have hname : f.scope.name = name := SchemaFile.name_eq_of_outcome h
  have hfree : l.file? f.scope.name = none := by
    rw [hp] at hnew
    exact hname ▸ hnew
  have hfiles : (l.declare f).files = l.files ++ [f.scope] := by
    rw [Linker.files_declare, Linker.addFile_of_new hfree]
  have hquiet : (l.quiet.declare f).quiet = (l.declare f).quiet := by
    rw [Linker.declare_eq_behind l, Linker.quiet_behind]
  have hroot : f.name = name := hname
  simp only [after]
  rw [load_of_ok (p := p) h] at hkept ⊢
  refine ⟨?_, ?_, ?_, ?_, ?_, ?_, hkept⟩
  · simp only [List.foldl_cons, List.foldl_nil, LoadEvent.declared, LoadEvent.loaded?, h,
      Except.toOption, Option.map_some, ← hquiet, withLinker, publish, hp]
    rfl
  all_goals
    simp [LoadEvent.declared, LoadEvent.loaded?, LoadEvent.failed?, reportsOf, LoadEvent.reported, h,
      Except.toOption, publish, withLinker, hp, hl.declare hfree, hroot, hfiles, SchemaFile.scope]

/-- Something that is only reported. -/
theorem effect_publish {l : Linker} {e : LoadEvent} (hl : l.Coherent) (hp : p.linker = l.quiet)
    (hloaded : e.loaded? = none) (hfailed : e.failed? = none) {r : Report}
    (hreported : e.reported l = [r]) : Effect l [e] p (p.publish [r]) := by
  refine ⟨?_, ?_, ?_, ?_, ?_, ?_, loads_publish p [r]⟩ <;>
    simp [LoadEvent.declared, hloaded, hfailed, reportsOf, hreported, publish, hp, hl]

/-- What one event does. -/
theorem Fits.effect {l : Linker} {e : LoadEvent} (h : p.Fits e) (hl : l.Coherent)
    (hp : p.linker = l.quiet) : Effect l [e] p (p.after e) := by
  cases e with
  | file a =>
    cases houtcome : a.outcome with
    | error r => exact effect_failed hl hp h.1 houtcome
    | ok f => exact effect_loaded hl hp h.1 houtcome
  | noImport t importer i => exact effect_publish hl hp rfl rfl rfl
  | noDirectory t root => exact effect_publish hl hp rfl rfl rfl

/-- What any number of events do. -/
theorem Loading.effect {l : Linker} (h : Loading p events p') (hl : l.Coherent)
    (hp : p.linker = l.quiet) : Effect l events p p' := by
  induction h generalizing l with
  | none p => exact ⟨hp, hl, by simp, by simp, by simp, by simp [reportsOf], .refl p⟩
  | next hfits _ ih =>
    have hfirst := hfits.effect hl hp
    exact hfirst.cons (ih hfirst.coherent hfirst.linker)

theorem foldl_declared (l : Linker) (events : List LoadEvent) :
    events.foldl LoadEvent.declared l = (loadedFiles events).foldl Linker.declare l := by
  induction events generalizing l with
  | nil => rfl
  | cons e events ih =>
    rw [List.foldl_cons, ih]
    cases h : e.loaded? with
    | none => simp [LoadEvent.declared, loadedFiles, h]
    | some f => simp [LoadEvent.declared, loadedFiles, h]

/-! ## Everything that loads is events -/

/-- A run that does nothing but load files, whatever comes of it. -/
def LoadsByEvents (m : Run α) : Prop := ∀ t p, ∃ events, Loading p events (m.on t p).2

theorem LoadsByEvents.bind {m : Run α} {f : α → Run β} (hm : LoadsByEvents m)
    (hf : ∀ a, LoadsByEvents (f a)) : LoadsByEvents (m >>= f) := by
  intro t p
  obtain ⟨events, h⟩ := hm t p
  rw [on_bind]
  rcases heq : m.on t p with ⟨_ | a, p'⟩ <;> rw [heq] at h
  · exact ⟨events, h⟩
  · obtain ⟨events', h'⟩ := hf a t p'
    exact ⟨events ++ events', h.trans h'⟩

theorem loadsByEvents_pure (a : α) : LoadsByEvents (pure a : Run α) :=
  fun _ p => ⟨[], .none p⟩

theorem LoadsByEvents.map {m : Run α} (hm : LoadsByEvents m) (f : α → β) :
    LoadsByEvents (f <$> m) := by
  intro t p
  rw [on_map]
  exact hm t p

/-- A path that is to be loaded makes for at most one event, and only if its name is new. -/
theorem loadsByEvents_loadFile (path : Path) : LoadsByEvents (loadFile path) := by
  intro t p
  rw [on_loadFile]
  split_ifs with hclosed hfinalized hzero
  · exact ⟨[], .none p⟩
  · exact ⟨[], .none p⟩
  · exact ⟨[], .none p⟩
  · simp only
    split
    · exact ⟨[], .none p⟩
    · next hnew =>
      refine ⟨[.file ⟨t, path, (p.importName path).1, (p.importName path).2⟩], .single ?_⟩
      exact ⟨by simpa using hnew, .inl rfl⟩

theorem loadsByEvents_lookUp (path : Path) : LoadsByEvents (lookUp path) := by
  intro t p
  unfold lookUp
  rw [on_bind, on_read]
  simp only
  split <;> exact ⟨[], .none p⟩

theorem loadsByEvents_loadFiles (paths : List Path) : LoadsByEvents (loadFiles paths) := by
  induction paths with
  | nil => exact loadsByEvents_pure 0
  | cons path paths ih =>
    refine .bind ?_ fun _ => .bind (loadsByEvents_loadFile path) fun _ => .bind ih fun _ =>
      loadsByEvents_pure _
    exact .bind (loadsByEvents_lookUp path) fun _ => loadsByEvents_pure _

theorem loadsByEvents_loadDirectory (root : Path) : LoadsByEvents (loadDirectory root) := by
  intro t p
  unfold loadDirectory lookUp
  simp only [on_bind, on_read]
  rcases hfound : t.lookUp root with e | found
  · exact ⟨[], .none p⟩
  · simp only [on_pure]
    split
    · exact loadsByEvents_loadFiles _ t p
    · next hother =>
      refine ⟨[.noDirectory t root], .single ?_⟩
      rintro hdirectory
      exact hother (Except.ok.inj (hfound.symm.trans hdirectory))

theorem loadsByEvents_loadDirectories : LoadsByEvents loadDirectories := by
  have heach (roots : List Path) : LoadsByEvents (loadEachDirectory roots) := by
    induction roots with
    | nil => exact loadsByEvents_pure 0
    | cons root roots ih =>
      exact .bind (loadsByEvents_loadDirectory root) fun _ => .bind ih fun _ =>
        loadsByEvents_pure _
  exact .bind (fun _ p => ⟨[], .none p⟩) fun p => heach p.directories

/-! ### Imports -/

section

variable {path root : Path} {name : Text} {importer : FileScope} {i j : ImportDecl}
  {attempted : List Text}

theorem mem_files_load (hnew : p.linker.file? name = none) (h : importer ∈ p.linker.files) :
    importer ∈ (p.load t path name root).1.linker.files := by
  unfold load
  split
  · exact h
  · next text _ =>
    unfold Linker.loadText
    cases hparse : SchemaFile.parse name text with
    | error fault => exact h
    | ok f =>
      have hname := SchemaFile.name_of_parse hparse
      simp only [withLinker, publish, Linker.files_declare,
        Linker.addFile_of_new (hname ▸ hnew : p.linker.file? f.scope.name = none)]
      exact List.mem_append_left _ h

theorem mem_failed_load {n : Text} (h : n ∈ (p.load t path name root).1.failed) :
    n ∈ p.failed ∨ n = name := by
  unfold load at h
  split at h
  · simpa [fail, publish] using h
  · next text _ =>
    unfold Linker.loadText at h
    cases hparse : SchemaFile.parse name text with
    | error fault =>
      rw [hparse] at h
      simpa [fail, withLinker, publish] using h
    | ok f =>
      rw [hparse] at h
      exact .inl h

/-- An import stays wanted while files of other names are loaded. -/
theorem Wanted.load (h : p.Wanted importer i) (hnew : p.linker.file? name = none)
    (hne : i.path ≠ name) : (p.load t path name root).1.Wanted importer i :=
  ⟨mem_files_load hnew h.known, h.imported, file?_load path root hne h.new,
    fun hmem => (mem_failed_load hmem).elim h.untried hne⟩

theorem Wanted.loadImport (h : p.Wanted importer i) {importer' : FileScope}
    (hj : p.Wanted importer' j) (hne : i.path ≠ j.path) (found : Option (Path × Path)) :
    (p.loadImport t importer' j found).Wanted importer i := by
  unfold Pool.loadImport
  split
  · exact ⟨h.known, h.imported, h.new, h.untried⟩
  · exact h.load hj.new hne

/-- An import that is wanted makes for one event. -/
theorem Wanted.exists_loading (h : p.Wanted importer i) {found : Option (Path × Path)}
    (hfound : p.findImport t i.path importer.name = .ok found) :
    ∃ e, Loading p [e] (p.loadImport t importer i found) := by
  cases found with
  | none => exact ⟨.noImport t importer i, .single ⟨h, hfound⟩⟩
  | some place =>
    obtain ⟨path, root⟩ := place
    exact ⟨.file ⟨t, path, i.path, root⟩, .single ⟨h.new, .inr ⟨importer, i, h, rfl, hfound⟩⟩⟩

/-- A round of imports tries each name that is wanted once. -/
theorem loading_loadEach {imports : List (FileScope × ImportDecl)}
    (hwanted : ∀ x ∈ imports, x.2.path ∉ attempted → p.Wanted x.1 x.2) :
    ∃ events, Loading p events (p.loadEach t attempted imports).1 := by
  induction imports generalizing p attempted with
  | nil => exact ⟨[], .none p⟩
  | cons x rest ih =>
    obtain ⟨importer, i⟩ := x
    unfold loadEach
    split
    · exact ih fun j hj => hwanted j (by simp [hj])
    · next hi =>
      cases hfound : p.findImport t i.path importer.name with
      | error e => exact ⟨[], .none p⟩
      | ok found =>
        have hfirst := hwanted (importer, i) (by simp) hi
        obtain ⟨e, he⟩ := hfirst.exists_loading hfound
        have hrest : ∀ x ∈ rest, x.2.path ∉ attempted ++ [i.path] →
            (p.loadImport t importer i found).Wanted x.1 x.2 := by
          intro x hx htried
          simp only [List.mem_append, List.mem_singleton, not_or] at htried
          exact (hwanted x (by simp [hx]) htried.1).loadImport hfirst htried.2 found
        obtain ⟨events, hevents⟩ := ih hrest
        exact ⟨[e] ++ events, he.trans hevents⟩

theorem wanted_of_missingImports {x : FileScope × ImportDecl}
    (hx : x ∈ p.missingImports attempted) : p.Wanted x.1 x.2 := by
  obtain ⟨hknown, himported, hmissing⟩ := mem_missingImports.mp hx
  simp only [isMissing, Bool.decide_and, Bool.and_eq_true, decide_eq_true_eq] at hmissing
  exact ⟨hknown, himported, by simpa using hmissing.1, hmissing.2.1⟩

theorem loading_loadMissing {known : List Text}
    (h : ∀ n ∈ p.linker.importPaths, n ∈ known ++ t.importPaths) :
    ∃ events, Loading p events (p.loadMissing t known attempted h).1 := by
  fun_induction Pool.loadMissing t known p attempted h with
  | case1 p attempted h hnone => exact ⟨[], .none p⟩
  | case2 p attempted h x rest hm e ht =>
    exact loading_loadEach fun y hy _ => wanted_of_missingImports (hm ▸ hy)
  | case3 p attempted h x rest hm tried ht hless ih =>
    obtain ⟨events, hevents⟩ := @loading_loadEach t p attempted (x :: rest)
      fun y hy _ => wanted_of_missingImports (hm ▸ hy)
    obtain ⟨events', hevents'⟩ := ih
    exact ⟨events ++ events', hevents.trans hevents'⟩

theorem loading_loadImports (t : FileTree) (p : Pool) :
    ∃ events, Loading p events (p.loadImports t).1 :=
  loading_loadMissing _

end

/-! ## Generations -/

/-- A request that loads files. -/
def Request.Loads : Request → Prop
  | .loadFile _ | .loadDirectories => True
  | _ => False

theorem serveAll_cons (t : FileTree) (r : Request) (requests : List (FileTree × Request))
    (p : Pool) :
    (serveAll ((t, r) :: requests) p).2 = (serveAll requests (r.serve.on t p).2).2 := rfl

theorem loading_serveAll {requests : List (FileTree × Request)}
    (h : ∀ r ∈ requests, r.2.Loads) : ∃ events, Loading p events (serveAll requests p).2 := by
  induction requests generalizing p with
  | nil => exact ⟨[], .none p⟩
  | cons r requests ih =>
    obtain ⟨t, r⟩ := r
    have hfirst : ∃ events, Loading p events (r.serve.on t p).2 := by
      have hr : r.Loads := h (t, r) (by simp)
      cases r with
      | loadFile path => exact (loadsByEvents_loadFile path).map _ t p
      | loadDirectories => exact loadsByEvents_loadDirectories.map _ t p
      | _ => exact absurd hr (by simp [Request.Loads])
    obtain ⟨events, hevents⟩ := hfirst
    obtain ⟨events', hevents'⟩ := @ih (r.serve.on t p).2 fun r hr => h r (by simp [hr])
    exact ⟨events ++ events', hevents.trans hevents'⟩

/-- A pool that is open, and into which nothing has been loaded. -/
structure Blank (p : Pool) : Prop where
  isOpen : ¬ p.isClosed
  linker : p.linker = .empty
  linked : p.linked = none
  roots : p.roots = []
  failed : p.failed = []
  reports : p.reports = []

/-- A pool at the start of a generation: it is new or has just been rebuilt, and has loaded the files
of its directories. -/
inductive Begun : Pool → Prop
  | created (t : FileTree) (id : Nat) (directories : List Path) (subscriber : Option String) :
    Begun (create t id directories subscriber).2
  | rebuilt (t : FileTree) {p : Pool} (hopen : ¬ p.isClosed) (directories : Option (List Path))
    (subscriber : Option String) : Begun (( reinitialize directories subscriber).on t p).2

/-- A generation starts from nothing. -/
theorem Begun.exists_blank (h : p.Begun) : ∃ q events, Blank q ∧ Loading q events p := by
  have hload (t : FileTree) (q : Pool) :
      ∃ events, Loading q events ((discard loadDirectories : Run Unit).on t q).2 :=
    loadsByEvents_loadDirectories.map _ t q
  cases h with
  | created t id directories subscriber =>
    obtain ⟨events, hevents⟩ := hload t (fresh id directories subscriber)
    exact ⟨_, events, ⟨by simp [fresh], rfl, rfl, rfl, rfl, rfl⟩, hevents⟩
  | rebuilt t hopen directories subscriber =>
    rw [on_rebuild, if_neg hopen]
    obtain ⟨events, hevents⟩ := hload t _
    refine ⟨_, events, ?_, hevents⟩
    exact ⟨hopen, rfl, rfl, rfl, rfl, rfl⟩

/-- What the first linking of a pool shows of the events since the start of its generation: its tables
are those of a linker that knows the loaded files alone, each under the name that it was loaded
under; the loaded and the failed files are as the events say; and nothing has been reported but what
the events and the linking report. -/
structure Replays (events : List LoadEvent) (p : Pool) (ts : Tables) : Prop where
  tables : (Linker.ofFiles (loadedFiles events)).link.2 = .ok ts
  distinct : ((loadedFiles events).map (·.name)).Nodup
  roots : p.roots = (events.filterMap LoadEvent.loaded?).map fun f => (f.1.name, f.2)
  failed : p.failed = events.filterMap LoadEvent.failed?
  reports : p.reports = reportsOf .empty events ++
    (Linker.ofFiles (loadedFiles events)).quiet.link.1.reports

/-- A pool is linked to what the events since its generation began have left. -/
theorem Effect.replays {q q' : Pool} (h : Effect .empty events q q') (hq : q.Blank) {l : Linker}
    {ts : Tables} (hlink : q'.linker.link = (l, .ok ts)) :
    Replays events { q'.withLinker l with linked := some ts } ts := by
  obtain ⟨hlinker, hcoherent, hnames, hroots, hfailed, hreports, -⟩ := h
  have hfold : events.foldl LoadEvent.declared .empty = Linker.ofFiles (loadedFiles events) :=
    foldl_declared .empty events
  rw [hfold] at hlinker hcoherent hnames
  rw [hlinker] at hlink
  rw [hq.roots, List.nil_append] at hroots
  rw [hq.failed, List.nil_append] at hfailed
  rw [hq.reports, List.nil_append] at hreports
  have htables : (Linker.ofFiles (loadedFiles events)).link.2 = .ok ts := by
    rw [← hcoherent.link_quiet, hlink]
  have hnodup : ((loadedFiles events).map (·.name)).Nodup := by
    have hfiles := hcoherent.unlinked.files
    rw [hnames] at hfiles
    rw [loadedFiles, List.map_map]
    exact hfiles
  have hall : (q'.withLinker l).reports = reportsOf .empty events ++
      (Linker.ofFiles (loadedFiles events)).quiet.link.1.reports := by
    rw [hlink, ← hreports]
    rfl
  exact ⟨htables, hnodup, hroots, hfailed, hall⟩

/-- Whatever files are loaded into a pool, and whatever comes of it: when it is linked, its tables are
those of a linker to which just the files were declared that could be loaded, imports included, in the
order in which they were loaded. A file that cannot be read or parsed makes for one report each time
that it is tried, and for nothing in the tables. -/
theorem tables_like_ofFiles (h : p.Begun) {requests : List (FileTree × Request)}
    (hrequests : ∀ r ∈ requests, r.2.Loads) {ts : Tables}
    (hlinks : tables.on t (serveAll requests p).2 = (.ok ts, p')) :
    let served := (serveAll requests p).2
    ∃ q atStart called imported, Blank q ∧ Loading q atStart p ∧ Loading p called served ∧
      Loading served imported (served.loadImports t).1 ∧
        Replays (atStart ++ called ++ imported) p' ts := by
  intro served
  obtain ⟨q, atStart, hblank, hbegun⟩ := h.exists_blank
  obtain ⟨called, hserved⟩ := @loading_serveAll p requests hrequests
  obtain ⟨imported, himported⟩ := loading_loadImports t served
  refine ⟨q, atStart, called, imported, hblank, hbegun, hserved, himported, ?_⟩
  have hloading := hbegun.trans hserved
  have heffect := (hloading.trans himported).effect Linker.coherent_empty hblank.linker
  -- until it is linked, the pool stays open
  have hkept := (hloading.effect Linker.coherent_empty hblank.linker).kept
  have hopen : ¬ served.isClosed := hkept.isClosed ▸ hblank.isOpen
  rw [on_tables_of_unlinked hopen (hkept.linked.trans hblank.linked)] at hlinks
  rcases hloaded : served.loadImports t with ⟨q', e | u⟩
  · simp [served, hloaded] at hlinks
  · rcases hlink : q'.linker.link with ⟨l, e | ts'⟩
    · simp [served, hloaded, hlink] at hlinks
    · simp only [served, hloaded, hlink, Prod.mk.injEq, Except.ok.injEq] at hlinks
      obtain ⟨rfl, rfl⟩ := hlinks
      rw [hloaded] at heffect
      exact heffect.replays hblank hlink

end Pool

/-! ## A sample pool -/

namespace Sample

/-- The path of a schema file. -/
def pathA : Path := .ofText (Text.ofString "a.proto")

/-- The path of a file that cannot be read. -/
def pathB : Path := .ofText (Text.ofString "b.proto")

/-- A file tree with both files. -/
def tree : FileTree :=
  ⟨[([Text.ofString "a.proto"], .file [0x3B]), ([Text.ofString "b.proto"], .file [0xFF])]⟩

/-- Both files are asked for. -/
def loadBoth : List (FileTree × Pool.Request) :=
  [(tree, .loadFile pathA), (tree, .loadFile pathB)]

/-- A new pool without directories. -/
def newPool : Pool := Pool.fresh 1 [] none

/-- What the schema file holds, under the name it is loaded under. -/
def emptyFile : SchemaFile := ⟨(newPool.importName pathA).1, .proto2, none, [], [], [], [], [], []⟩

/-- The pool behind the first request. -/
def halfLoaded : Pool :=
  { newPool with
    linker := (Linker.empty.declare emptyFile).quiet
    roots := [newPool.importName pathA] }

end Sample

namespace Pool

theorem begun_newPool : Sample.newPool.Begun := .created Sample.tree 1 [] none

theorem outcome_pathA (root : Path) :
    Attempt.outcome ⟨Sample.tree, Sample.pathA, (Sample.newPool.importName Sample.pathA).1, root⟩ =
      .ok Sample.emptyFile := by
  have htext : Sample.tree.readText Sample.pathA Sample.pathA.text = .ok [';'] := by
    have hread : (Sample.tree.readText Sample.pathA Sample.pathA.text).toOption = some [';'] := by
      decide +kernel
    cases h : Sample.tree.readText Sample.pathA Sample.pathA.text with
    | error e => simp [h, Except.toOption] at hread
    | ok text => simpa [h, Except.toOption] using hread
  simp only [Attempt.outcome, htext, SchemaFile.parse_semicolon]
  rfl

theorem outcome_pathB (name : Text) (root : Path) :
    ∃ r, Attempt.outcome ⟨Sample.tree, Sample.pathB, name, root⟩ = .error r := by
  have hread : (Sample.tree.readText Sample.pathB Sample.pathB.text).toOption = none := by
    decide +kernel
  cases h : Sample.tree.readText Sample.pathB Sample.pathB.text with
  | error e =>
    refine ⟨⟨.load (.unreadable e), Sample.pathB.text, none⟩, ?_⟩
    simp only [Attempt.outcome, h]
  | ok text => simp [h, Except.toOption] at hread

/-- A path that can be asked for is loaded under its name, if that is new. -/
theorem on_loadFile_of_new {path : Path} (hopen : ¬ p.isClosed) (hlinked : p.linked = none)
    (hzero : ¬ Path.hasZero path.text) (hnew : p.linker.file? (p.importName path).1 = none) :
    ((loadFile path).on t p).2 =
      (p.load t path (p.importName path).1 (p.importName path).2).1 := by
  have hopen' : ¬ p.isFinalized := by simp [isFinalized, hlinked]
  rw [on_loadFile, if_neg hopen, if_neg hopen', if_neg hzero]
  simp only
  rw [hnew]
  rfl

theorem on_loadFile_pathA :
    ((loadFile Sample.pathA).on Sample.tree Sample.newPool).2 = Sample.halfLoaded := by
  have hnotes : (Linker.empty.declare Sample.emptyFile).reports = [] := by decide +kernel
  have hzero : ¬ Path.hasZero Sample.pathA.text := by decide +kernel
  rw [on_loadFile_of_new Bool.false_ne_true rfl hzero rfl, load_of_ok (outcome_pathA _)]
  have hlinker : Sample.newPool.linker = .empty := rfl
  simp only [withLinker, publish, hlinker, hnotes]
  rfl

theorem exists_on_loadFile_pathB : ∃ r,
    ((loadFile Sample.pathB).on Sample.tree Sample.halfLoaded).2 =
      (Sample.halfLoaded.fail (Sample.halfLoaded.importName Sample.pathB).1).publish [r] := by
  have hzero : ¬ Path.hasZero Sample.pathB.text := by decide +kernel
  have hnone : (Sample.halfLoaded.linker.file?
      (Sample.halfLoaded.importName Sample.pathB).1).isNone := by
    decide +kernel
  have hnew := Option.isNone_iff_eq_none.mp hnone
  obtain ⟨r, hr⟩ := outcome_pathB (Sample.halfLoaded.importName Sample.pathB).1
    (Sample.halfLoaded.importName Sample.pathB).2
  have hquiet : Sample.halfLoaded.linker.reports = [] := rfl
  refine ⟨r, ?_⟩
  rw [on_loadFile_of_new Bool.false_ne_true rfl hzero hnew, load_of_error hquiet hr]

/-- The pool behind both requests: the second file has failed. -/
theorem exists_loadBoth : ∃ r, (serveAll Sample.loadBoth Sample.newPool).2 =
    (Sample.halfLoaded.fail (Sample.halfLoaded.importName Sample.pathB).1).publish [r] := by
  obtain ⟨r, hr⟩ := exists_on_loadFile_pathB
  have hserve (path : Path) (p : Pool) : ((Request.loadFile path).serve.on Sample.tree p).2 =
      ((loadFile path).on Sample.tree p).2 := by
    rw [Request.serve, on_map]
  refine ⟨r, ?_⟩
  rw [Sample.loadBoth, serveAll_cons, hserve, on_loadFile_pathA, serveAll_cons, hserve, hr]
  rfl

/-- The pool with one file of two is linked to the tables of a linker that knows this file. -/
theorem tables_like_ofFiles_loadBoth : ∃ ts p',
    tables.on Sample.tree (serveAll Sample.loadBoth Sample.newPool).2 = (.ok ts, p') ∧
      ∃ events, Replays events p' ts := by
  obtain ⟨r, hserved⟩ := exists_loadBoth
  have hlinks : ∃ ts p', tables.on Sample.tree (serveAll Sample.loadBoth Sample.newPool).2 =
      (.ok ts, p') := by
    rw [hserved, on_tables_of_unlinked Bool.false_ne_true rfl, loadImports, loadMissing_of_nil _ rfl]
    have hlink : ((Linker.empty.declare Sample.emptyFile).quiet.link).2.toOption.isSome := by
      decide +kernel
    rcases heq : (Linker.empty.declare Sample.emptyFile).quiet.link with ⟨l, e | ts⟩
    · simp [heq, Except.toOption] at hlink
    · exact ⟨_, _, rfl⟩
  obtain ⟨ts, p', hts⟩ := hlinks
  obtain ⟨_, _, _, _, -, -, -, -, hreplays⟩ := tables_like_ofFiles begun_newPool
    (by simp [Sample.loadBoth, Request.Loads]) hts
  exact ⟨ts, p', hts, _, hreplays⟩

end Pool

end ProtoSchema
