import ProtoSchema.Pool.Lifecycle
import ProtoSchema.Proofs.Tables.Integrity

/-!
# The life of a pool

While files are loaded into a pool, its linker stays fit for linking, because no file is loaded
under a name that is taken (`Loads`). So the tables that a pool is linked to keep no place outside
their arenas (`Sound`). From then on they stay as they are until the pool is rebuilt or closed, which
gives it another generation (`Later`).
-/

namespace ProtoSchema

/-! ## Loading files -/

theorem SchemaFile.name_of_parse {name : Text} {text : List Char} {f : SchemaFile}
    (h : SchemaFile.parse name text = .ok f) : f.scope.name = name := by
  unfold SchemaFile.parse at h
  cases hd : derive text with
  | error e => simp [hd, bind, Except.bind] at h
  | ok tree =>
    cases hv : tree.value with
    | error e => simp [hd, hv, bind, Except.bind] at h
    | ok file =>
      simp only [hd, hv, bind, Except.bind] at h
      split at h
      · cases h
      · cases h
        rfl

namespace Linker

variable {l : Linker}

/-- A text that is declared under a new name leaves the linker coherent. -/
theorem Coherent.loadText (hl : l.Coherent) {name : Text} (hnew : l.file? name = none)
    (text : List Char) : (l.loadText name text).1.Coherent := by
  unfold Linker.loadText
  cases hparse : SchemaFile.parse name text with
  | error fault => exact hl.withReports _
  | ok f => exact hl.declare (SchemaFile.name_of_parse hparse ▸ hnew)

/-- A file that is added brings in no name but its own. -/
theorem mem_names_addFile {file : FileScope} {n : Text}
    (h : n ∈ (l.addFile file).files.map (·.name)) : n = file.name ∨ n ∈ l.files.map (·.name) := by
  unfold addFile at h
  split at h
  · obtain ⟨f, hf, rfl⟩ := List.mem_map.mp h
    obtain ⟨g, hg, rfl⟩ := List.mem_map.mp hf
    by_cases hname : g.name = file.name
    · simp [hname]
    · exact .inr (by simpa [hname] using ⟨g, hg, rfl⟩)
  · simp only [List.map_append, List.map_singleton, List.mem_append, List.mem_singleton] at h
    exact h.symm

/-- A text that is declared takes no name but its own. -/
theorem file?_loadText {name n : Text} (hne : n ≠ name) (hnone : l.file? n = none)
    (text : List Char) : (l.loadText name text).1.file? n = none := by
  unfold Linker.loadText
  cases hparse : SchemaFile.parse name text with
  | error fault => exact hnone
  | ok f =>
    rw [file?_eq_none] at hnone ⊢
    rw [files_declare]
    intro hmem
    rcases mem_names_addFile hmem with rfl | hold
    · exact hne (SchemaFile.name_of_parse hparse)
    · exact hnone hold

end Linker

namespace Pool

variable {α β : Type} {t : FileTree} {p p' p'' : Pool} {name : Text}

/-- From `p` to `p'` files have been loaded, and that is all. -/
structure Loads (p p' : Pool) : Prop where
  id : p'.id = p.id
  generation : p'.generation = p.generation
  isClosed : p'.isClosed = p.isClosed
  linked : p'.linked = p.linked
  coherent : p.linker.Coherent → p'.linker.Coherent

theorem Loads.refl (p : Pool) : Loads p p := ⟨rfl, rfl, rfl, rfl, fun h => h⟩

theorem Loads.trans (h : Loads p p') (h' : Loads p' p'') : Loads p p'' :=
  ⟨h'.id.trans h.id, h'.generation.trans h.generation, h'.isClosed.trans h.isClosed,
    h'.linked.trans h.linked, fun hl => h'.coherent (h.coherent hl)⟩

theorem loads_publish (p : Pool) (reports : List Report) : Loads p (p.publish reports) :=
  ⟨rfl, rfl, rfl, rfl, fun h => h⟩

/-- A file that is loaded under a new name does no harm. -/
theorem loads_load (path root : Path) (hnew : p.linker.file? name = none) :
    Loads p (p.load t path name root).1 := by
  unfold load
  split
  · exact ⟨rfl, rfl, rfl, rfl, fun h => h⟩
  · next text _ =>
    have hcoherent := fun hl : p.linker.Coherent => hl.loadText hnew text
    rcases hload : p.linker.loadText name text with ⟨l, _ | _⟩ <;> rw [hload] at hcoherent
    · exact ⟨rfl, rfl, rfl, rfl, fun hl => (hcoherent hl).withReports []⟩
    · exact ⟨rfl, rfl, rfl, rfl, fun hl => (hcoherent hl).withReports []⟩

theorem file?_load {n : Text} (path root : Path) (hne : n ≠ name)
    (hnone : p.linker.file? n = none) :
    (p.load t path name root).1.linker.file? n = none := by
  unfold load
  split
  · exact hnone
  · next text _ =>
    have hkept := Linker.file?_loadText hne hnone text
    rcases hload : p.linker.loadText name text with ⟨l, _ | _⟩ <;> rw [hload] at hkept <;>
      exact hkept

theorem loads_loadImport (importer : FileScope) {i : ImportDecl}
    (hnew : p.linker.file? i.path = none) (found : Option (Path × Path)) :
    Loads p (p.loadImport t importer i found) := by
  unfold loadImport
  split
  · exact loads_publish p _
  · exact loads_load _ _ hnew

theorem file?_loadImport {n : Text} (importer : FileScope) {i : ImportDecl} (hne : n ≠ i.path)
    (hnone : p.linker.file? n = none) (found : Option (Path × Path)) :
    (p.loadImport t importer i found).linker.file? n = none := by
  unfold loadImport
  split
  · exact hnone
  · exact file?_load _ _ hne hnone

/-- A round of imports loads files under new names only: each name is tried once. -/
theorem loads_loadEach {attempted : List Text} {imports : List (FileScope × ImportDecl)}
    (hnew : ∀ i ∈ imports, i.2.path ∉ attempted → p.linker.file? i.2.path = none) :
    Loads p (p.loadEach t attempted imports).1 := by
  induction imports generalizing p attempted with
  | nil => exact .refl p
  | cons i rest ih =>
    obtain ⟨importer, i⟩ := i
    unfold loadEach
    split
    · exact ih fun j hj => hnew j (by simp [hj])
    · next hi =>
      split
      · exact .refl p
      · next found _ =>
        have hfirst := hnew (importer, i) (by simp) hi
        refine (loads_loadImport importer hfirst found).trans (ih fun j hj htried => ?_)
        simp only [List.mem_append, List.mem_singleton, not_or] at htried
        exact file?_loadImport importer htried.2 (hnew j (by simp [hj]) htried.1) found

/-- Missing imports are of names that are not taken. -/
theorem file?_of_missingImports {attempted : List Text} {i : FileScope × ImportDecl}
    (hi : i ∈ p.missingImports attempted) : p.linker.file? i.2.path = none := by
  obtain ⟨-, -, hmissing⟩ := mem_missingImports.mp hi
  simp only [isMissing, Bool.decide_and, Bool.and_eq_true, decide_eq_true_eq] at hmissing
  simpa using hmissing.1

theorem loads_loadMissing {known attempted : List Text}
    (h : ∀ n ∈ p.linker.importPaths, n ∈ known ++ t.importPaths) :
    Loads p (p.loadMissing t known attempted h).1 := by
  fun_induction loadMissing t known p attempted h with
  | case1 p attempted h hnone => exact .refl p
  | case2 p attempted h i rest hm e ht =>
    exact loads_loadEach fun j hj _ => file?_of_missingImports (hm ▸ hj)
  | case3 p attempted h i rest hm tried ht hless ih =>
    exact (loads_loadEach fun j hj _ => file?_of_missingImports (hm ▸ hj)).trans ih

theorem loads_loadImports (t : FileTree) (p : Pool) : Loads p (p.loadImports t).1 :=
  loads_loadMissing _

/-! ## Runs -/

@[simp] theorem on_pure (a : α) : (pure a : Run α).on t p = (.ok a, p) := rfl

@[simp] theorem on_throw (e : PoolError) : (throw e : Run α).on t p = (.error e, p) := rfl

@[simp] theorem on_get : (get : Run Pool).on t p = (.ok p, p) := rfl

@[simp] theorem on_set : (set p' : Run PUnit).on t p = (.ok ⟨⟩, p') := rfl

@[simp] theorem on_modify (f : Pool → Pool) :
    (modify f : Run PUnit).on t p = (.ok ⟨⟩, f p) := rfl

@[simp] theorem on_read : (read : Run FileTree).on t p = (.ok t, p) := rfl

@[simp] theorem on_bind (m : Run α) (f : α → Run β) : (m >>= f).on t p =
    match m.on t p with
    | (.ok a, p') => (f a).on t p'
    | (.error e, p') => (.error e, p') := by
  have hrun : (m >>= f).on t p = ((m t >>= fun a => f a t).run).run p := rfl
  rw [hrun, ExceptT.run_bind, StateT.run_bind, Run.on]
  rcases (m t).run.run p with ⟨_ | a, p'⟩ <;> rfl

/-- A run that comes to an end has come to the end of its first part. -/
theorem exists_of_on_bind {m : Run α} {f : α → Run β} {b : β}
    (h : (m >>= f).on t p = (.ok b, p')) :
    ∃ a p₁, m.on t p = (.ok a, p₁) ∧ (f a).on t p₁ = (.ok b, p') := by
  rw [on_bind] at h
  rcases hm : m.on t p with ⟨e | a, p₁⟩ <;> rw [hm] at h
  · cases h
  · exact ⟨a, p₁, rfl, h⟩

@[simp] theorem on_map (f : α → β) (m : Run α) : (f <$> m).on t p =
    ((m.on t p).1.map f, (m.on t p).2) := by
  rw [map_eq_pure_bind, on_bind]
  rcases m.on t p with ⟨_ | a, p'⟩ <;> rfl

theorem on_ite (c : Prop) [Decidable c] (m m' : Run α) :
    (if c then m else m').on t p = if c then m.on t p else m'.on t p := by
  split <;> rfl

/-- Something is done only with a pool that is open. -/
theorem on_requireOpen (m : Run α) : (requireOpen >>= fun _ => m).on t p =
    if p.isClosed then (.error (.closed p.id), p) else m.on t p := by
  by_cases hclosed : p.isClosed <;> simp [requireOpen, hclosed]

/-- A run that does nothing but load files, whatever comes of it. -/
def LoadsOnly (m : Run α) : Prop := ∀ t p, Loads p (m.on t p).2

theorem LoadsOnly.bind {m : Run α} {f : α → Run β} (hm : LoadsOnly m) (hf : ∀ a, LoadsOnly (f a)) :
    LoadsOnly (m >>= f) := by
  intro t p
  have h := hm t p
  rw [on_bind]
  rcases heq : m.on t p with ⟨_ | a, p'⟩ <;> rw [heq] at h
  · exact h
  · exact h.trans (hf a t p')

theorem loadsOnly_pure (a : α) : LoadsOnly (pure a : Run α) := fun _ p => .refl p

/-- What happens to a file that is to be loaded. -/
theorem on_loadFile (path : Path) : (loadFile path).on t p =
    if p.isClosed then (.error (.closed p.id), p)
    else if p.isFinalized then (.error .finalized, p)
    else if Path.hasZero path.text then (.error (.unreachable .zeroCharacter), p)
    else
      let (name, root) := p.importName path
      if (p.linker.file? name).isSome then (.ok true, p)
      else (.ok (p.load t path name root).2, (p.load t path name root).1) := by
  unfold loadFile
  rw [on_requireOpen]
  simp only [on_bind, on_get, on_ite, on_pure, on_throw, on_read, on_set]

theorem loadsOnly_loadFile (path : Path) : LoadsOnly (loadFile path) := by
  intro t p
  rw [on_loadFile]
  split_ifs with hclosed hfinalized hzero
  · exact .refl p
  · exact .refl p
  · exact .refl p
  · simp only
    split
    · exact .refl p
    · next hnew => exact loads_load path _ (by simpa using hnew)

theorem loadsOnly_lookUp (path : Path) : LoadsOnly (lookUp path) := by
  intro t p
  unfold lookUp
  rw [on_bind, on_read]
  simp only
  split <;> exact .refl p

theorem loadsOnly_loadFiles (paths : List Path) : LoadsOnly (loadFiles paths) := by
  induction paths with
  | nil => exact loadsOnly_pure 0
  | cons path paths ih =>
    refine .bind ?_ fun _ => .bind (loadsOnly_loadFile path) fun _ => .bind ih fun _ =>
      loadsOnly_pure _
    exact .bind (loadsOnly_lookUp path) fun _ => loadsOnly_pure _

theorem loadsOnly_loadDirectory (root : Path) : LoadsOnly (loadDirectory root) := by
  refine .bind (loadsOnly_lookUp root) fun found => ?_
  split
  · exact .bind (fun _ p => .refl p) fun t => loadsOnly_loadFiles _
  · exact .bind (fun _ p => loads_publish p _) fun _ => loadsOnly_pure _

theorem loadsOnly_loadDirectories : LoadsOnly loadDirectories := by
  have heach (roots : List Path) : LoadsOnly (loadEachDirectory roots) := by
    induction roots with
    | nil => exact loadsOnly_pure 0
    | cons root roots ih =>
      exact .bind (loadsOnly_loadDirectory root) fun _ => .bind ih fun _ => loadsOnly_pure _
  exact .bind (fun _ p => .refl p) fun p => heach p.directories

/-! ## Linking -/

/-- A pool is sound if it can be linked, or has been linked to tables that keep no place outside
their arenas. -/
structure Sound (p : Pool) : Prop where
  coherent : p.linked = none → p.linker.Coherent
  inBounds : ∀ tables, p.linked = some tables → tables.InBounds

theorem Loads.sound (h : Loads p p') (hp : p.Sound) : p'.Sound := by
  constructor
  · intro hnone
    exact h.coherent (hp.coherent (h.linked ▸ hnone))
  · intro tables htables
    exact hp.inBounds tables (h.linked ▸ htables)

theorem inBounds_empty : Tables.empty.InBounds := by
  constructor <;> simp [Tables.empty]

/-- A pool into which nothing has been loaded is sound. -/
theorem sound_of_empty (hlinker : p.linker = .empty) (hlinked : p.linked = none) : p.Sound :=
  ⟨fun _ => hlinker ▸ Linker.coherent_empty, by simp [hlinked]⟩

theorem on_tables_of_closed (hclosed : p.isClosed) : tables.on t p = (.error (.closed p.id), p) := by
  unfold tables
  rw [on_requireOpen, if_pos hclosed]

theorem on_tables_of_linked (hopen : ¬ p.isClosed) {ts : Tables} (hlinked : p.linked = some ts) :
    tables.on t p = (.ok ts, p) := by
  unfold tables
  rw [on_requireOpen, if_neg hopen]
  simp [hlinked]

/-- The first time, missing imports are loaded and everything is linked. -/
theorem on_tables_of_unlinked (hopen : ¬ p.isClosed) (hlinked : p.linked = none) :
    tables.on t p =
      match p.loadImports t with
      | (p', .error e) => (.error (.unreachable e), p')
      | (p', .ok ()) =>
        match p'.linker.link with
        | (l, .ok ts) => (.ok ts, { p'.withLinker l with linked := some ts })
        | (l, .error e) => (.error (.linking e), p'.withLinker l) := by
  unfold tables
  rw [on_requireOpen, if_neg hopen]
  simp only [on_bind, on_get, hlinked, on_read]
  rcases p.loadImports t with ⟨p', e | u⟩
  · simp
  · rcases hlink : p'.linker.link with ⟨l, e | ts⟩ <;>
      simp [hlink, Except.map]

/-- From `p` to `p'` the pool has not been rebuilt or closed, and its tables have stayed. -/
structure Keeps (p p' : Pool) : Prop where
  id : p'.id = p.id
  generation : p'.generation = p.generation
  isClosed : p'.isClosed = p.isClosed
  linked : ∀ ts, p.linked = some ts → p'.linked = some ts

theorem Keeps.refl (p : Pool) : Keeps p p := ⟨rfl, rfl, rfl, fun _ h => h⟩

theorem Loads.keeps (h : Loads p p') : Keeps p p' :=
  ⟨h.id, h.generation, h.isClosed, fun _ hts => h.linked.trans hts⟩

theorem keeps_tables (t : FileTree) (p : Pool) : Keeps p (tables.on t p).2 := by
  by_cases hclosed : p.isClosed
  · rw [on_tables_of_closed hclosed]
    exact .refl p
  cases hlinked : p.linked with
  | some ts =>
    rw [on_tables_of_linked hclosed hlinked]
    exact .refl p
  | none =>
    have hloads := loads_loadImports t p
    rw [on_tables_of_unlinked hclosed hlinked]
    rcases himports : p.loadImports t with ⟨p', e | u⟩ <;> rw [himports] at hloads
    · exact hloads.keeps
    · -- nothing has been linked before that could be lost
      rcases hlink : p'.linker.link with ⟨l, e | ts⟩ <;> simp only [hlink] <;>
        exact ⟨hloads.id, hloads.generation, hloads.isClosed, by simp [hlinked]⟩

/-- A pool that has answered with its tables is open and linked to them. -/
theorem linked_of_on_tables {ts : Tables} (h : tables.on t p = (.ok ts, p')) :
    ¬ p'.isClosed ∧ p'.linked = some ts := by
  have hkeeps := keeps_tables t p
  rw [h] at hkeeps
  by_cases hclosed : p.isClosed
  · rw [on_tables_of_closed hclosed] at h
    cases h
  refine ⟨hkeeps.isClosed ▸ hclosed, ?_⟩
  cases hlinked : p.linked with
  | some ts' =>
    rw [on_tables_of_linked hclosed hlinked] at h
    cases h
    exact hlinked
  | none =>
    rw [on_tables_of_unlinked hclosed hlinked] at h
    rcases himports : p.loadImports t with ⟨p₁, e | u⟩ <;> rw [himports] at h
    · cases h
    · rcases hlink : p₁.linker.link with ⟨l, e | ts'⟩ <;> simp only [hlink] at h <;> cases h
      rfl

/-- A sound pool stays sound when it is asked for its tables, unless linking fails. -/
theorem Sound.on_tables (hp : p.Sound) (h : ∀ e, (tables.on t p).1 ≠ .error (.linking e)) :
    (tables.on t p).2.Sound := by
  by_cases hclosed : p.isClosed
  · rwa [on_tables_of_closed hclosed]
  cases hlinked : p.linked with
  | some ts => rwa [on_tables_of_linked hclosed hlinked]
  | none =>
    have hloads := loads_loadImports t p
    rw [on_tables_of_unlinked hclosed hlinked] at h ⊢
    rcases himports : p.loadImports t with ⟨p', e | u⟩ <;> rw [himports] at hloads h
    · exact hloads.sound hp
    · have hl := hloads.coherent (hp.coherent hlinked)
      rcases hlink : p'.linker.link with ⟨l, e | ts⟩ <;> simp only [hlink] at h
      · exact absurd rfl (h e)
      · refine ⟨by simp [hlink], fun ts' hts' => ?_⟩
        simp only [hlink, Option.some.injEq] at hts'
        subst hts'
        obtain ⟨rfl, -⟩ := hl.eq_linkedTables hlink
        exact hl.inBounds

/-- An open pool refuses its tables only if an import cannot be asked for or linking fails. -/
theorem refusal_of_on_tables (hopen : ¬ p.isClosed) {e : PoolError}
    (h : (tables.on t p).1 = .error e) :
    (∃ failure, e = .unreachable failure) ∨ ∃ failure, e = .linking failure := by
  cases hlinked : p.linked with
  | some ts =>
    rw [on_tables_of_linked hopen hlinked] at h
    cases h
  | none =>
    rw [on_tables_of_unlinked hopen hlinked] at h
    rcases himports : p.loadImports t with ⟨p₁, e | u⟩ <;> rw [himports] at h
    · cases h
      exact .inl ⟨e, rfl⟩
    · rcases hlink : p₁.linker.link with ⟨l, e | ts'⟩ <;> simp only [hlink] at h <;> cases h
      exact .inr ⟨e, rfl⟩

/-! ## Rebuilding and closing -/

/-- From `p` to `p'` some time has gone by. Each time the pool was rebuilt or closed it has got
another generation. -/
structure Later (p p' : Pool) : Prop where
  id : p'.id = p.id
  generation : p.generation ≤ p'.generation
  closed : p.isClosed → p'.isClosed
  keeps : p'.generation = p.generation → Keeps p p'

theorem Keeps.later (h : Keeps p p') : Later p p' :=
  ⟨h.id, h.generation.ge, fun hclosed => h.isClosed ▸ hclosed, fun _ => h⟩

theorem Keeps.trans (h : Keeps p p') (h' : Keeps p' p'') : Keeps p p'' :=
  ⟨h'.id.trans h.id, h'.generation.trans h.generation, h'.isClosed.trans h.isClosed,
    fun ts hts => h'.linked ts (h.linked ts hts)⟩

theorem Later.refl (p : Pool) : Later p p := (Keeps.refl p).later

theorem Later.trans (h : Later p p') (h' : Later p' p'') : Later p p'' := by
  refine ⟨h'.id.trans h.id, h.generation.trans h'.generation,
    fun hclosed => h'.closed (h.closed hclosed), fun hsame => ?_⟩
  -- generations only grow, so neither part has given the pool another one
  have hle := h.generation
  have hle' := h'.generation
  exact (h.keeps (by omega)).trans (h'.keeps (by omega))

theorem on_rebuild (directories : Option (List Path)) (subscriber : Option String) :
    ( reinitialize directories subscriber).on t p =
      if p.isClosed then (.error (.closed p.id), p)
      else (discard loadDirectories : Run Unit).on t
        { p.cleared with
          subscriber := subscriber <|> p.subscriber
          directories := directories.getD p.directories
          generation := p.generation + 1
          reports := [] } := by
  unfold reinitialize
  rw [on_requireOpen, on_bind, on_modify]

/-- A pool that is rebuilt gets another generation, unless it is closed. -/
theorem rebuild_spec {directories : Option (List Path)} {subscriber : Option String}
    (hopen : ¬ p.isClosed) :
    let p' := (( reinitialize directories subscriber).on t p).2
    p'.id = p.id ∧ p'.generation = p.generation + 1 ∧ ¬ p'.isClosed ∧ p'.Sound := by
  have hloads (q : Pool) : Loads q ((discard loadDirectories : Run Unit).on t q).2 :=
    loadsOnly_loadDirectories.bind (fun _ => loadsOnly_pure _) t q
  rw [on_rebuild, if_neg hopen]
  have h := hloads
    { p.cleared with
      subscriber := subscriber <|> p.subscriber
      directories := directories.getD p.directories
      generation := p.generation + 1
      reports := [] }
  refine ⟨h.id, h.generation, ?_, h.sound (sound_of_empty rfl rfl)⟩
  rw [h.isClosed]
  exact hopen

/-- A pool that is closed gets another generation, once. -/
theorem close_spec (p : Pool) :
    (close p).isClosed ∧ Later p (close p) ∧ (p.Sound → (close p).Sound) := by
  unfold close
  split
  · next hclosed => exact ⟨hclosed, .refl p, fun hp => hp⟩
  · refine ⟨rfl, ⟨rfl, by simp, fun _ => rfl, by simp⟩, fun _ => ?_⟩
    exact ⟨by simp, fun ts hts => by cases hts; exact inBounds_empty⟩

end Pool

end ProtoSchema
