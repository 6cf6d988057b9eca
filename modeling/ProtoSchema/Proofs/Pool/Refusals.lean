import ProtoSchema.Proofs.Pool.Lifecycle

/-!
# Pools that take no more files

A pool that is closed or linked refuses every file and stays as it is (`on_loadFile_of_sealed`). When
it is to go through its directories, the refusal comes with the first schema file: the directories
before that are still searched, and reported if they are none (`on_loadEachDirectory_of_sealed`).
-/

namespace ProtoSchema

namespace Pool

variable {t : FileTree} {p : Pool}

/-- A pool that takes no more files: it is closed or has been linked. -/
def Sealed (p : Pool) : Prop := p.isClosed ∨ p.isFinalized

/-- How a sealed pool refuses a file. -/
def refusal (p : Pool) : PoolError := if p.isClosed then .closed p.id else .finalized

/-- What ends the search of a directory for a sealed pool: its first schema file is refused, or the
directory or that file cannot even be asked for. -/
def obstacle? (t : FileTree) (p : Pool) (root : Path) : Option PoolError :=
  match t.lookUp root with
  | .error e => some (.unreachable e)
  | .ok (some .directory) =>
    match t.schemaFiles root with
    | [] => none
    | path :: _ =>
      match t.lookUp path with
      | .error e => some (.unreachable e)
      | .ok _ => some p.refusal
  | .ok _ => none

/-- The reports of those directories that are none. -/
def absences (t : FileTree) (roots : List Path) : List Report :=
  roots.flatMap fun root =>
    match t.lookUp root with
    | .ok (some .directory) => []
    | _ => [⟨.load .noDirectory, root.text, none⟩]

theorem Sealed.publish (h : p.Sealed) (reports : List Report) : (p.publish reports).Sealed := h

theorem publish_nil (p : Pool) : p.publish [] = p := by
  simp [Pool.publish]

theorem publish_publish (p : Pool) (reports more : List Report) :
    (p.publish reports).publish more = p.publish (reports ++ more) := by
  simp [Pool.publish]

/-- Whatever was reported, the same stands in the way. -/
theorem obstacle?_publish (p : Pool) (reports : List Report) :
    (p.publish reports).obstacle? t = p.obstacle? t := rfl

/-! ## The search -/

theorem on_loadFile_of_sealed (h : p.Sealed) (path : Path) :
    (loadFile path).on t p = (.error p.refusal, p) := by
  rw [on_loadFile, refusal]
  by_cases hclosed : p.isClosed
  · rw [if_pos hclosed, if_pos hclosed]
  · rw [if_neg hclosed, if_pos (h.resolve_left hclosed), if_neg hclosed]

theorem on_lookUp (path : Path) : (lookUp path).on t p =
    ((t.lookUp path).mapError .unreachable, p) := by
  unfold lookUp
  rw [on_bind, on_read]
  simp only
  cases t.lookUp path <;> rfl

/-- The first schema file ends the search, whatever comes of asking for it. -/
theorem on_loadFiles_of_sealed (h : p.Sealed) (path : Path) (paths : List Path) :
    (loadFiles (path :: paths)).on t p =
      (match t.lookUp path with
        | .error e => .error (.unreachable e)
        | .ok _ => .error p.refusal, p) := by
  rw [loadFiles, on_bind]
  have hasked : (discard (lookUp path) : Run Unit).on t p =
      (((t.lookUp path).mapError .unreachable).map fun _ => (), p) := by
    have hmap := on_map (t := t) (p := p) (fun _ => ()) (lookUp path)
    rwa [on_lookUp] at hmap
  rw [hasked]
  cases t.lookUp path with
  | error e => rfl
  | ok found =>
    simp only [Except.mapError, Except.map]
    rw [on_bind, on_loadFile_of_sealed h]

/-- One directory is passed over, with a report if it is none, or ends the search. -/
theorem on_loadDirectory_of_sealed (h : p.Sealed) (root : Path) :
    (loadDirectory root).on t p =
      match p.obstacle? t root with
      | some e => (.error e, p)
      | none => (.ok 0, p.publish (absences t [root])) := by
  have hnone (hother : ∀ e, t.lookUp root ≠ .error e)
      (hdirectory : t.lookUp root ≠ .ok (some .directory)) :
      (loadDirectory root).on t p = (.ok 0, p.publish [⟨.load .noDirectory, root.text, none⟩]) := by
    rw [loadDirectory, on_bind, on_lookUp]
    rcases hfound : t.lookUp root with e | _ | _ | bytes
    · exact absurd hfound (hother e)
    · rfl
    · exact absurd hfound hdirectory
    · rfl
  rcases hfound : t.lookUp root with e | _ | _ | bytes
  · rw [loadDirectory, on_bind, on_lookUp]
    simp only [obstacle?, hfound, Except.mapError]
  · rw [hnone (by simp [hfound]) (by simp [hfound])]
    simp [obstacle?, absences, hfound]
  · rw [loadDirectory, on_bind, on_lookUp]
    simp only [hfound, Except.mapError, on_bind, on_read]
    cases hfiles : t.schemaFiles root with
    | nil => simp [obstacle?, absences, hfound, hfiles, loadFiles, publish_nil]
    | cons path paths =>
      rw [on_loadFiles_of_sealed h]
      simp only [obstacle?, hfound, hfiles]
      cases t.lookUp path <;> rfl
  · rw [hnone (by simp [hfound]) (by simp [hfound])]
    simp [obstacle?, absences, hfound]

/-- Directories are passed over until one ends the search. -/
theorem on_loadEachDirectory_of_sealed (h : p.Sealed) (roots : List Path) :
    (loadEachDirectory roots).on t p =
      ((roots.findSome? (p.obstacle? t)).elim (.ok 0) .error,
        p.publish (absences t (roots.takeWhile fun root => (p.obstacle? t root).isNone))) := by
  induction roots generalizing p with
  | nil =>
    simp only [loadEachDirectory, on_pure, List.findSome?_nil, List.takeWhile_nil, Option.elim_none]
    rw [absences, List.flatMap_nil, publish_nil]
  | cons root roots ih =>
    rw [loadEachDirectory, on_bind, on_loadDirectory_of_sealed h, List.findSome?_cons,
      List.takeWhile_cons]
    cases hobstacle : p.obstacle? t root with
    | some e => simp [absences, publish_nil]
    | none =>
      simp only [on_bind, ih (h.publish _), obstacle?_publish, publish_publish, on_pure,
        Option.isNone_none, if_true]
      have hjoined (more : List Path) :
          absences t [root] ++ absences t more = absences t (root :: more) := by
        simp [absences]
      rw [hjoined]
      cases roots.findSome? (p.obstacle? t) <;> rfl

/-- Directories that are there make for no reports. -/
theorem absences_eq_nil {roots : List Path}
    (h : ∀ root ∈ roots, t.lookUp root = .ok (some .directory)) : absences t roots = [] := by
  rw [absences, List.flatMap_eq_nil_iff]
  intro root hroot
  rw [h root hroot]

/-- If all directories are there and their files can be asked for, the first schema file is what
ends the search. -/
theorem findSome?_obstacle? {roots : List Path}
    (hthere : ∀ root ∈ roots, t.lookUp root = .ok (some .directory))
    (hasked : ∀ root ∈ roots, ∀ path ∈ t.schemaFiles root, ∃ found, t.lookUp path = .ok found)
    (hfile : ∃ root ∈ roots, t.schemaFiles root ≠ []) :
    roots.findSome? (p.obstacle? t) = some p.refusal := by
  have hone (root : Path) (hroot : root ∈ roots) :
      p.obstacle? t root = if t.schemaFiles root = [] then none else some p.refusal := by
    rw [obstacle?, hthere root hroot]
    cases hfiles : t.schemaFiles root with
    | nil => simp
    | cons path paths =>
      obtain ⟨found, hfound⟩ := hasked root hroot path (by simp [hfiles])
      simp [hfound]
  obtain ⟨root, hroot, hne⟩ := hfile
  cases hsome : roots.findSome? (p.obstacle? t) with
  | none =>
    have hnone := List.findSome?_eq_none_iff.mp hsome root hroot
    rw [hone root hroot, if_neg hne] at hnone
    cases hnone
  | some e =>
    obtain ⟨other, hother, he⟩ := List.exists_of_findSome?_eq_some hsome
    rw [hone other hother] at he
    split_ifs at he
    exact he.symm

/-- A sealed pool loads nothing. It refuses every single file and stays as it is. Going through its
directories changes nothing but the reports, to which the directories are added that are none, and is
refused as soon as a schema file turns up: at once and without a trace, if all directories are there
and one of them has a schema file. Without any schema file nothing is refused, and the count is
zero. -/
theorem loading_of_sealed (h : p.Sealed) :
    (∀ path, (loadFile path).on t p = (.error p.refusal, p)) ∧
      loadDirectories.on t p =
        ((p.directories.findSome? (p.obstacle? t)).elim (.ok 0) .error,
          p.publish (absences t
            (p.directories.takeWhile fun root => (p.obstacle? t root).isNone))) ∧
      ((∀ root ∈ p.directories, t.lookUp root = .ok (some .directory)) →
        (∀ root ∈ p.directories, ∀ path ∈ t.schemaFiles root, ∃ found, t.lookUp path = .ok found) →
        (∃ root ∈ p.directories, t.schemaFiles root ≠ []) →
          loadDirectories.on t p = (.error p.refusal, p)) ∧
      (let p' := (loadDirectories.on t p).2
       p'.linker = p.linker ∧ p'.linked = p.linked ∧ p'.generation = p.generation ∧
         p'.isClosed = p.isClosed) := by
  have hsearch : loadDirectories.on t p =
      ((p.directories.findSome? (p.obstacle? t)).elim (.ok 0) .error,
        p.publish (absences t
          (p.directories.takeWhile fun root => (p.obstacle? t root).isNone))) := by
    rw [loadDirectories, on_bind, on_get]
    exact on_loadEachDirectory_of_sealed h p.directories
  refine ⟨on_loadFile_of_sealed h, hsearch, fun hthere hasked hfile => ?_, ?_⟩
  · rw [hsearch, absences_eq_nil fun root hroot => hthere root (List.takeWhile_subset _ hroot),
      findSome?_obstacle? hthere hasked hfile, publish_nil]
    rfl
  · rw [hsearch]
    exact ⟨rfl, rfl, rfl, rfl⟩

end Pool

/-! ## Sample pools -/

namespace Sample

/-- The path of a directory. -/
def pathSchemas : Path := .ofText (Text.ofString "schemas")

/-- The path of a schema file in the directory. -/
def pathSchema : Path := .ofText (Text.ofString "schemas/a.proto")

/-- A file tree in which the directory holds just the schema file. -/
def schemasTree : FileTree :=
  ⟨[(pathSchemas.components, .directory), (pathSchema.components, .file [0x3B])]⟩

/-- A pool with the directory that has been closed. -/
def closedPool : Pool := (Pool.fresh 1 [pathSchemas] none).close

end Sample

namespace Pool

/-- A closed pool whose directory holds a schema file refuses to go through it. -/
theorem loading_of_sealed_schemas : Sample.closedPool.Sealed ∧
    loadDirectories.on Sample.schemasTree Sample.closedPool =
      (.error (.closed 1), Sample.closedPool) := by
  have hsealed : Sample.closedPool.Sealed := .inl rfl
  have hdirectories : Sample.closedPool.directories = [Sample.pathSchemas] := rfl
  have hthere : Sample.schemasTree.lookUp Sample.pathSchemas = .ok (some .directory) := rfl
  have hfiles : Sample.schemasTree.schemaFiles Sample.pathSchemas = [Sample.pathSchema] := by
    decide +kernel
  have hasked : Sample.schemasTree.lookUp Sample.pathSchema = .ok (some (.file [0x3B])) := rfl
  refine ⟨hsealed, (loading_of_sealed hsealed).2.2.1 ?_ ?_ ?_⟩
  · simpa [hdirectories] using hthere
  · simpa [hdirectories, hfiles] using ⟨_, hasked⟩
  · simp [hdirectories, hfiles]

/-- A closed pool whose directory is not there does not refuse to go through it: it counts no files,
and reports the directory. -/
theorem closed_pool_searches : Sample.closedPool.Sealed ∧
    (loadDirectories.on .empty Sample.closedPool).1 = .ok 0 ∧
      (loadDirectories.on .empty Sample.closedPool).2.reports =
        [⟨.load .noDirectory, Sample.pathSchemas.text, none⟩] :=
  ⟨.inl rfl, rfl, rfl⟩

end Pool

end ProtoSchema
