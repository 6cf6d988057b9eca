import ProtoSchema.Linker.Files
import ProtoSchema.Pool.Basic

/-!
# Loading imports

Before a pool is linked, it loads the files that its files import, and those that these import,
until nothing is missing or a name is too long to ask for. In each round every missing name is tried
once, and no name is tried in two rounds. This comes to an end because a name that is tried is
imported by a file which was there from the start or by one of the file tree.
-/

namespace ProtoSchema

/-! ## The imports of a file tree -/

/-- The names that a node imports, if it is a schema file. -/
def FileNode.importPaths : FileNode → List Text
  | .directory => []
  | .file bytes =>
    match FileTree.textOfBytes bytes with
    | .error _ => []
    | .ok text =>
      match SchemaFile.parse ⟨[]⟩ text with
      | .error _ => []
      | .ok f => f.scope.importNames

/-- The names that the schema files of a tree import. -/
def FileTree.importPaths (t : FileTree) : List Text := t.nodes.flatMap fun n => n.2.importPaths

/-- The name of a file has no bearing on what it imports. -/
theorem SchemaFile.importNames_of_parse {name : Text} {text : List Char} {f : SchemaFile}
    (h : SchemaFile.parse name text = .ok f) (name' : Text) :
    ∃ g, SchemaFile.parse name' text = .ok g ∧ g.scope.importNames = f.scope.importNames := by
  unfold SchemaFile.parse at h ⊢
  cases hd : derive text with
  | error e => simp [hd, bind, Except.bind] at h
  | ok tree =>
    cases hv : tree.value with
    | error e => simp [hd, hv, bind, Except.bind] at h
    | ok file =>
      simp only [hd, hv, bind, Except.bind] at h ⊢
      split at h
      · cases h
      · cases h
        exact ⟨_, rfl, rfl⟩

namespace FileTree

theorem mem_nodes_of_node? {t : FileTree} {place : List Text} {bytes : List UInt8}
    (h : t.node? place = some (.file bytes)) : ∃ n ∈ t.nodes, n.2 = .file bytes := by
  unfold node? at h
  split at h
  · cases h
  · obtain ⟨n, hn, hb⟩ := Option.map_eq_some_iff.mp h
    exact ⟨n, List.mem_of_find?_eq_some hn, hb⟩

theorem mem_nodes_of_nodeAt? {t : FileTree} {l : Location} {bytes : List UInt8}
    (h : t.nodeAt? l = some (.file bytes)) : ∃ n ∈ t.nodes, n.2 = .file bytes := by
  unfold nodeAt? at h
  split at h
  · exact mem_nodes_of_node? h
  · split at h <;> cases h

theorem nodeAt?_of_find {t : FileTree} {p : Path} {l : Location} {node : FileNode}
    (h : t.find p = .ok (l, node)) : t.nodeAt? l = some node := by
  unfold find at h
  split at h
  · cases h
  split at h
  · cases h
  · cases hw : t.walk .start p.components with
    | error e => simp [hw, bind, Except.bind] at h
    | ok l' =>
      simp only [hw, bind, Except.bind] at h
      split at h
      · next hn =>
        cases h
        exact hn
      · cases h

theorem mem_nodes_of_readBytes {t : FileTree} {p : Path} {bytes : List UInt8}
    (h : t.readBytes p = .ok bytes) : ∃ n ∈ t.nodes, n.2 = .file bytes := by
  unfold readBytes at h
  cases hf : t.find p with
  | error e => simp [hf, bind, Except.bind] at h
  | ok found =>
    obtain ⟨l, node⟩ := found
    cases node with
    | directory => simp [hf, bind, Except.bind] at h
    | file bytes' =>
      simp only [hf, bind, Except.bind, Except.ok.injEq] at h
      exact mem_nodes_of_nodeAt? (h ▸ nodeAt?_of_find hf)

/-- What a file read from the tree imports is imported in the tree. -/
theorem mem_importPaths_of_readText {t : FileTree} {p : Path} {shown name n : Text}
    {text : List Char} {f : SchemaFile} (ht : t.readText p shown = .ok text)
    (hf : SchemaFile.parse name text = .ok f) (hn : n ∈ f.scope.importNames) :
    n ∈ t.importPaths := by
  unfold readText at ht
  split at ht
  · cases ht
  split at ht
  · cases ht
  split at ht
  · cases ht
  · next bytes hb =>
    obtain ⟨node, hmem, hnode⟩ := mem_nodes_of_readBytes hb
    have htext : textOfBytes bytes = .ok text := by
      cases hx : textOfBytes bytes with
      | error e =>
        rw [hx] at ht
        cases ht
      | ok cs =>
        rw [hx] at ht
        cases ht
        rfl
    obtain ⟨g, hg, hsame⟩ := SchemaFile.importNames_of_parse hf ⟨[]⟩
    refine List.mem_flatMap.mpr ⟨node, hmem, ?_⟩
    rw [hnode]
    simp only [FileNode.importPaths, htext, hg, hsame, hn]

end FileTree

namespace Pool

/-- The directory in which a loaded file was found. -/
def root? (p : Pool) (name : Text) : Option Path :=
  (p.roots.find? (·.1 = name)).map Prod.snd

/-- The file that a name means, and the one of some directories that it is found in, which are
looked through in turn. -/
def findBelow (t : FileTree) (name : Text) : List Path → Except ReadFailure (Option (Path × Path))
  | [] => .ok none
  | root :: roots =>
    let candidate := root.join (.ofText name)
    match t.lookUp candidate with
    | .error e => .error e
    | .ok (some (.file _)) => .ok (some (candidate, root))
    | .ok _ => findBelow t name roots

/-- The file that an import means, and the directory it is found in: the pool's directories come
first, then the one that the importing file was found in. -/
def findImport (t : FileTree) (p : Pool) (name importer : Text) :
    Except ReadFailure (Option (Path × Path)) :=
  findBelow t name (p.directories ++ (p.root? importer).toList)

/-- Whether an import is neither loaded nor given up. -/
def isMissing (p : Pool) (attempted : List Text) (i : ImportDecl) : Bool :=
  (p.linker.file? i.path).isNone ∧ i.path ∉ p.failed ∧ i.path ∉ attempted

/-- The missing imports of all files, each with the file that imports it. -/
def missingImports (p : Pool) (attempted : List Text) : List (FileScope × ImportDecl) :=
  p.linker.files.flatMap fun f => (f.imports.filter (p.isMissing attempted)).map fun i => (f, i)

/-- Loads the file that an import means, or publishes that there is none. -/
def loadImport (t : FileTree) (p : Pool) (importer : FileScope) (i : ImportDecl) :
    Option (Path × Path) → Pool
  | none => p.publish [⟨.load (.importNotFound i.path), importer.name, some i.position⟩]
  | some (path, root) => (p.load t path i.path root).1

/-- Tries some imports in turn, each name once, and gives the names tried so far. A name that cannot
be asked for ends this. -/
def loadEach (t : FileTree) (p : Pool) (attempted : List Text) :
    List (FileScope × ImportDecl) → Pool × Except ReadFailure (List Text)
  | [] => (p, .ok attempted)
  | (importer, i) :: rest =>
    if i.path ∈ attempted then p.loadEach t attempted rest
    else
      match p.findImport t i.path importer.name with
      | .error e => (p, .error e)
      | .ok found => (p.loadImport t importer i found).loadEach t (attempted ++ [i.path]) rest

theorem mem_importPaths_load {t : FileTree} {p : Pool} {path root : Path} {name n : Text}
    (h : n ∈ (p.load t path name root).1.linker.importPaths) :
    n ∈ p.linker.importPaths ∨ n ∈ t.importPaths := by
  unfold load at h
  split at h
  · exact .inl h
  · next text ht =>
    unfold Linker.loadText at h
    cases hf : SchemaFile.parse name text with
    | error e =>
      rw [hf] at h
      exact .inl h
    | ok f =>
      rw [hf] at h
      exact (Linker.mem_importPaths_declare h).imp (fun h => h)
        (FileTree.mem_importPaths_of_readText ht hf)

theorem mem_importPaths_loadImport {t : FileTree} {p : Pool} {importer : FileScope}
    {i : ImportDecl} {found : Option (Path × Path)} {n : Text}
    (h : n ∈ (p.loadImport t importer i found).linker.importPaths) :
    n ∈ p.linker.importPaths ∨ n ∈ t.importPaths := by
  unfold loadImport at h
  split at h
  · exact .inl h
  · exact mem_importPaths_load h

/-- All imports that come in while imports are loaded are those of the file tree. -/
theorem mem_importPaths_loadEach {t : FileTree} {p : Pool} {attempted : List Text}
    {imports : List (FileScope × ImportDecl)} {n : Text}
    (h : n ∈ (p.loadEach t attempted imports).1.linker.importPaths) :
    n ∈ p.linker.importPaths ∨ n ∈ t.importPaths := by
  induction imports generalizing p attempted with
  | nil => exact .inl h
  | cons i rest ih =>
    unfold loadEach at h
    split at h
    · exact ih h
    · split at h
      · exact .inl h
      · rcases ih h with h | h
        · exact mem_importPaths_loadImport h
        · exact .inr h

/-- The names tried are those tried before and those of the imports. -/
theorem mem_attempted_loadEach {t : FileTree} {p : Pool} {attempted tried : List Text}
    {imports : List (FileScope × ImportDecl)} {n : Text}
    (h : (p.loadEach t attempted imports).2 = .ok tried) :
    n ∈ tried ↔ n ∈ attempted ∨ n ∈ imports.map fun i => i.2.path := by
  induction imports generalizing p attempted with
  | nil =>
    cases h
    simp
  | cons i rest ih =>
    obtain ⟨importer, i⟩ := i
    unfold loadEach at h
    split at h
    · next hi =>
      rw [ih h]
      simp only [List.map_cons, List.mem_cons]
      constructor
      · rintro (h | h)
        · exact .inl h
        · exact .inr (.inr h)
      · rintro (h | rfl | h)
        · exact .inl h
        · exact .inl hi
        · exact .inr h
    · split at h
      · cases h
      · rw [ih h]
        simp [or_assoc]

theorem mem_missingImports {p : Pool} {attempted : List Text} {f : FileScope} {i : ImportDecl} :
    (f, i) ∈ p.missingImports attempted ↔
      f ∈ p.linker.files ∧ i ∈ f.imports ∧ p.isMissing attempted i = true := by
  simp [missingImports]

/-- Fewer items pass a stricter test that one of those passing the other test fails. -/
theorem length_filter_lt {α : Type} {test stricter : α → Bool} {xs : List α} {x : α}
    (himp : ∀ y, stricter y = true → test y = true) (hx : x ∈ xs) (htest : test x = true)
    (hfail : stricter x = false) : (xs.filter stricter).length < (xs.filter test).length := by
  have hle : ∀ ys : List α, (ys.filter stricter).length ≤ (ys.filter test).length := by
    intro ys
    simpa [List.countP_eq_length_filter] using List.countP_mono_left fun y _ => himp y
  obtain ⟨before, after, rfl⟩ := List.append_of_mem hx
  simp only [List.filter_append, List.filter_cons, htest, hfail, List.length_append, if_true,
    List.length_cons]
  have h1 := hle before
  have h2 := hle after
  simp only [Bool.false_eq_true, if_false]
  omega

/-- How many of some names have not been tried. -/
def untried (names attempted : List Text) : Nat := (names.filter fun n => n ∉ attempted).length

/-- Trying the missing imports leaves fewer names untried. -/
theorem untried_loadEach_lt {t : FileTree} {p : Pool} {names attempted tried : List Text}
    {i : FileScope × ImportDecl} {rest : List (FileScope × ImportDecl)}
    (h : ∀ n ∈ p.linker.importPaths, n ∈ names) (hm : p.missingImports attempted = i :: rest)
    (ht : (p.loadEach t attempted (i :: rest)).2 = .ok tried) :
    untried names tried < untried names attempted := by
  obtain ⟨f, i⟩ := i
  have hmem : (f, i) ∈ p.missingImports attempted := hm ▸ List.mem_cons_self
  obtain ⟨hf, hi, hmissing⟩ := mem_missingImports.mp hmem
  simp only [isMissing, Bool.decide_and, Bool.and_eq_true, decide_eq_true_eq] at hmissing
  refine length_filter_lt (x := i.path) ?_ (h _ ?_) ?_ ?_
  · intro n hn
    simp only [decide_eq_true_eq] at hn ⊢
    exact fun ha => hn ((mem_attempted_loadEach ht).mpr (.inl ha))
  · exact Linker.mem_importPaths.mpr ⟨f, hf, List.mem_map.mpr ⟨i, hi, rfl⟩⟩
  · simp [hmissing.2.2]
  · simp [mem_attempted_loadEach ht]

/-- Loads missing imports until there are none, or one cannot be asked for. All imports are among
those in `known` and those of the file tree. -/
def loadMissing (t : FileTree) (known : List Text) (p : Pool) (attempted : List Text)
    (h : ∀ n ∈ p.linker.importPaths, n ∈ known ++ t.importPaths) : Pool × Except ReadFailure Unit :=
  match hm : p.missingImports attempted with
  | [] => (p, .ok ())
  | i :: rest =>
    match ht : (p.loadEach t attempted (i :: rest)).2 with
    | .error e => ((p.loadEach t attempted (i :: rest)).1, .error e)
    | .ok tried =>
      have := untried_loadEach_lt h hm ht
      loadMissing t known (p.loadEach t attempted (i :: rest)).1 tried fun n hn =>
        (mem_importPaths_loadEach hn).elim (h n) fun ht => List.mem_append.mpr (.inr ht)
  termination_by untried (known ++ t.importPaths) attempted

/-- Loads all imports that can be found, directly and through other imports. -/
def loadImports (t : FileTree) (p : Pool) : Pool × Except ReadFailure Unit :=
  p.loadMissing t p.linker.importPaths [] fun _ hn => List.mem_append.mpr (.inl hn)

end Pool

end ProtoSchema
