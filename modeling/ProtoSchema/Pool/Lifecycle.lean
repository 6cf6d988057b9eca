import ProtoSchema.Linker.Link
import ProtoSchema.Pool.Imports

/-!
# The life of a pool

A pool takes files until it is linked, which happens at the latest with the first question. It can
be rebuilt any number of times, each time with a new generation, and closed once.
-/

namespace ProtoSchema

namespace Pool

/-- What can be done with a pool beside a file tree: it changes the pool and may be refused. What
was changed before a refusal stays changed. -/
abbrev Run (α : Type) := ReaderT FileTree (ExceptT PoolError (StateM Pool)) α

/-- The outcome of a run, and the pool behind it. -/
def Run.on {α : Type} (run : Run α) (t : FileTree) (p : Pool) : Except PoolError α × Pool :=
  ((run t).run).run p

/-- Refuses if the pool is closed. -/
def requireOpen : Run Unit := do
  let p ← get
  if p.isClosed then throw (.closed p.id)

/-! ## Loading -/

/-- Loads the file at a path, unless it is loaded already, and says whether it is loaded then. -/
def loadFile (path : Path) : Run Bool := do
  requireOpen
  let p ← get
  if p.isFinalized then throw .finalized
  if Path.hasZero path.text then throw (.unreachable .zeroCharacter)
  let (name, root) := p.importName path
  if (p.linker.file? name).isSome then return true
  let (p, loaded) := p.load (← read) path name root
  set p
  return loaded

/-- What a path leads to, if anything. -/
def lookUp (path : Path) : Run (Option FileNode) := do
  match (← read).lookUp path with
  | .ok found => return found
  | .error e => throw (.unreachable e)

/-- Loads some files and counts those that are loaded then. -/
def loadFiles : List Path → Run Nat
  | [] => return 0
  | path :: paths => do
    discard (lookUp path)
    let loaded ← loadFile path
    let count ← loadFiles paths
    return (if loaded then count + 1 else count)

/-- Loads all schema files below a directory. -/
def loadDirectory (root : Path) : Run Nat := do
  match ← lookUp root with
  | some .directory => loadFiles ((← read).schemaFiles root)
  | _ =>
    modify (·.publish [⟨.load .noDirectory, root.text, none⟩])
    return 0

/-- Loads all schema files below some directories. -/
def loadEachDirectory : List Path → Run Nat
  | [] => return 0
  | root :: roots => do
    let count ← loadDirectory root
    return count + (← loadEachDirectory roots)

/-- Loads all schema files below the pool's directories, and counts those that are loaded then, the
ones loaded before included. -/
def loadDirectories : Run Nat := do loadEachDirectory (← get).directories

/-- A new pool, with the schema files below its directories. This is refused only for a directory
that cannot be asked for. -/
def create (t : FileTree) (id : Nat) (directories : List Path) (subscriber : Option String) :
    Except PoolError Unit × Pool :=
  (discard loadDirectories : Run Unit).on t (fresh id directories subscriber)

/-- Adds a directory to those that are searched. -/
def addDirectory (p : Pool) (directory : Path) : Pool :=
  { p with directories := p.directories ++ [directory] }

/-! ## Linking -/

/-- The tables of the pool. The first time, missing imports are loaded and everything is linked. -/
def tables : Run Tables := do
  requireOpen
  let p ← get
  match p.linked with
  | some tables => return tables
  | none =>
    let (p, loaded) := p.loadImports (← read)
    set p
    if let .error e := loaded then throw (.unreachable e)
    let (l, outcome) := p.linker.link
    let p := p.withLinker l
    match outcome with
    | .ok tables =>
      set { p with linked := some tables }
      return tables
    | .error e =>
      set p
      throw (.linking e)

/-- Links the pool, unless that has been done. -/
def finalize : Run Unit := discard tables

/-! ## Rebuilding and closing -/

/-- Rebuilds the pool, from other directories and for another subscriber where these are given. All
handles given out before become stale. -/
def reinitialize (directories : Option (List Path)) (subscriber : Option String) : Run Unit := do
  requireOpen
  modify fun p =>
    { p.cleared with
      subscriber := subscriber <|> p.subscriber
      directories := directories.getD p.directories
      generation := p.generation + 1
      reports := [] }
  discard loadDirectories

/-- Closes the pool for good. Its reports can still be read. -/
def close (p : Pool) : Pool :=
  if p.isClosed then p
  else { p.cleared with
    isClosed := true
    generation := p.generation + 1
    linked := some .empty }

end Pool

end ProtoSchema
