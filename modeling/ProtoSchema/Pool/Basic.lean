import ProtoSchema.FileTree.Basic
import ProtoSchema.Linker.Default
import ProtoSchema.Linker.Load
import ProtoSchema.Problem.Load

/-!
# The state of a pool

A pool loads schema files from a file tree, links them once, and then answers questions about the
descriptors. Its directories are searched for schema files and for imports. A problem is kept among
the pool's reports and given to the subscriber of the moment. A handle stands for a record of a pool.
It is good only for the pool that gave it out and only as long as the pool is not rebuilt or
closed.
-/

namespace ProtoSchema

/-! ## Handles -/

/-- The kinds of records. -/
inductive RecordKind
  | message
  | field
  | enum
  | enumValue
  | method
  deriving DecidableEq, Repr

/-- How a kind is named. -/
def RecordKind.name : RecordKind → String
  | message => "message"
  | field => "field"
  | enum => "enum"
  | enumValue => "enum_value"
  | method => "method"

/-- A reference to a record by pool, generation, kind and place. Anyone may make one up, so that the
place may be any number. -/
structure Handle where
  pool : Nat
  generation : Nat
  kind : RecordKind
  place : Int
  deriving DecidableEq, Repr

/-- A handle as a message shows it. -/
def Handle.description (h : Handle) : String :=
  let kind := s!"<HandleKind.{h.kind.name.map Char.toUpper}: '{h.kind.name}'>"
  s!"Handle(pool_id={h.pool}, generation={h.generation}, kind={kind}, index={h.place})"

/-- Why a pool refuses to do something. -/
inductive PoolError
  | closed (pool : Nat)
  | finalized
  | stale (handle : Handle) (pool generation : Nat)
  | wrongKind (expected got : RecordKind)
  | noRecord
  | hugePlace
  | unreachable (failure : ReadFailure)
  | linking (failure : LinkFailure)
  deriving DecidableEq, Repr

/-- The wording for a refusal. -/
def PoolError.message : PoolError → String
  | closed pool => s!"Descriptor pool {pool} is closed"
  | finalized => "Cannot load files into a finalized descriptor pool"
  | stale handle pool generation =>
    s!"Handle {handle.description} does not belong to pool {pool} generation {generation}"
  | wrongKind expected got => s!"Expected a {expected.name} handle, got a {got.name} handle"
  | noRecord => "tuple index out of range"
  | hugePlace => "cannot fit 'int' into an index-sized integer"
  | unreachable failure => failure.message
  | linking failure => failure.message

/-! ## Pools -/

/-- A report that was given to a subscriber; without a subscriber it went to nobody in
particular. -/
structure Notice where
  subscriber : Option String
  report : Report
  deriving DecidableEq, Repr

/-- A pool. `roots` are the directories that the loaded files were found in, `failed` the names of
the files that could not be loaded, `reports` the problems since the pool was built or rebuilt, and
`notices` everything that subscribers were given. -/
structure Pool where
  id : Nat
  generation : Nat
  directories : List Path
  subscriber : Option String
  isClosed : Bool
  linker : Linker
  linked : Option Tables
  roots : List (Text × Path)
  failed : List Text
  reports : List Report
  notices : List Notice

namespace Pool

/-- A pool into which nothing has been loaded. -/
def fresh (id : Nat) (directories : List Path) (subscriber : Option String) : Pool :=
  ⟨id, 0, directories, subscriber, false, .empty, none, [], [], [], []⟩

instance : Inhabited Pool := ⟨fresh 0 [] none⟩

/-- The pool without anything that was loaded. -/
def cleared (p : Pool) : Pool :=
  { p with linker := .empty, linked := none, roots := [], failed := [] }

/-- Whether the pool takes no more files. -/
def isFinalized (p : Pool) : Bool := p.linked.isSome

/-- Gives reports to the subscriber. -/
def publish (p : Pool) (reports : List Report) : Pool :=
  { p with
    reports := p.reports ++ reports
    notices := p.notices ++ reports.map fun r => ⟨p.subscriber, r⟩ }

/-- Takes over a linker, and publishes what it noted. -/
def withLinker (p : Pool) (l : Linker) : Pool :=
  ({ p with linker := { l with reports := [] } }).publish l.reports

/-- Remembers that a file could not be loaded. -/
def fail (p : Pool) (name : Text) : Pool := { p with failed := p.failed ++ [name] }

/-- Loads the file at a path under a name, and says whether that was possible. -/
def load (t : FileTree) (p : Pool) (path : Path) (name : Text) (root : Path) : Pool × Bool :=
  match t.readText path path.text with
  | .error e => ((p.fail name).publish [⟨.load (.unreadable e), path.text, none⟩], false)
  | .ok text =>
    match p.linker.loadText name text with
    | (l, true) => ({ p with roots := p.roots ++ [(name, root)] }.withLinker l, true)
    | (l, false) => ((p.fail name).withLinker l, false)

/-- The name by which other files import the file at a path, and the directory this is seen from:
the first of the pool's directories that the file lies below, or else the file's own. -/
def importName (p : Pool) (path : Path) : Text × Path :=
  (p.directories.findSome? fun root =>
    (root.relative? path).map fun relative => (relative.text, root)).getD (path.name, path.parent)

end Pool

end ProtoSchema
