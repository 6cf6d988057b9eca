import ProtoSchema.Linker.Basic
import ProtoSchema.Name.Dotted

/-!
# Resolving references

A file sees its own definitions, those of the files it imports, and those of the files which are
imported publicly by these, step by step; packages are seen everywhere. A reference stands for the
first of its candidates that is seen.
-/

namespace ProtoSchema

/-- The names of the files that a file imports publicly. -/
def FileScope.publicImportNames (f : FileScope) : List Text :=
  (f.imports.filter (·.modifier = some .asPublic)).map (·.path)

/-- A list with those of further items that are not in it yet. -/
def addMissing {α : Type} [DecidableEq α] (seen : List α) (more : List α) : List α :=
  more.foldl (fun seen x => if x ∈ seen then seen else seen ++ [x]) seen

namespace Linker

/-- The files that a file imports publicly, if it is known. -/
def publicImports (l : Linker) (name : Text) : List Text :=
  ((l.file? name).map FileScope.publicImportNames).getD []

/-- One step of following public imports, from the given files on. The file `self` is not gone
back to. -/
def followOnce (l : Linker) (self : Text) (names : List Text) : List Text :=
  addMissing names ((names.flatMap l.publicImports).filter (· ≠ self))

/-- Follows public imports through at most `rounds` steps. -/
def follow (l : Linker) (self : Text) : (rounds : Nat) → List Text → List Text
  | 0, names => names
  | rounds + 1, names => l.follow self rounds (l.followOnce self names)

/-- The files whose definitions a file sees: itself, its imports, and what these import publicly.
Each step that adds a file starts from a known file that no earlier step started from, so that
there are no more such steps than known files. -/
def visibleFrom (l : Linker) (file : FileScope) : List Text :=
  file.name :: l.follow file.name l.files.length (addMissing [] file.importNames)

/-- The files that a file sees, remembered from the first time on. -/
def visibleFiles (l : Linker) (file : FileScope) : Linker × List Text :=
  match l.visible.find? (·.1 = file.name) with
  | some known => (l, known.2)
  | none =>
    let names := l.visibleFrom file
    ({ l with visible := l.visible ++ [(file.name, names)] }, names)

end Linker

/-- Whether a definition is seen where the definitions of the given files are. -/
def Definition.seenIn (d : Definition) (files : List Text) : Bool :=
  match d.file with
  | none => true
  | some file => files.contains file

namespace Linker

/-- The definition that a reference stands for among those that `admits` lets pass. -/
def lookup? (l : Linker) (scope name : String) (admits : Definition → Bool) :
    Option Definition :=
  (Dotted.candidates scope name).findSome? fun fullName =>
    (l.definition? fullName).filter admits

/-- Why a reference that stands for nothing seen stands for nothing. -/
def missing (l : Linker) (scope name : String) (file : FileScope) : LinkProblem :=
  match l.lookup? scope name fun _ => true with
  | some hidden => .notImported name (hidden.file.getD "") file.name
  | none => .notDefined name

/-- Resolves a reference as seen from a scope in a file, or notes that it cannot be resolved. -/
def resolve (l : Linker) (scope name : String) (file : FileScope) (position : Option Position) :
    Linker × Option Definition :=
  let (l, visible) := l.visibleFiles file
  match l.lookup? scope name (·.seenIn visible) with
  | some d => (l, some d)
  | none => (l.report file position (l.missing scope name file), none)

end Linker

end ProtoSchema
