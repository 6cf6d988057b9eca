import ProtoSchema.FileTree.Path
import ProtoSchema.Problem.Load
import ProtoSchema.Text.Blank

/-!
# File trees

The working directory with everything below it: directories, and files with their bytes. There are
directories above it as well, but nothing is known of what they hold.
-/

namespace ProtoSchema

/-- What stands at a place of a file tree. -/
inductive FileNode
  | directory
  | file (bytes : List UInt8)
  deriving DecidableEq, Repr

/-- The nodes below the working directory, each with the components that lead to it. -/
structure FileTree where
  nodes : List (List Text × FileNode)
  deriving DecidableEq, Repr

namespace FileTree

/-- The tree of an empty working directory. -/
def empty : FileTree := ⟨[]⟩

instance : Inhabited FileTree := ⟨empty⟩

/-- What stands at a place. -/
def node? (t : FileTree) (place : List Text) : Option FileNode :=
  if place.isEmpty then some .directory
  else (t.nodes.find? (·.1 = place)).map Prod.snd

/-- What stands at a location. -/
def nodeAt? (t : FileTree) (l : Location) : Option FileNode :=
  if l.above = 0 then t.node? l.components
  else if l.components.isEmpty then some .directory
  else none

/-! ## Changing a tree -/

/-- The tree without what stands at a place. -/
def remove (t : FileTree) (place : List Text) : FileTree := ⟨t.nodes.filter (·.1 ≠ place)⟩

/-- Adds a directory, unless something stands there. -/
def addDirectory (t : FileTree) (place : List Text) : FileTree :=
  match t.node? place with
  | some _ => t
  | none => ⟨t.nodes ++ [(place, .directory)]⟩

/-- Adds a directory and all directories around it. -/
def addDirectories (t : FileTree) (place : List Text) : FileTree :=
  (List.range (place.length + 1)).foldl (fun t n => t.addDirectory (place.take n)) t

/-- Writes a file, with the directories around it. -/
def write (t : FileTree) (place : List Text) (bytes : List UInt8) : FileTree :=
  let t := (t.addDirectories place.dropLast).remove place
  ⟨t.nodes ++ [(place, .file bytes)]⟩

/-! ## Following paths -/

/-- The location that components lead to from another one. Every location on the way has to be a
directory, and no component may be too long to name anything there. -/
def walk (t : FileTree) (l : Location) : List Text → Except AccessFailure Location
  | [] => .ok l
  | c :: cs =>
    match t.nodeAt? l with
    | none => .error .missing
    | some (.file _) => .error .notDirectory
    | some .directory =>
      if c = Path.here then t.walk l cs
      else if Path.longestName < c.toBytes.length then .error .nameTooLong
      else t.walk (l.step c) cs

/-- The location a path leads to and what stands there. -/
def find (t : FileTree) (p : Path) : Except AccessFailure (Location × FileNode) :=
  if p.absolute ∨ Path.hasZero p.text then .error .missing
  else if Path.isTooLong p.text then .error .nameTooLong
  else do
    let l ← t.walk .start p.components
    match t.nodeAt? l with
    | some node => .ok (l, node)
    | none => .error .missing

/-- What a path leads to, if anything; a path that is too long cannot be asked for. -/
def lookUp (t : FileTree) (p : Path) : Except ReadFailure (Option FileNode) :=
  match t.find p with
  | .ok (_, node) => .ok (some node)
  | .error .nameTooLong => .error (.access .nameTooLong p.text)
  | .error _ => .ok none

/-- Whether a path leads to a file. -/
def isFile (t : FileTree) (p : Path) : Bool :=
  match t.find p with
  | .ok (_, .file _) => true
  | _ => false

/-- The tree without the file at a path. -/
def removeFile (t : FileTree) (p : Path) : Except ReadFailure FileTree :=
  if Path.hasZero p.text then .error .zeroCharacter
  else
    match t.find p with
    | .ok (l, .file _) => .ok (t.remove l.components)
    | .ok (_, .directory) => .error (.access .isDirectory p.text)
    | .error e => .error (.access e p.text)

/-- The bytes of the file at a path. -/
def readBytes (t : FileTree) (p : Path) : Except AccessFailure (List UInt8) := do
  match ← t.find p with
  | (_, .file bytes) => .ok bytes
  | (_, .directory) => .error .isDirectory

/-- Bytes as the text of a file. -/
def textOfBytes (bytes : List UInt8) : Except Utf8.Flaw (List Char) :=
  (Utf8.decode bytes).map unifyLineEnds

/-- The text of the file at a path that is spelled in some way. -/
def readText (t : FileTree) (p : Path) (spelled : Text) : Except ReadFailure (List Char) :=
  if Path.hasZero spelled then .error .zeroCharacter
  else if Path.isTooLong spelled then .error (.access .nameTooLong spelled)
  else
    match t.readBytes p with
    | .error e => .error (.access e spelled)
    | .ok bytes => (textOfBytes bytes).mapError .notUtf8

/-! ## Searching directories -/

/-- The ending of the names of schema files. -/
def schemaSuffix : Text := ".proto"

/-- Whether a name is that of a schema file. -/
def isSchemaName (name : Text) : Bool := schemaSuffix.units.isSuffixOf name.units

/-- The paths of all schema files below a directory, ordered by their components. None are known in
a directory above the working directory. -/
def schemaFiles (t : FileTree) (root : Path) : List Path :=
  match t.find root with
  | .ok (⟨0, place⟩, .directory) =>
    let paths := t.nodes.filterMap fun (key, node) =>
      match node with
      | .directory => none
      | .file _ =>
        if place.isPrefixOf key ∧ isSchemaName (key.getLastD ⟨[]⟩) then
          some { root with components := root.components ++ key.drop place.length }
        else none
    paths.mergeSort fun p q => ! q.components.lex p.components Text.isBefore
  | _ => []

end FileTree

end ProtoSchema
