import ProtoSchema.Cli.Run

/-!
# The program

Reads the working directory and the schema path, runs the command line, and prints what comes of it.
-/

namespace ProtoSchema

/-- Reads the entries of a directory, and those of the directories in it, into a file tree. -/
partial def readEntries (place : List Text) (entries : Array IO.FS.DirEntry) (t : FileTree) :
    IO FileTree :=
  entries.foldlM (fun t entry => do
    let place := place ++ [Text.ofString entry.fileName]
    if ← entry.path.isDir then
      readEntries place (← entry.path.readDir) (t.addDirectory place)
    else
      return t.write place (← IO.FS.readBinFile entry.path).toList) t

/-- Prints a text as its bytes. -/
def printText (stream : IO.FS.Stream) (t : Text) : IO Unit := do
  stream.write ⟨t.toBytes.toArray⟩
  stream.flush

end ProtoSchema

open ProtoSchema

def main (words : List String) : IO UInt32 := do
  let tree ← readEntries [] (← (← IO.currentDir).readDir) .empty
  let schemaPath ← IO.getEnv "PROTODESC_PATH"
  let ending := Cli.run ⟨tree, schemaPath⟩ words
  printText (← IO.getStderr) ending.printed.errors
  printText (← IO.getStdout) ending.printed.output
  if let some breakdown := ending.breakdown then
    printText (← IO.getStderr) (breakdown.message ++ "\n")
  return ending.printed.code.toUInt32
