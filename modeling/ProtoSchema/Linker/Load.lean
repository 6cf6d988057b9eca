import ProtoSchema.Linker.Declare
import ProtoSchema.Schema.Parse

/-!
# Declaring texts

A schema text is declared if it is a schema file; otherwise its fault is noted.
-/

namespace ProtoSchema.Linker

/-- Declares the schema file with a name and text, and says whether the text is one. -/
def loadText (l : Linker) (name : Text) (text : List Char) : Linker × Bool :=
  match SchemaFile.parse name text with
  | .ok f => (l.declare f, true)
  | .error fault => (l.note (fault.report name), false)

/-- The linker that some named texts were declared to in turn. -/
def ofTexts (files : List (Text × List Char)) : Linker :=
  files.foldl (fun l f => (l.loadText f.1 f.2).1) empty

end ProtoSchema.Linker
