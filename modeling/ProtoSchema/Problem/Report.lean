import ProtoSchema.Problem.Link
import ProtoSchema.Problem.Load
import ProtoSchema.Problem.Source

/-!
# Reports and diagnostics

A report is a problem with the file and place it concerns. Its diagnostic is the same in plain
data: a kind, a wording and a location.
-/

namespace ProtoSchema

/-- The categories of diagnostics. -/
inductive DiagnosticKind
  | lexical
  | grammar
  | semantic
  | io
  deriving DecidableEq, Repr

/-- How a category is named. -/
def DiagnosticKind.name : DiagnosticKind → String
  | lexical => "lexical"
  | grammar => "syntax"
  | semantic => "semantic"
  | io => "io"

/-- A diagnostic in plain data. A column is shown only with a line. -/
structure Diagnostic where
  kind : DiagnosticKind
  message : Text
  file : Option Text
  line : Option Int
  column : Option Int
  deriving DecidableEq, Repr

/-- A diagnostic in one line: location, kind and message. -/
def Diagnostic.text (d : Diagnostic) : Text :=
  let file : Text :=
    match d.file with
    | some file => if file.isEmpty then "<unknown>" else file
    | none => "<unknown>"
  let location : String :=
    match d.line, d.column with
    | some line, some column => s!":{line}:{column}"
    | some line, none => s!":{line}"
    | none, _ => ""
  file ++ (location : Text) ++ s!": {d.kind.name} error: " ++ d.message

/-- Anything that can be reported. -/
inductive Problem
  | source (p : SourceProblem)
  | link (p : LinkProblem)
  | load (p : LoadProblem)
  deriving DecidableEq, Repr

namespace Problem

/-- The category of a problem. -/
def kind : Problem → DiagnosticKind
  | source p => if p.isLexical then .lexical else .grammar
  | link _ => .semantic
  | load _ => .io

/-- The wording of a problem. -/
def message : Problem → Text
  | source p => p.message
  | link p => p.message
  | load p => p.message

end Problem

/-- A problem, the file it concerns and, if it has one, its place there. -/
structure Report where
  problem : Problem
  file : Text
  position : Option Position
  deriving DecidableEq, Repr

/-- The diagnostic of a report. -/
def Report.diagnostic (r : Report) : Diagnostic where
  kind := r.problem.kind
  message := r.problem.message
  file := some r.file
  line := r.position.map fun p => (p.line : Int)
  column := r.position.map fun p => (p.column : Int)

/-- The line that shows a report. -/
def Report.text (r : Report) : Text := r.diagnostic.text

/-- The report of a fault in a file. -/
def Fault.report (f : Fault) (file : Text) : Report := ⟨.source f.problem, file, some f.position⟩

end ProtoSchema
