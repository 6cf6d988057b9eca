import ProtoSchema.Cli.Arguments
import ProtoSchema.Json.Basic
import ProtoSchema.Pool.Query
import ProtoSchema.Schema.Json
import ProtoSchema.Screen.Message
import ProtoSchema.Screen.Markup
import ProtoSchema.Screen.Table

/-!
# Running a command

A command works on one schema file, which it lists or parses, or on a pool that is built from the
directories of the schema path. The reports of a pool go to the error output before anything else.
-/

namespace ProtoSchema.Cli

/-- What a command finds around it: the working directory, and the variable that holds the schema
path where no option gives it. -/
structure Environment where
  tree : FileTree
  schemaPath : Option String

/-- What a command does not go on from. -/
inductive Breakdown
  | unreadable (failure : ReadFailure)
  | refused (error : PoolError)
  | unshowable (problem : Screen.ShowProblem)
  deriving DecidableEq, Repr

/-- The wording for a breakdown. -/
def Breakdown.message : Breakdown → Text
  | unreadable failure => failure.message
  | refused error => error.message
  | unshowable problem => problem.message

/-- What a command prints, and the code it ends with. -/
structure Printed where
  code : Nat
  output : Text
  errors : Text

/-- How a command ends. -/
structure Ending where
  printed : Printed
  breakdown : Option Breakdown

namespace Ending

/-- The ending of a command that succeeds. -/
def success (output : Text) : Ending := ⟨⟨0, output, ""⟩, none⟩

/-- The ending of a command that fails with a message. -/
def failure (message : Text) : Ending := ⟨⟨1, "", Screen.shownMessage message⟩, none⟩

/-- The ending of a command that breaks down with nothing but some output. -/
def broken (output : Text) (b : Breakdown) : Ending := ⟨⟨1, output, ""⟩, some b⟩

end Ending

/-! ## Tables -/

/-- A cell of a table: as it is, or with tags and names of pictographs in it. -/
inductive Cell
  | verbatim (text : Text)
  | marked (text : Text)

/-- A cell as styled text. -/
def Cell.styled : Cell → Except Screen.ShowProblem Screen.Styled
  | verbatim text => .ok (.plain (Screen.dropControls text.units))
  | marked text => Screen.Markup.read text.units

/-- What is shown of a table, with `before` and `behind` blanks around each cell. -/
def tableText (before behind : Nat) (justify : List Screen.Justify) (rows : List (List Cell)) :
    Except Screen.ShowProblem Text := do
  let rows ← rows.mapM (·.mapM Cell.styled)
  (Screen.Table.mk before behind justify rows).text.mapError .line

/-- The ending of a command that prints a table behind some output. -/
def Ending.ofTable (output : Text) : Except Screen.ShowProblem Text → Ending
  | .ok table => .success (output ++ table)
  | .error problem => .broken output (.unshowable problem)

/-! ## Commands on a file -/

/-- What to do with a schema file; a fault is printed. -/
def onFile (e : Environment) (path : String) (body : List Char → Except Fault Ending) : Ending :=
  let text :=
    if path.isEmpty then .error (.access .missing path)
    else e.tree.readText (.verbatim path) path
  match text with
  | .error failure => .broken "" (.unreadable failure)
  | .ok text =>
    match body text with
    | .ok ending => ending
    | .error fault => .failure (fault.report path).text

/-- The listing of tokens. -/
def tokenTable (entries : List TokenEntry) : Ending :=
  let row (e : TokenEntry) : List Cell :=
    [.verbatim s!"{e.position.line}:{e.position.column}", .verbatim e.kind.name, .verbatim e.text]
  .ofTable "" (tableText 0 2 [.right, .left, .left]
    ([.verbatim "Pos", .verbatim "Kind", .verbatim "Value"] :: entries.map row))

/-- Names in a row of an overview. -/
def nameList (names : List Text) : Text := Text.intercalate ", " names

/-- The title of the overview of a schema file. -/
def overviewTitle (f : SchemaFile) : Except Screen.ShowProblem Text := do
  let title := ("[bold cyan]" : Text) ++ f.name ++ s!"[/bold cyan] ({f.dialect.name})"
  (Screen.paragraph (← Screen.Markup.read title.units)).mapError .line

/-- An overview of what a schema file declares. -/
def fileOverview (f : SchemaFile) : Ending :=
  match overviewTitle f with
  | .error problem => .broken "" (.unshowable problem)
  | .ok title =>
    .ofTable title (tableText 2 2 [.left, .left] [
      [.verbatim "Package", .verbatim (f.package.getD "" : String)],
      [.verbatim "Imports", .marked (nameList (f.imports.map (·.path)))],
      [.verbatim "Messages", .verbatim (nameList (f.messages.map fun m => m.name))],
      [.verbatim "Enums", .verbatim (nameList (f.enums.map fun e => e.name))],
      [.verbatim "Services", .verbatim (nameList (f.services.map fun s => s.name))]])

/-! ## Commands on a pool -/

/-- What to do with the pool of some directories once it is linked. The reports of the pool come
first. -/
def onPool (e : Environment) (directories : List String) (body : Pool.Run Ending) : Ending :=
  let paths := directories.map fun d => Path.ofText (.ofString d)
  let run : Pool.Run Ending := do
    Pool.finalize
    body
  let (outcome, p) : Except PoolError Ending × Pool :=
    match Pool.create e.tree 1 paths none with
    | (.ok (), p) => run.on e.tree p
    | (.error error, p) => (.error error, p)
  let ending :=
    match outcome with
    | .ok ending => ending
    | .error error => .broken "" (.refused error)
  let reports := p.notices.map fun n => Screen.shownMessage n.report.text
  let errors := Text.intercalate ⟨[]⟩ reports ++ ending.printed.errors
  { ending with printed := { ending.printed with errors := errors } }

/-- A field as data: its links are there only if they are resolved. -/
def fieldJson (h : Handle) : Pool.Run Json := do
  let f ← Pool.field h
  let link (key : String) (name : Option String) : List (String × Json) :=
    (name.map fun n => (key, Json.string n)).toList
  let message ← (← Pool.fieldMessageType h).mapM fun m => return (← Pool.message m).fullName
  let enum ← (← Pool.fieldEnumType h).mapM fun e => return (← Pool.enum e).fullName
  return .object ([("name", .string f.name), ("number", .int f.number),
    ("type", .string f.type.keyword), ("label", .string f.label.name),
    ("packed", .bool f.packed)] ++ link "message_type" message ++ link "enum_type" enum)

/-- A message as data, under its full name. -/
def messageJson (h : Handle) : Pool.Run (String × Json) := do
  let m ← Pool.message h
  let fields ← (List.range m.fields.length).filterMapM fun i => Pool.messageField h (i : Nat)
  let fields ← fields.mapM fieldJson
  return (m.fullName, .object [("file", .text m.file), ("fields", .array fields)])

/-- All messages as data. -/
def messagesJson : Pool.Run Ending := do
  let entries ← (← Pool.messages).mapM messageJson
  return .success ((Json.object entries).print ++ "\n" : String)

/-- The listing of all messages. -/
def messagesTable : Pool.Run Ending := do
  let row (h : Handle) : Pool.Run (List Cell) := do
    let m ← Pool.message h
    return [.verbatim m.fullName, .verbatim (toString m.fields.length), .marked m.file]
  let rows ← (← Pool.messages).mapM row
  return .ofTable "" (tableText 0 2 [.left, .right, .left]
    ([.verbatim "Message", .verbatim "Fields", .verbatim "File"] :: rows))

/-- The schema text of a message. -/
def showMessage (name : String) : Pool.Run Ending := do
  match ← Pool.findMessage name with
  | none => return .failure s!"Message '{name}' not found"
  | some h => return .success (Screen.plainOutput (← Pool.render h))

/-- The types at the two ends of a method. -/
def showMethod (name : String) : Pool.Run Ending := do
  match ← Pool.findMethod name with
  | none => return .failure s!"Method '{name}' not found"
  | some h =>
    let m ← Pool.method h
    let methodEnd (streaming : Bool) (type : Option Handle) : Pool.Run Text := do
      let name ← type.mapM fun t => return (← Pool.message t).fullName
      return ((if streaming then "stream " else "") ++ name.getD "(unresolved)" : String)
    let input ← methodEnd m.clientStreaming (← Pool.methodInput h)
    let output ← methodEnd m.serverStreaming (← Pool.methodOutput h)
    return .ofTable "" (tableText 2 2 [.left, .left] [
      [.verbatim "Method", .verbatim m.fullName],
      [.verbatim "Input", .verbatim input],
      [.verbatim "Output", .verbatim output]])

/-- Whether anything was reported. -/
def checkPool : Pool.Run Ending := do
  let problems := (← get).reports.length
  let count := (← Pool.messages).length
  if problems = 0 then return .success s!"OK: {count} messages\n"
  else return .failure s!"{problems} problem(s) found"

/-! ## Command lines -/

/-- The directories of a schema path, which colons separate. -/
def splitSchemaPath (s : String) : List String := (s.toList.splitOn ':').map String.ofList

/-- Why a command line is not carried out. -/
inductive Refusal
  | usage (problem : UsageProblem)
  | breakdown (b : Breakdown)
  deriving DecidableEq, Repr

/-- Refuses a directory that is a file, or that cannot be one. -/
def requireDirectories (e : Environment) (directories : List String) : Except Refusal Unit :=
  directories.forM fun d =>
    if Path.hasZero d then .error (.breakdown (.unreadable .zeroCharacter))
    else if e.tree.isFile (.verbatim d) then .error (.usage (.fileAsDirectory d))
    else .ok ()

/-- The directories to search. Those of the options are looked at before the argument is missed,
those of the variable afterwards. -/
def searchedDirectories (e : Environment) (c : Command) (a : Arguments) :
    Except Refusal (List String) := do
  let given := a.values .protoPath
  requireDirectories e given
  if c.takesName ∧ a.plain.isEmpty then .error (.usage .missingName)
  if given.isEmpty ∧ c.options.contains .protoPath then
    let directories :=
      match e.schemaPath with
      | none | some "" => []
      | some s => splitSchemaPath s
    requireDirectories e directories
    return directories
  return given

/-- What a command with its arguments does, if they are in order. -/
def perform (e : Environment) (c : Command) (words : List String) :
    Except Refusal Ending := do
  let a ← (Arguments.read c.options words).mapError .usage
  let directories ← searchedDirectories e c a
  if c.options.contains .input ∧ ¬ a.has .input then .error (.usage (.missingOption .input))
  let extra := a.plain.drop (if c.takesName then 1 else 0)
  if ¬ extra.isEmpty then .error (.usage (.extraArguments extra))
  if c.options.contains .protoPath ∧ directories.isEmpty then .error (.usage .noProtoPath)
  let input := (a.value? .input).getD ""
  let name := a.plain.headD ""
  match c with
  | .tokens =>
    return onFile e input fun text => (tokenEntries text).map tokenTable
  | .parse =>
    return onFile e input fun text => (SchemaFile.parse input text).map fun f =>
      if a.has .json then .success (f.toJson.print ++ "\n" : String) else fileOverview f
  | .messages =>
    return onPool e directories (if a.has .json then messagesJson else messagesTable)
  | .render => return onPool e directories (showMessage name)
  | .method => return onPool e directories (showMethod name)
  | .check => return onPool e directories checkPool

/-- The words of a command line from the command on; before it only the program's own options may
stand. -/
def dropProgramOptions : List String → Except UsageProblem (List String)
  | [] => .ok []
  | word :: rest =>
    if word = "--" then .ok rest
    else if Arguments.isOption word.toList then do
      let _ ← Arguments.readWord [.verbose] word.toList rest
      dropProgramOptions rest
    else .ok (word :: rest)

/-- The command of a command line, and the words behind it. What is no command is read as options of
the program before it is refused. -/
def findCommand (words : List String) : Except UsageProblem (Command × List String) := do
  match ← dropProgramOptions words with
  | [] => .error .missingCommand
  | name :: rest =>
    match Command.ofName? name with
    | some c => return (c, rest)
    | none => do
      let _ ← dropProgramOptions (name :: rest)
      .error (.unknownCommand name)

/-- The ending of a command line that is not in order. -/
def refuse (command : Option Command) : Refusal → Ending
  | .usage problem => ⟨⟨2, "", Screen.plainOutput (UsageError.mk command problem).message⟩, none⟩
  | .breakdown b => .broken "" b

/-- Runs a command line. -/
def run (e : Environment) (words : List String) : Ending :=
  match findCommand words with
  | .error problem => refuse none (.usage problem)
  | .ok (c, rest) =>
    match perform e c rest with
    | .error refusal => refuse (some c) refusal
    | .ok ending => ending

end ProtoSchema.Cli
