import ProtoSchema.Text.Quoted
import ProtoSchema.Text.Similarity

/-!
# The command line

Each command takes options and at most one argument of its own. Options may stand before and behind
the argument; two hyphens alone end them. What is wrong with a command line is told with the usage
of the command, and a command or option that does not exist with those that are similar.
-/

namespace ProtoSchema.Cli

/-- The commands. -/
inductive Command
  | tokens
  | parse
  | messages
  | render
  | method
  | check
  deriving DecidableEq, Repr

namespace Command

/-- How a command is called. -/
def name : Command → String
  | tokens => "tokens"
  | parse => "parse"
  | messages => "messages"
  | render => "show"
  | method => "method"
  | check => "check"

/-- All commands. -/
def all : List Command := [tokens, parse, messages, render, method, check]

/-- The command that is called by a name. -/
def ofName? (s : String) : Option Command := all.find? (·.name == s)

/-- The names of commands that are similar to a name. -/
def similarNames (s : String) : List String := Similarity.similarWords s (all.map name)

/-- Whether a command takes the name of a descriptor. -/
def takesName : Command → Bool
  | render | method => true
  | _ => false

end Command

/-- The options. -/
inductive OptionName
  | input
  | json
  | protoPath
  | verbose
  deriving DecidableEq, Repr

namespace OptionName

/-- The long spelling of an option. -/
def long : OptionName → String
  | input => "--input"
  | json => "--json"
  | protoPath => "--proto-path"
  | verbose => "--verbose"

/-- The short spelling of an option, if it has one. -/
def short? : OptionName → Option String
  | input => some "-i"
  | json => none
  | protoPath => some "-I"
  | verbose => some "-v"

/-- Whether an option takes a value. -/
def takesValue : OptionName → Bool
  | input | protoPath => true
  | json | verbose => false

/-- Both spellings of an option, quoted. -/
def spellings (o : OptionName) : String :=
  " / ".intercalate ((o.long :: o.short?.toList).map Quoted.string)

/-- The spelling of the option that asks for the usage, which every command takes. -/
def help : String := "--help"

/-- The long spellings among some options that are similar to a spelling. -/
def similarSpellings (options : List OptionName) (s : String) : List String :=
  Similarity.similarWords s (options.map long ++ [help])

end OptionName

/-- The options of a command. -/
def Command.options : Command → List OptionName
  | .tokens => [.input]
  | .parse => [.input, .json]
  | .messages => [.protoPath, .json]
  | .render | .method | .check => [.protoPath]

/-- What is wrong with a command line. -/
inductive UsageProblem
  | missingCommand
  | unknownCommand (name : String)
  | unknownOption (spelling : String) (similar : List String)
  | missingValue (spelling : String)
  | uselessValue (spelling : String)
  | missingName
  | missingOption (option : OptionName)
  | fileAsDirectory (path : String)
  | extraArguments (arguments : List String)
  | noProtoPath
  deriving DecidableEq, Repr

namespace UsageProblem

/-- The question for words that may have been meant. -/
def suggestion : List String → String
  | [] => ""
  | [word] => s!" Did you mean {Quoted.string word}?"
  | words =>
    let quoted := (words.mergeSort (· ≤ ·)).map Quoted.string
    " (Did you mean one of: " ++ ", ".intercalate quoted ++ "?)"

/-- The wording of a problem. -/
def message : UsageProblem → String
  | missingCommand => "Missing command."
  | unknownCommand name =>
    s!"No such command {Quoted.string name}." ++ suggestion (Command.similarNames name)
  | unknownOption spelling similar =>
    s!"No such option {Quoted.string spelling}." ++ suggestion similar
  | missingValue spelling => s!"Option {Quoted.string spelling} requires an argument."
  | uselessValue spelling => s!"Option {Quoted.string spelling} does not take a value."
  | missingName => "Missing argument 'NAME'."
  | missingOption option => s!"Missing option {option.spellings}."
  | fileAsDirectory path =>
    s!"Invalid value for {OptionName.protoPath.spellings}: " ++
      s!"Directory {Quoted.string path} is a file."
  | extraArguments arguments =>
    let noun := if arguments.length = 1 then "argument" else "arguments"
    s!"Got unexpected extra {noun} (" ++ " ".intercalate arguments ++ ")"
  | noProtoPath => "At least one --proto-path directory is required"

/-- Whether a problem is told with the usage of the command: not if it lies in the value of an
option that exists. -/
def showsUsage : UsageProblem → Bool
  | missingValue _ | uselessValue _ => false
  | _ => true

end UsageProblem

/-- A usage problem of a command, or of the program before a command is known. -/
structure UsageError where
  command : Option Command
  problem : UsageProblem
  deriving DecidableEq, Repr

/-- What is printed for a usage problem. -/
def UsageError.message (e : UsageError) : String :=
  let called :=
    match e.command with
    | none => "cli"
    | some c => s!"cli {c.name}"
  let rest :=
    match e.command with
    | none => "COMMAND [ARGS]..."
    | some c => if c.takesName then "NAME" else ""
  let usage := " ".intercalate (["Usage:", called, "[OPTIONS]", rest].filter (!·.isEmpty))
  let head :=
    if e.problem.showsUsage then s!"{usage}\nTry '{called} {OptionName.help}' for help.\n\n" else ""
  s!"{head}Error: {e.problem.message}\n"

/-- The options and arguments of a command line, in the order in which they are given; an option
that takes no value has an empty one. -/
structure Arguments where
  options : List (OptionName × String)
  plain : List String
  deriving DecidableEq, Repr

namespace Arguments

/-- Whether an option is given. -/
def has (a : Arguments) (o : OptionName) : Bool := a.options.any (·.1 = o)

/-- All values given for an option. -/
def values (a : Arguments) (o : OptionName) : List String :=
  (a.options.filter (·.1 = o)).map Prod.snd

/-- The value that counts for an option: the last one. -/
def value? (a : Arguments) (o : OptionName) : Option String := (a.values o).getLast?

/-- Whether a word of a command line stands for options. -/
def isOption (word : List Char) : Bool := word.head? = some '-' ∧ word ≠ ['-']

/-- The spelling before an equals sign and the value behind it, if there is one. -/
def splitValue (word : List Char) : List Char × Option (List Char) :=
  let spelling := word.takeWhile (· ≠ '=')
  match word.drop spelling.length with
  | [] => (spelling, none)
  | _ :: value => (spelling, some value)

/-- Options read from one word, with the words behind that are left. -/
abbrev Reading := Except UsageProblem (List (OptionName × String) × List String)

/-- Takes the next word as the value of an option. -/
def takeValue (o : OptionName) (spelling : String) : List String → Reading
  | [] => .error (.missingValue spelling)
  | value :: rest => .ok ([(o, value)], rest)

/-- Reads a long option, with its value behind an equals sign or as the next word. -/
def readLong (options : List OptionName) (word : List Char) (rest : List String) : Reading :=
  let (spelling, value?) := splitValue word
  let spelling := String.ofList spelling
  match options.find? (·.long == spelling), value? with
  | none, value? =>
    if spelling = OptionName.help ∧ value?.isSome then .error (.uselessValue spelling)
    else .error (.unknownOption spelling (OptionName.similarSpellings options spelling))
  | some o, some value =>
    if o.takesValue then .ok ([(o, String.ofList value)], rest) else .error (.uselessValue spelling)
  | some o, none => if o.takesValue then takeValue o spelling rest else .ok ([(o, "")], rest)

/-- Reads the letters of a word of short options. The first option that takes a value takes the
remaining letters, or else the next word. -/
def readShort (options : List OptionName) (rest : List String) : List Char → Reading
  | [] => .ok ([], rest)
  | letter :: letters =>
    let spelling := String.ofList ['-', letter]
    match options.find? (·.short? == some spelling) with
    | none => .error (.unknownOption spelling [])
    | some o =>
      if o.takesValue then
        if letters.isEmpty then takeValue o spelling rest
        else .ok ([(o, String.ofList letters)], rest)
      else
        (readShort options rest letters).map fun (given, rest) => ((o, "") :: given, rest)

/-- Reads a word of options. -/
def readWord (options : List OptionName) (word : List Char) (rest : List String) : Reading :=
  match word with
  | '-' :: '-' :: _ => readLong options word rest
  | _ => readShort options rest (word.drop 1)

/-- Reads the words of a command line; no more words than `fuel` are read. -/
def readWords (options : List OptionName) : (fuel : Nat) → List String →
    Except UsageProblem Arguments
  | 0, _ | _, [] => .ok ⟨[], []⟩
  | fuel + 1, word :: rest =>
    if word = "--" then .ok ⟨[], rest⟩
    else if isOption word.toList then do
      let (given, rest) ← readWord options word.toList rest
      let behind ← readWords options fuel rest
      return { behind with options := given ++ behind.options }
    else do
      let behind ← readWords options fuel rest
      return { behind with plain := word :: behind.plain }

/-- The arguments of the words of a command line. -/
def read (options : List OptionName) (words : List String) : Except UsageProblem Arguments :=
  readWords options words.length words

end Arguments

end ProtoSchema.Cli
