import ProtoSchema.Literal.Escape
import ProtoSchema.Position
import ProtoSchema.Text.Basic
import ProtoSchema.Token.Basic

/-!
# Problems of a source text

Everything that can be wrong with one schema text by itself, from an illegal character to a field
without a label. The wording of each problem is given here and nowhere else.
-/

namespace ProtoSchema

/-- What the grammar would have accepted: a terminal, or nothing more. -/
abbrev Expectation := Option Terminal

/-- How a diagnostic names an expectation. -/
def Expectation.description : Expectation → String
  | some t => t.description
  | none => "end of input"

/-- What is wrong with a schema text. -/
inductive SourceProblem
  | unterminatedString
  | illegalCharacter (c : Char)
  | badEscape (error : EscapeError)
  | badNumeral (error : BadNumeral)
  | unexpectedToken (lexeme : List Char) (expected : List Expectation)
  | unexpectedEnd (expected : List Expectation)
  | unknownDialect (name : Text)
  | secondPackage
  | badMapKey (field key : String)
  | missingLabel (field : String)
  | requiredField (field : String)
  | groupField (group : String)
  deriving DecidableEq, Repr

namespace SourceProblem

/-- Problems of single lexemes, as opposed to problems of their arrangement. -/
def isLexical : SourceProblem → Bool
  | unterminatedString | illegalCharacter _ | badEscape _ | badNumeral _ => true
  | _ => false

/-- How many expectations a diagnostic lists. -/
def shownExpectations : Nat := 8

/-- The clause that lists what was expected, in the order of the descriptions. -/
def expectedClause (expected : List Expectation) : String :=
  let descriptions := (expected.map Expectation.description).mergeSort (· ≤ ·)
  if descriptions.isEmpty then ""
  else
    ", expected " ++ ", ".intercalate (descriptions.take shownExpectations) ++
      (if shownExpectations < descriptions.length then ", ..." else "")

/-- The wording of a problem. -/
def message : SourceProblem → Text
  | unterminatedString => "Unterminated string literal"
  | illegalCharacter c => "Illegal character " ++ Quoted.string c.toString
  | badEscape e => e.message
  | badNumeral e => e.message
  | unexpectedToken lexeme expected =>
    "Unexpected '" ++ String.ofList lexeme ++ "'" ++ expectedClause expected
  | unexpectedEnd expected => "Unexpected end of input" ++ expectedClause expected
  | unknownDialect name =>
    ("Unrecognized syntax identifier \"" : Text) ++ name ++
      "\"; expected \"proto2\" or \"proto3\""
  | secondPackage => "Multiple package definitions"
  | badMapKey field key =>
    s!"Key in map field '{field}' cannot be {key}; use an integral or string type"
  | missingLabel field =>
    s!"Field '{field}' needs a label (optional, required or repeated) in proto2"
  | requiredField field => s!"Field '{field}': required fields are not allowed in proto3"
  | groupField group => s!"Group '{group}': groups are not supported in proto3"

end SourceProblem

/-- A problem and where in the text it lies. -/
structure Fault where
  problem : SourceProblem
  position : Position
  deriving DecidableEq, Repr

end ProtoSchema
