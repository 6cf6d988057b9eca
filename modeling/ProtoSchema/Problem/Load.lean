import ProtoSchema.Text.Basic
import ProtoSchema.Text.Quoted

/-!
# Problems of loading

What can go wrong before a schema text is at hand: a directory or file that is not there, one that
is of the wrong sort, a path that cannot lead anywhere, or bytes that are no text.
-/

namespace ProtoSchema

/-- Why a path does not lead to what was asked for. -/
inductive AccessFailure
  | missing
  | isDirectory
  | notDirectory
  | nameTooLong
  deriving DecidableEq, Repr

namespace AccessFailure

/-- The number of a failure. -/
def code : AccessFailure → Nat
  | missing => 2
  | isDirectory => 21
  | notDirectory => 20
  | nameTooLong => 36

/-- The phrase for a failure. -/
def phrase : AccessFailure → String
  | missing => "No such file or directory"
  | isDirectory => "Is a directory"
  | notDirectory => "Not a directory"
  | nameTooLong => "File name too long"

end AccessFailure

/-- Why a file could not be read as text. A path with a zero character in it is not even tried. -/
inductive ReadFailure
  | access (failure : AccessFailure) (path : Text)
  | zeroCharacter
  | notUtf8 (flaw : Utf8.Flaw)
  deriving DecidableEq, Repr

/-- The wording of a failed reading. -/
def ReadFailure.message : ReadFailure → String
  | access failure path => s!"[Errno {failure.code}] {failure.phrase}: " ++ Quoted.text path
  | zeroCharacter => "embedded null byte"
  | notUtf8 flaw =>
    let place :=
      if flaw.length = 1 then
        "byte 0x" ++ Quoted.hex 2 flaw.byte.toNat ++ s!" in position {flaw.start}"
      else s!"bytes in position {flaw.start}-{flaw.start + flaw.length - 1}"
    s!"'utf-8' codec can't decode {place}: {flaw.sort.phrase}"

/-- What is wrong with a source of schema text. -/
inductive LoadProblem
  | noDirectory
  | unreadable (failure : ReadFailure)
  | importNotFound (path : Text)
  deriving DecidableEq, Repr

/-- The wording of a problem. -/
def LoadProblem.message : LoadProblem → Text
  | noDirectory => "Directory does not exist or is not readable"
  | unreadable failure => "Unable to read file: " ++ failure.message
  | importNotFound path => ("Import '" : Text) ++ path ++ "' was not found"

end ProtoSchema
