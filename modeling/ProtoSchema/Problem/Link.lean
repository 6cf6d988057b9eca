import ProtoSchema.Text.Basic

/-!
# Problems of linking

What can be wrong with the declarations of several files taken together: clashes of names and
numbers, references that lead nowhere, and options that do not suit their field. The wording of
each problem is given here and nowhere else.
-/

namespace ProtoSchema

/-- What a full name may stand for. -/
inductive DefinitionKind
  | package
  | message
  | enum
  | service
  | method
  deriving DecidableEq, Repr

/-- How a kind is named. -/
def DefinitionKind.name : DefinitionKind → String
  | package => "package"
  | message => "message"
  | enum => "enum"
  | service => "service"
  | method => "method"

/-- Why a default value is refused. `got` describes the value that was written, `type` is the
keyword of the field's type. -/
inductive DefaultProblem
  | inProto3
  | ofRepeated
  | ofMessage
  | notAnInteger (type got : String)
  | outOfRange (value : Int) (type : String)
  | notANumber (type got : String)
  | notABool (got : String)
  | notAString (type got : String)
  | invalidUtf8
  | notAnEnumValue (got : String)
  | unknownEnumValue (enum value : String)
  deriving DecidableEq, Repr

/-- The wording of a refused default. -/
def DefaultProblem.message : DefaultProblem → String
  | inProto3 => "explicit default values are not allowed in proto3"
  | ofRepeated => "repeated fields can't have default values"
  | ofMessage => "message fields can't have default values"
  | notAnInteger type got => s!"expected an integer default for {type}, got {got}"
  | outOfRange value type => s!"default value {value} is out of range for {type}"
  | notANumber type got => s!"expected a number default for {type}, got {got}"
  | notABool got => s!"expected true or false as bool default, got {got}"
  | notAString type got => s!"expected a string default for {type}, got {got}"
  | invalidUtf8 => "string default is not valid UTF-8"
  | notAnEnumValue got => s!"expected an enum value name as default, got {got}"
  | unknownEnumValue enum value => s!"enum type '{enum}' has no value named '{value}'"

/-- The greatest number of a field. -/
def maxFieldNumber : Nat := 0x1FFFFFFF

/-- What is wrong with declarations. -/
inductive LinkProblem
  | alreadyDefined (fullName : String) (owner : Option Text)
  | fieldNumberOutOfRange (field : String) (number : Nat)
  | implementationFieldNumber (field : String) (number : Nat)
  | reservedFieldNumber (field : String) (number : Nat)
  | reservedFieldName (field message : String)
  | fieldNameTaken (field message : String)
  | fieldNumberTaken (number : Nat) (message holder : String)
  | enumValueTaken (value enum : String)
  | enumNumberOutOfRange (value : String) (number : Int)
  | reservedEnumNumber (value : String) (number : Int)
  | reservedEnumName (value enum : String)
  | enumAlias (value : String) (number : Int) (holder enum : String)
  | emptyEnum (enum : String)
  | notImported (name : String) (owner file : Text)
  | notDefined (name : String)
  | notAType (name : String) (kind : DefinitionKind)
  | notExtendable (name : String)
  | notAnExtensionNumber (message : String) (number : Nat)
  | extensionNumberTaken (number : Nat) (message holder : String)
  | methodEndNotMessage (method type : String)
  | badDefault (field : String) (reason : DefaultProblem)
  | badPacked (field got : String)
  deriving DecidableEq, Repr

namespace LinkProblem

/-- The wording of a problem. -/
def message : LinkProblem → Text
  | alreadyDefined name owner =>
    (s!"'{name}' is already defined" : Text) ++
      match owner with
      | some file => (" in '" : Text) ++ file ++ "'"
      | none => " as a package"
  | fieldNumberOutOfRange field number =>
    s!"Field '{field}' number {number} is out of range (1 to {maxFieldNumber})"
  | implementationFieldNumber field number =>
    s!"Field '{field}' number {number}: numbers 19000 through 19999 " ++
      "are reserved for the protocol buffer library implementation"
  | reservedFieldNumber field number => s!"Field '{field}' uses reserved number {number}"
  | reservedFieldName field message => s!"Field name '{field}' is reserved in '{message}'"
  | fieldNameTaken field message => s!"Field '{field}' is already defined in '{message}'"
  | fieldNumberTaken number message holder =>
    s!"Field number {number} has already been used in '{message}' by field '{holder}'"
  | enumValueTaken value enum => s!"Enum value '{value}' is already defined in '{enum}'"
  | enumNumberOutOfRange value number =>
    s!"Enum value '{value}' number {number} is out of the int32 range"
  | reservedEnumNumber value number => s!"Enum value '{value}' uses reserved number {number}"
  | reservedEnumName value enum => s!"Enum value name '{value}' is reserved in '{enum}'"
  | enumAlias value number holder enum =>
    s!"'{value}' uses number {number} already used by '{holder}' in '{enum}'; " ++
      "set option allow_alias = true to allow aliases"
  | emptyEnum enum => s!"Enum '{enum}' must contain at least one value"
  | notImported name owner file =>
    (s!"'{name}' seems to be defined in '" : Text) ++ owner ++
      "', which is not imported by '" ++ file ++ "'"
  | notDefined name => s!"'{name}' is not defined"
  | notAType name kind => s!"'{name}' is not a type (it is a {kind.name})"
  | notExtendable name => s!"'{name}' is not a message type"
  | notAnExtensionNumber message number =>
    s!"'{message}' does not declare {number} as an extension number"
  | extensionNumberTaken number message holder =>
    s!"Extension number {number} has already been used in '{message}' by '{holder}'"
  | methodEndNotMessage method type => s!"Method '{method}': '{type}' is not a message type"
  | badDefault field reason => s!"Field '{field}': {reason.message}"
  | badPacked field got => s!"Field '{field}': packed expects true or false, got {got}"

end LinkProblem

end ProtoSchema
