import ProtoSchema.Expression.Basic
import ProtoSchema.Expression.Quotation

/-!
# What can be wrong with an expression

A fault is told by its cause. Its wording says what the reader of an expression did not understand,
and often what the writer may have meant.
-/

namespace ProtoSchema.Expression

/-- Why a quotation with expressions in it cannot be read. -/
inductive TemplateFault
  | tooDeep
  | backslash
  | comment
  | tooManyBrackets
  | unmatched (bracket : Char)
  | mismatched (closing opening : Char)
  | openQuotation
  | unfinished
  | empty
  | emptyBefore (mark : Char)
  | badConversion
  | loneBrace
  deriving DecidableEq, Repr

/-- The wording of a fault. -/
def TemplateFault.message : TemplateFault → String
  | tooDeep => "f-string: expressions nested too deeply"
  | backslash => "f-string expression part cannot include a backslash"
  | comment => "f-string expression part cannot include '#'"
  | tooManyBrackets => "f-string: too many nested parenthesis"
  | unmatched bracket => s!"f-string: unmatched '{bracket}'"
  | mismatched closing opening =>
    s!"f-string: closing parenthesis '{closing}' does not match opening parenthesis '{opening}'"
  | openQuotation => "f-string: unterminated string"
  | unfinished => "f-string: expecting '\x7d'"
  | empty => "f-string: empty expression not allowed"
  | emptyBefore mark => s!"f-string: expression required before '{mark}'"
  | badConversion => "f-string: invalid conversion character: expected 's', 'r', or 'a'"
  | loneBrace => "f-string: single '\x7d' is not allowed"

/-- What is wrong with the parameters of a function. -/
inductive ParameterFault
  | missingDefault
  | plainAfterDefault
  | parenthesized
  | slashFirst
  | slashAgain
  | slashAfterStar
  | missingCommaBeforeStar
  | nothingAfterStar
  | starDefault
  | starAgain
  | doubleStarDefault
  | afterDoubleStar
  deriving DecidableEq, Repr

/-- The wording of a fault. -/
def ParameterFault.message : ParameterFault → String
  | missingDefault => "expected default value expression"
  | plainAfterDefault => "non-default argument follows default argument"
  | parenthesized => "Lambda expression parameters cannot be parenthesized"
  | slashFirst => "at least one argument must precede /"
  | slashAgain => "/ may appear only once"
  | slashAfterStar => "/ must be ahead of *"
  | missingCommaBeforeStar => "expected comma between / and *"
  | nothingAfterStar => "named arguments must follow bare *"
  | starDefault => "var-positional argument cannot have default value"
  | starAgain => "* argument may appear only once"
  | doubleStarDefault => "var-keyword argument cannot have default value"
  | afterDoubleStar => "arguments cannot follow var-keyword argument"

/-- What is wrong with an argument of a call. -/
inductive ArgumentFault
  | assigned
  | bareGenerator
  | afterNamed
  | afterUnpacked
  | unpackedAfterUnpacked
  deriving DecidableEq, Repr

/-- The wording of a fault. -/
def ArgumentFault.message : ArgumentFault → String
  | assigned => "expression cannot contain assignment, perhaps you meant \"==\"?"
  | bareGenerator => "Generator expression must be parenthesized"
  | afterNamed => "positional argument follows keyword argument"
  | afterUnpacked => "positional argument follows keyword argument unpacking"
  | unpackedAfterUnpacked => "iterable argument unpacking follows keyword argument unpacking"

/-- What is wrong inside of parentheses or braces. -/
inductive DisplayFault
  | starredGroup
  | doubleStarredGroup
  | unpackedComprehension
  | bareTarget
  | unpackedEntryComprehension
  | missingColon
  | missingValue
  | starredValue
  deriving DecidableEq, Repr

/-- The wording of a fault. -/
def DisplayFault.message : DisplayFault → String
  | starredGroup => "cannot use starred expression here"
  | doubleStarredGroup => "cannot use double starred expression here"
  | unpackedComprehension => "iterable unpacking cannot be used in comprehension"
  | bareTarget => "did you forget parentheses around the comprehension target?"
  | unpackedEntryComprehension => "dict unpacking cannot be used in dict comprehension"
  | missingColon => "':' expected after dictionary key"
  | missingValue => "expression expected after dictionary key and ':'"
  | starredValue => "cannot use a starred expression in a dictionary value"

/-- What is wrong with an assignment within an expression. -/
inductive AssignmentFault
  | equalsSign
  | target (description : String)
  | targetHere (description : String)
  | namedTarget (description : String)
  deriving DecidableEq, Repr

/-- The wording of a fault. -/
def AssignmentFault.message : AssignmentFault → String
  | equalsSign => "invalid syntax. Maybe you meant '==' or ':=' instead of '='?"
  | target description => s!"cannot assign to {description}"
  | targetHere description =>
    s!"cannot assign to {description} here. Maybe you meant '==' instead of '='?"
  | namedTarget description => s!"cannot use assignment expressions with {description}"

/-- Why a text is no expression. -/
inductive Fault
  | token (fault : TokenFault)
  | quotation (fault : QuotationFault)
  | template (fault : TemplateFault)
  | parameter (fault : ParameterFault)
  | argument (fault : ArgumentFault)
  | display (fault : DisplayFault)
  | assignment (fault : AssignmentFault)
  | longNumeral (digits : Nat)
  | missingComma
  | missingElse
  | missingParentheses (function : List Char)
  | indented
  | dedented
  | general
  /-- A fault in an expression that stands in a quotation. -/
  | inTemplate (fault : Fault)
  deriving DecidableEq, Repr

namespace Fault

/-- The wording of a fault. -/
def message : Fault → String
  | token fault => fault.message
  | quotation fault => fault.message
  | template fault => fault.message
  | parameter fault => fault.message
  | argument fault => fault.message
  | display fault => fault.message
  | assignment fault => fault.message
  | longNumeral digits =>
    s!"Exceeds the limit ({Number.maxDigits} digits) for integer string conversion: " ++
      s!"value has {digits} digits; use sys.set_int_max_str_digits() to increase the limit - " ++
      "Consider hexadecimal for huge integer literals to avoid decimal conversion limits."
  | missingComma => "invalid syntax. Perhaps you forgot a comma?"
  | missingElse => "expected 'else' after 'if' expression"
  | missingParentheses function =>
    let name := String.ofList function
    s!"Missing parentheses in call to '{name}'. Did you mean {name}(...)?"
  | indented => "unexpected indent"
  | dedented => "unexpected unindent"
  | general => "invalid syntax"
  | inTemplate fault => "f-string: " ++ fault.message

/-- A fault as it is told where the expression stands in a quotation. What is wrong with a token is
told as it is, unless the token was only missing, and no fault is marked twice. -/
def withinTemplate : Fault → Fault
  | token fault => if fault.isQuiet then inTemplate (token fault) else token fault
  | inTemplate fault => inTemplate fault
  | fault => inTemplate fault

end Fault

end ProtoSchema.Expression
