import ProtoSchema.Expression.Reader

/-!
# Parameters of a function

The parameters of a function without a name: plain ones, then those with a default, with a slash
behind those that are given by place only, a star before those that are given by name only, and two
stars before the one that takes all others.
-/

namespace ProtoSchema.Expression.Parameters

open Reader

variable (expression : Reader Expression)

/-- A refusal for a fault of parameters. -/
def refuseFor (fault : ParameterFault) : Reader Unit := refuse (.parameter fault)

/-- The name of a parameter. -/
def parameter : Reader Unit := do
  let _ ← identifier

/-- What stands behind a parameter: a comma, or the colon behind all of them. -/
def separator : Reader Unit := first [mark ",", ahead (mark ":")]

/-- The default of a parameter. -/
def default : Reader Unit := first [
  do mark "="; let _ ← expression,
  explaining do
    mark "="
    ahead (first [mark ")", mark ","])
    refuseFor .missingDefault]

/-- A parameter without a default. -/
def plain : Reader Unit := do parameter; separator

/-- A parameter with a default. -/
def withDefault : Reader Unit := do parameter; default expression; separator

/-- A parameter with or without a default. -/
def either : Reader Unit := do
  parameter
  let _ ← optional (default expression)
  separator

/-- Parameters without a default that are given by place only. -/
def placedPlain : Reader Unit := do
  let _ ← oneOrMore plain
  mark "/"
  separator

/-- Parameters that are given by place only, the last of them with a default. -/
def placedWithDefault : Reader Unit := do
  let _ ← many plain
  let _ ← oneOrMore (withDefault expression)
  mark "/"
  separator

/-- Parameters that are given by place only. -/
def placed : Reader Unit := first [placedPlain, placedWithDefault expression]

/-- Explains what is wrong with the parameter that takes all others. -/
def explainRest : Reader Unit := first [
  do mark "**"; parameter; mark "="; refuseFor .doubleStarDefault,
  do mark "**"; parameter; mark ","; parameter; refuseFor .afterDoubleStar,
  do
    mark "**"; parameter; mark ","
    first [mark "*", mark "**", mark "/"]
    refuseFor .afterDoubleStar]

/-- The parameter that takes all others. -/
def rest : Reader Unit := first [explaining explainRest, do mark "**"; plain]

/-- Explains what is wrong with a star and what follows it. -/
def explainNamed : Reader Unit := first [
  do
    mark "*"
    first [mark ":", do mark ","; first [mark ":", mark "**"]]
    refuseFor .nothingAfterStar,
  do mark "*"; parameter; mark "="; refuseFor .starDefault,
  do
    mark "*"
    first [plain, mark ","]
    let _ ← many (either expression)
    mark "*"
    first [plain, mark ","]
    refuseFor .starAgain]

/-- A star and what follows it, or the parameter that takes all others. -/
def named : Reader Unit := first [
  explaining (explainNamed expression),
  do
    mark "*"; plain
    let _ ← many (either expression)
    let _ ← optional rest,
  do
    mark "*"; mark ","
    let _ ← oneOrMore (either expression)
    let _ ← optional rest,
  rest]

/-- Explains what is wrong with parameters. -/
def explain : Reader Unit := first [
  do
    let _ ← many plain
    first [placedWithDefault expression, do let _ ← oneOrMore (withDefault expression)]
    plain
    refuseFor .plainAfterDefault,
  do
    let _ ← many plain
    mark "("
    let _ ← list parameter
    let _ ← optional (mark ",")
    mark ")"
    refuseFor .parenthesized,
  do mark "/"; mark ","; refuseFor .slashFirst,
  do
    placed expression
    let _ ← many (either expression)
    mark "/"
    refuseFor .slashAgain,
  do
    let _ ← optional (placed expression)
    let _ ← many (either expression)
    mark "*"
    first [mark ",", plain]
    let _ ← many (either expression)
    mark "/"
    refuseFor .slashAfterStar,
  do
    let _ ← oneOrMore (either expression)
    mark "/"; mark "*"
    refuseFor .missingCommaBeforeStar]

/-- The parameters of a function. -/
def all : Reader Unit := first [
  explaining (explain expression),
  do
    placedPlain
    let _ ← many plain
    let _ ← many (withDefault expression)
    let _ ← optional (named expression),
  do
    placedWithDefault expression
    let _ ← many (withDefault expression)
    let _ ← optional (named expression),
  do
    let _ ← oneOrMore plain
    let _ ← many (withDefault expression)
    let _ ← optional (named expression),
  do
    let _ ← oneOrMore (withDefault expression)
    let _ ← optional (named expression),
  named expression]

end ProtoSchema.Expression.Parameters
