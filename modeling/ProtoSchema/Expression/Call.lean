import ProtoSchema.Expression.Display

/-!
# Arguments of a call

Arguments are given by place, perhaps with a star before the value that holds several of them, or by
name, or with two stars before the value that holds several with their names. Those by place come
before those by name. The larger rules are given by `read`.
-/

namespace ProtoSchema.Expression.Call

open Reader Comprehension Display

variable (read : Rule → Reader Expression)

/-- A refusal for a fault of arguments. -/
def refuseFor {α : Type} (fault : ArgumentFault) : Reader α := refuse (.argument fault)

/-- An expression with clauses behind it, as a generator has them. -/
def bareGenerator : Reader Unit := do
  let _ ← read .expression
  clauses read

/-- A name and the equals sign behind it. -/
def key : Reader Unit := do
  let _ ← identifier
  mark "="

/-- Explains what is wrong with an argument by name. -/
def explainNamed : Reader ArgumentSort := first [
  do
    let constant ← first [word "True" .true, word "False" .false, word "None" .none]
    mark "="
    refuse (.assignment (.target constant.description)),
  do
    key
    bareGenerator read
    refuse (.assignment .equalsSign),
  do
    notAhead key
    let _ ← read .expression
    mark "="
    refuseFor .assigned]

/-- An argument by name. -/
def named : Reader ArgumentSort := do
  key
  let _ ← read .expression
  return .named

/-- An argument with a star. -/
def unpacked : Reader ArgumentSort := do
  let _ ← unpackedItem read
  return .positional

/-- An argument by name or with a star. -/
def namedOrUnpacked : Reader ArgumentSort :=
  first [explaining (explainNamed read), named read, unpacked read]

/-- An argument by name or with two stars. -/
def namedOrDoublyUnpacked : Reader ArgumentSort := first [
  explaining (explainNamed read),
  named read,
  do
    mark "**"
    let _ ← read .expression
    return .unpacked]

/-- Arguments by name. After the first one with two stars none has a single one. -/
def allNamed : Reader (List ArgumentSort) := first [
  do
    let before ← list (namedOrUnpacked read)
    mark ","
    return before ++ (← list (namedOrDoublyUnpacked read)),
  list (namedOrUnpacked read),
  list (namedOrDoublyUnpacked read)]

/-- An argument by place. -/
def positional : Reader ArgumentSort := first [
  unpacked read,
  do
    let _ ← plainItem read
    notAhead (mark "=")
    return .positional]

/-- Arguments, those by place first. -/
def sequence : Reader (List ArgumentSort) := first [
  do
    let before ← list (positional read)
    let others ← optional do mark ","; allNamed read
    return before ++ others.getD [],
  allNamed read]

/-- Explains what is wrong with arguments. -/
def explain : Reader (List ArgumentSort) := first [
  do
    let _ ← sequence read
    mark ","; mark "*"
    refuseFor .unpackedAfterUnpacked,
  do
    bareGenerator read
    mark ","
    let _ ← optional (first [do let _ ← sequence read, bareGenerator read])
    refuseFor .bareGenerator,
  do
    key
    bareGenerator read
    refuse (.assignment .equalsSign),
  do
    let before ← sequence read
    clauses read
    if before.count .positional ≤ 1 then settle else refuseFor .bareGenerator,
  do
    let _ ← sequence read
    mark ","
    bareGenerator read
    refuseFor .bareGenerator,
  do
    let before ← sequence read
    mark ","
    let _ ← sequence read
    refuseFor (if before.contains .unpacked then .afterUnpacked else .afterNamed)]

/-- The arguments of a call, as a call of nothing. -/
def arguments : Reader Expression := first [
  do
    let found ← sequence read
    let _ ← optional (mark ",")
    ahead (mark ")")
    return .call (.name []) found,
  do
    let found ← explaining (explain read)
    return .call (.name []) found]

/-- A call of a function, of which the arguments follow: a generator, or any in parentheses. -/
def ofFunction (function : Expression) : Reader Expression := first [
  do
    let _ ← generator read
    return .call function [.positional],
  do
    mark "("
    let found ← optional (read .arguments)
    mark ")"
    match found with
    | some (.call _ found) => return .call function found
    | _ => return .call function []]

end ProtoSchema.Expression.Call
