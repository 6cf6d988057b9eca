import ProtoSchema.Expression.Call
import ProtoSchema.Expression.Parameters
import ProtoSchema.Expression.Template

/-!
# Rules of expressions

The larger rules of expressions, from those that bind least to those that bind most. `read` reads by
a rule, and `readInside` the expressions in a quotation.
-/

namespace ProtoSchema.Expression.Rules

open Reader Comprehension Display

variable (read : Rule → Reader Expression)

/-! ## Least binding -/

/-- A choice between two expressions. -/
def conditional : Reader Expression := do
  let _ ← read .disjunction
  mark "if"
  let _ ← read .disjunction
  mark "else"
  let _ ← read .expression
  return .other .conditional

/-- A function without a name. -/
def lambda : Reader Expression := do
  mark "lambda"
  let _ ← optional (Parameters.all (read .expression))
  mark ":"
  let _ ← read .expression
  return .other .lambda

/-- The words that were the first ones of statements. -/
def isStatement (word : List Char) : Bool := word = "print".toList ∨ word = "exec".toList

/-- Whether a word is a keyword only at some places, or the beginning of one. -/
def beginsSoftKeyword (word : List Char) : Bool :=
  ["_", "case", "match"].any fun keyword => word.isPrefixOf keyword.toList

/-- What must not follow for two expressions to be taken for neighbours: letters that are written
before a quotation in vain, and words that may become keywords. -/
def noNeighbours : Reader Unit := first [
  do
    let _ ← identifier
    let _ ← ofKind .quotation,
  do
    if beginsSoftKeyword (← identifier) then return () else nothing]

/-- Explains what is wrong where an expression should be. -/
def explain : Reader Expression := first [
  do
    notAhead noNeighbours
    let e ← read .disjunction
    let _ ← silently (first [conditional read, read .disjunction, lambda read])
    let follows : Bool :=
      match e with
      | .name word => isStatement word
      | _ => false
    if follows ∨ (← depth) = 0 then settle else refuse .missingComma,
  do
    let _ ← read .disjunction
    mark "if"
    let _ ← read .disjunction
    notAhead (first [mark "else", mark ":"])
    refuse .missingElse]

/-- Explains what follows a word that was the first one of a statement. -/
def explainStatement : Reader Expression := do
  let word ← identifier
  notAhead (mark "(")
  let _ ← starExpressions read
  if isStatement word then refuse (.missingParentheses word) else settle

/-- An expression. -/
def expression : Reader Expression := first [
  explaining (explain read),
  explaining (first [explainStatement read]),
  conditional read,
  read .disjunction,
  lambda read]

/-- An expression, perhaps with a star before it. -/
def starExpression : Reader Expression := first [
  do mark "*"; return .starred (← read .bitOr),
  read .expression]

/-- The marks of assignments. -/
def anyAssignment : Reader Unit := first [mark "=", mark ":="]

/-- Explains what is wrong with an assignment within an expression. -/
def misnamed : Reader Expression := first [
  do
    let e ← read .expression
    mark ":="
    let _ ← read .expression
    refuse (.assignment (.namedTarget e.description)),
  do
    let _ ← identifier
    mark "="
    let _ ← read .bitOr
    notAhead anyAssignment
    refuse (.assignment .equalsSign),
  do
    notAhead (first [Display.tuple read, generator read,
      word "True" .true, word "None" .none, word "False" .false])
    let e ← read .bitOr
    mark "="
    let _ ← read .bitOr
    notAhead anyAssignment
    refuse (.assignment (.targetHere e.description))]

/-! ## Operations -/

/-- Operands with a word between them, or a single one. -/
def joined (spelling : String) (operand : Reader Expression) : Reader Expression := first [
  do
    let _ ← operand
    let _ ← oneOrMore do mark spelling; operand
    return .other .operation,
  operand]

/-- A negated expression, or a comparison. The first sign of it tells whether it is a membership. -/
def inversion : Reader Expression := first [
  do
    mark "not"
    let _ ← read .inversion
    return .other .operation,
  do
    let left ← read .bitOr
    let isMembership :: _ ← oneOrMore comparison | nothing
    return .comparison left isMembership,
  read .bitOr]
where
  /-- A sign of comparison and what follows it. -/
  comparison : Reader Bool := do
    let isMembership ← first [
      do first (["==", "!=", "<=", "<", ">=", ">"].map mark); return false,
      do mark "not"; mark "in"; return false,
      do mark "in"; return true,
      do mark "is"; mark "not"; return false,
      do mark "is"; return false]
    let _ ← read .bitOr
    return isMembership

/-- Operands with marks between them, which are grouped from the left, or a single one. -/
def chain (spellings : List String) (operand : Reader Expression)
    (join : Expression → Expression → Expression) : Reader Expression := do
  let left ← operand
  iterate (fun left => do
    first (spellings.map mark)
    return join left (← operand)) left

/-- An operation that no number can come of. -/
def operation (_ _ : Expression) : Expression := .other .operation

/-- A number with a sign, an expression with one, or a power. -/
def factor : Reader Expression := first [
  do first [mark "+", mark "-"]; return .signed (← read .factor),
  do
    mark "~"
    let _ ← read .factor
    return .other .operation,
  do
    let _ ← read .awaited
    mark "**"
    let _ ← read .factor
    return .other .operation,
  read .awaited]

/-- An expression that is waited for, or not. -/
def awaited : Reader Expression := first [
  do
    mark "await"
    let _ ← read .primary
    return .other .await,
  read .primary]

/-- An atom with members and calls behind it. -/
def primary : Reader Expression := do
  let e ← atom read
  iterate (fun e => first [
    do
      mark "."
      let _ ← identifier
      return .other .member,
    Call.ofFunction read e]) e

/-- Quotations that follow each other. All of them stand for text, or all for bytes. -/
def quotations (readInside : List Char → Except Fault Unit) : Reader Expression := do
  let quotations := (← oneOrMore (ofKind .quotation)).map Quotation.ofToken
  let isBytes := quotations.head?.any Quotation.isBytes
  let check (q : Quotation) : Except Fault Unit := do
    if ¬ q.isTemplate then q.check.mapError .quotation
    if q.isBytes ≠ isBytes then throw (.quotation .mixed)
    if q.isTemplate then
      let _ ← Template.check q.isRaw readInside 0 (q.body.length + 1) q.body
  match quotations.forM check with
  | .error fault => refuse fault
  | .ok () =>
    if quotations.any Quotation.isTemplate then return .other .template
    else return .constant (if isBytes then .bytes else .text)

/-! ## Targets -/

/-- What follows where a target goes on. -/
def continued : Reader Unit := first [mark "(", mark "."]

/-- The part of a target before its last member. -/
def targetPrimary : Reader Expression := do
  let e ← atom read
  ahead continued
  iterate (fun e => first [
    do
      mark "."
      let _ ← identifier
      ahead continued
      return .other .member,
    do
      let call ← Call.ofFunction read e
      ahead continued
      return call]) e

/-- A target: a member, a name, or targets in parentheses. -/
def target : Reader Expression := first [
  do
    let _ ← read .targetPrimary
    mark "."
    let _ ← identifier
    notAhead continued
    return .other .member,
  .name <$> identifier,
  do
    mark "("
    let e ← read .target
    mark ")"
    return e,
  do
    mark "("
    let _ ← optional targetList
    mark ")"
    return .tuple []]
where
  /-- Several targets, or one with a comma behind it. -/
  targetList : Reader Unit := first [
    do
      let _ ← read .starTarget
      let _ ← oneOrMore do mark ","; read .starTarget
      let _ ← optional (mark ","),
    do
      let _ ← read .starTarget
      mark ","]

/-- A target, perhaps with a star before it. -/
def starTarget : Reader Expression := first [
  do
    mark "*"
    notAhead (mark "*")
    return .starred (← read .starTarget),
  read .target]

/-! ## All rules -/

/-- What a rule reads. -/
def body (readInside : List Char → Except Fault Unit) : Rule → Reader Expression
  | .expression => expression read
  | .starExpression => starExpression read
  | .misnamed => misnamed read
  | .disjunction => joined "or" (read .conjunction)
  | .conjunction => joined "and" (read .inversion)
  | .inversion => inversion read
  | .bitOr => chain ["|"] (read .bitXor) operation
  | .bitXor => chain ["^"] (read .bitAnd) operation
  | .bitAnd => chain ["&"] (read .shift) operation
  | .shift => chain ["<<", ">>"] (read .sum) operation
  | .sum => chain ["+", "-"] (read .term) .sum
  | .term => chain ["*", "/", "//", "%", "@"] (read .factor) operation
  | .factor => factor read
  | .awaited => awaited read
  | .primary => primary read
  | .arguments => Call.arguments read
  | .quotations => quotations readInside
  | .target => target read
  | .starTarget => starTarget read
  | .targetPrimary => targetPrimary read

end ProtoSchema.Expression.Rules
