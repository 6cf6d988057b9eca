import ProtoSchema.Expression.Reader

/-!
# Parentheses and braces

Parentheses hold a single expression, a tuple or a comprehension; braces hold a set, a dictionary or
a comprehension of either. A comprehension draws values from a source, assigns each to targets and may
test it. The larger rules are given by `read`.
-/

namespace ProtoSchema.Expression.Comprehension

open Reader

variable (read : Rule → Reader Expression)

/-- Expressions with commas between, some of which may have a star before them. Several of them, or
one with a comma behind it, are a tuple. -/
def starExpressions : Reader Expression := first [
  do
    let e ← read .starExpression
    let others ← oneOrMore do mark ","; read .starExpression
    let _ ← optional (mark ",")
    return .tuple (e :: others),
  do
    let e ← read .starExpression
    mark ","
    return .tuple [e],
  read .starExpression]

/-- The targets of an assignment, with commas between. -/
def targets : Reader Unit := first [
  do
    let _ ← read .starTarget
    notAhead (mark ","),
  do
    let _ ← list (read .starTarget)
    let _ ← optional (mark ",")]

/-- What follows `for`: targets, the source of their values, and tests. Behind `in` nothing else can
be meant. -/
def clauseBody : Reader Unit := do
  targets read
  mark "in"
  settled do
    let _ ← read .disjunction
    let _ ← many do mark "if"; read .disjunction

/-- Explains to what no value can be assigned. -/
def explainTarget : Reader Unit := do
  let _ ← optional (mark "async")
  mark "for"
  match (← starExpressions read).unassignable? with
  | some e => refuse (.assignment (.target e.description))
  | none => settle

/-- A clause. -/
def clause : Reader Unit := first [
  do mark "async"; mark "for"; clauseBody read,
  do mark "for"; clauseBody read,
  explaining (explainTarget read)]

/-- The clauses of a comprehension. -/
def clauses : Reader Unit := do
  let _ ← oneOrMore (clause read)

end ProtoSchema.Expression.Comprehension

namespace ProtoSchema.Expression.Display

open Reader Comprehension

variable (read : Rule → Reader Expression)

/-- The opening brace. -/
def openBrace : Reader Unit := mark "\x7b"

/-- The closing brace. -/
def closeBrace : Reader Unit := mark "\x7d"

/-- A refusal for a fault of parentheses or braces. -/
def refuseFor {α : Type} (fault : DisplayFault) : Reader α := refuse (.display fault)

/-! ## Items -/

/-- An assignment of a value to a name. Behind its mark nothing else can be meant. -/
def assignment : Reader Expression := first [do
  let _ ← identifier
  mark ":="
  settled do
    let _ ← read .expression
    return .other .named]

/-- An expression that is no target of an assignment. -/
def unassigned : Reader Expression := do
  let e ← read .expression
  notAhead (mark ":=")
  return e

/-- An expression or an assignment of one to a name. -/
def namedExpression : Reader Expression :=
  first [assignment read, explaining (read .misnamed), unassigned read]

/-- An assignment or an expression, which is not explained. -/
def plainItem : Reader Expression := first [assignment read, unassigned read]

/-- An expression with a star before it. -/
def unpackedItem : Reader Expression := do
  mark "*"
  return .starred (← read .expression)

/-- An item of a tuple or a set. -/
def item : Reader Expression := first [
  do mark "*"; return .starred (← read .bitOr),
  namedExpression read]

/-- Items with commas between. -/
def items : Reader (List Expression) := do
  let items ← list (item read)
  let _ ← optional (mark ",")
  return items

/-! ## Comprehensions -/

/-- Explains what is wrong with a comprehension. -/
def explainComprehension : Reader Expression := first [
  do
    first [mark "(", openBrace]
    let _ ← unpackedItem read
    clauses read
    refuseFor .unpackedComprehension,
  do
    openBrace
    let _ ← item read
    mark ","
    let _ ← items read
    clauses read
    refuseFor .bareTarget,
  do
    openBrace
    let _ ← item read
    mark ","
    clauses read
    refuseFor .bareTarget]

/-- A comprehension in parentheses. -/
def generator : Reader Expression := first [
  do
    mark "("
    let _ ← plainItem read
    clauses read
    mark ")"
    return .other .generator,
  explaining (explainComprehension read)]

/-- A comprehension of a set. -/
def setComprehension : Reader Expression := first [
  do
    openBrace
    let _ ← namedExpression read
    clauses read
    closeBrace
    return .other .setComprehension,
  explaining (explainComprehension read)]

/-! ## Parentheses -/

/-- An expression that yields values. -/
def yielding : Reader Expression := first [
  do
    mark "yield"; mark "from"
    let _ ← read .expression
    return .other .yield,
  do
    mark "yield"
    let _ ← optional (starExpressions read)
    return .other .yield]

/-- Explains what is wrong with an expression in parentheses. -/
def explainGroup : Reader Expression := first [
  do
    mark "("
    let _ ← unpackedItem read
    mark ")"
    refuseFor .starredGroup,
  do
    mark "("; mark "**"
    let _ ← read .expression
    mark ")"
    refuseFor .doubleStarredGroup]

/-- An expression in parentheses. -/
def group : Reader Expression := first [
  do
    mark "("
    let e ← first [yielding read, namedExpression read]
    mark ")"
    return e,
  explaining (explainGroup read)]

/-- A tuple in parentheses. -/
def tuple : Reader Expression := do
  mark "("
  let found ← optional do
    let e ← item read
    mark ","
    return e :: (← optional (items read)).getD []
  mark ")"
  return .tuple (found.getD [])

/-! ## Braces -/

/-- A set. -/
def set : Reader Expression := do
  openBrace
  let items ← items read
  closeBrace
  return .set items

/-- An entry with a key. -/
def keyed : Reader (Option Expression × Expression) := do
  let key ← read .expression
  mark ":"
  return (key, ← read .expression)

/-- An entry of a dictionary, or a value whose entries are to be taken over. -/
def entry : Reader (Option Expression × Expression) := first [
  do mark "**"; return (none, ← read .bitOr),
  keyed read]

/-- Explains what is wrong with the value of an entry, of which the key and its colon were read. -/
def explainValue (key : Reader Unit) : List (Reader Unit) := [
  do
    key; mark ":"; mark "*"
    let _ ← read .bitOr
    refuseFor .starredValue,
  do
    key; mark ":"
    ahead (first [closeBrace, mark ","])
    refuseFor .missingValue]

/-- Explains what is wrong with entries: the last one, where others stand before it, or the first.
-/
def explainEntries : Reader Unit :=
  let key : Reader Unit := do let _ ← read .expression
  let others : List (Reader Unit) := explainValue read key
  first (
    (do
      let _ ← list (entry read)
      mark ","
      first ((do key; notAhead (mark ":"); refuseFor .missingColon) :: others)) :: others)

/-- A dictionary. -/
def dict : Reader Expression := first [
  do
    openBrace
    let entries ← optional do
      let entries ← list (entry read)
      let _ ← optional (mark ",")
      return entries
    closeBrace
    return .dict (entries.getD []),
  -- Wrong entries are explained even where other faults are not.
  do
    openBrace
    explainEntries read
    closeBrace
    nothing]

/-- A comprehension of a dictionary. -/
def keyedComprehension : Reader Expression := first [
  do
    openBrace
    let _ ← keyed read
    clauses read
    closeBrace
    return .other .keyedComprehension,
  explaining do
    openBrace; mark "**"
    let _ ← read .bitOr
    clauses read
    closeBrace
    refuseFor .unpackedEntryComprehension]

/-! ## Atoms -/

/-- A constant that is a word or three dots. -/
def word (spelling : String) (constant : Constant) : Reader Expression := do
  mark spelling
  return .constant constant

/-- A numeral. -/
def numeral : Reader Expression := do
  let numeral ← ofKind .numeral
  match Number.tooManyDigits? numeral with
  | some digits => refuse (.longNumeral digits)
  | none => return .constant (.number (.ofNumeral numeral))

/-- A name, a constant, or what stands in parentheses or braces. -/
def atom : Reader Expression := first [
  .name <$> identifier,
  word "True" .true,
  word "False" .false,
  word "None" .none,
  read .quotations,
  numeral,
  do ahead (mark "("); first [tuple read, group read, generator read],
  do
    ahead openBrace
    first [dict read, set read, keyedComprehension read, setComprehension read],
  word "..." .ellipsis]

end ProtoSchema.Expression.Display
