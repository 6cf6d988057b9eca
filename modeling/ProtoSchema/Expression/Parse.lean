import ProtoSchema.Expression.Lexer
import ProtoSchema.Expression.Rules
import ProtoSchema.Text.Blank

/-!
# Parsing an expression

A text is read by the rules of the language. Where they find nothing, it is read again, now also by
the rules that explain what is wrong. A fault in a token behind the place where this ends comes
before all else that is wrong.
-/

namespace ProtoSchema.Expression

namespace Reader

/-- Reads by a rule. The steps are counted down; with none left nothing is found. -/
def byRule (readInside : List Char → Except Fault Unit) : Nat → Rule → Reader Expression
  | 0, _ => nothing
  | steps + 1, rule => remembered rule (Rules.body (byRule readInside steps) readInside rule)

/-- Reads a whole text: one expression, or several with commas between, which are a tuple. -/
def whole (read : Rule → Reader Expression) : Reader Expression := do
  let e ← first [
    do
      let e ← read .expression
      let others ← oneOrMore do mark ","; read .expression
      let _ ← optional (mark ",")
      return .tuple (e :: others),
    do
      let e ← read .expression
      mark ","
      return .tuple [e],
    read .expression]
  let _ ← many (ofKind .lineEnd)
  let _ ← ofKind .finish
  return e

end Reader

namespace Source

/-- The fault that stops the reading of tokens behind the last one that was asked for. One that is
quiet is not told, but an open bracket is if the last token stands on a later line. -/
def faultBehind? (source : Source) (last : Option Token) : Option Fault := do
  let stop ← source.stop?
  if stop.fault.isQuiet then
    let bracket ← stop.brackets.head?
    if bracket.line < (← last).line then some (.token (.neverClosed bracket.mark)) else none
  else some (.token stop.fault)

/-- The fault to be told where reading refused a text for one and asked for so many tokens. What
lies behind them is looked at, unless the end was seen already. -/
def refusal (source : Source) (fault : Fault) (reached : Nat) : Fault :=
  let last := source.tokens[reached - 1]?
  if source.tokens.size < reached ∨ last.any Token.meetsEnd then fault
  else (source.faultBehind? last).getD fault

/-- The fault of a text for which no reason was found. The first reading asked for `first` tokens
and the second one for `reached`. -/
def unexplained (source : Source) (first reached : Nat) : Fault :=
  match source.tokens[first - 1]?.map Token.kind with
  | some .indent => .indented
  | some .dedent => .dedented
  | _ => (source.faultBehind? source.tokens[reached - 1]?).getD .general

/-- Reads a text, and once more for an explanation if nothing is found. -/
def read {α : Type} (source : Source) (reader : Reader α) : Except Fault α :=
  let memories := Array.replicate (source.tokens.size + 1) []
  match reader source ⟨0, 0, false, memories⟩ with
  | .found value _ => .ok value
  | .refused fault p => .error (source.refusal fault p.reached)
  | .nothing _ p =>
    -- What the first reading remembered does not hold for the rules that explain.
    match reader source ⟨0, p.reached, true, memories⟩ with
    | .found value _ => .ok value
    | .refused fault q => .error (source.refusal fault q.reached)
    | .nothing _ q => .error (source.unexplained p.reached q.reached)

/-- How many steps reading takes at most. Between two tokens there are no more than as many as there
are rules. -/
def steps (source : Source) : Nat := 32 * (source.tokens.size + 1)

end Source

/-- Reads an expression in a quotation, as if it stood in parentheses. Expressions in the quotations
in it are read in turn; those are shorter, so that the depth is less than the length. -/
def readInside : Nat → List Char → Except Fault Unit
  | 0, _ => .ok ()
  | depth + 1, text =>
    let source := Source.ofText ('(' :: text ++ [')', '\n'])
    let reader := Comprehension.starExpressions (Reader.byRule (readInside depth) source.steps)
    match source.read reader with
    | .ok _ => .ok ()
    | .error fault => .error fault.withinTemplate

/-- The expression that a text spells. -/
def ofText (text : List Char) : Except Fault Expression :=
  let source := Source.ofText (unifyLineEnds text)
  source.read (Reader.whole (Reader.byRule (readInside text.length) source.steps))

end ProtoSchema.Expression
