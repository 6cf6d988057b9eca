import ProtoSchema.Expression.Fault

/-!
# Quotations with expressions in them

An expression stands between braces in the text of such a quotation, perhaps with a letter for its
conversion behind an exclamation mark, and with a format behind a colon that may hold expressions in
turn. A brace that is doubled stands for itself.
-/

namespace ProtoSchema.Expression.Template

/-- The text up to a brace or the end. A doubled brace, which there is only outside of formats, ends
it too and leaves one brace in it. -/
structure Literal where
  text : List Char
  rest : List Char
  endsDoubled : Bool
  deriving DecidableEq, Repr

/-- What comes of a brace behind the text `read`, which is in reverse. -/
def Literal.atBrace (inFormat : Bool) (read rest : List Char) : Except TemplateFault Literal :=
  let doubled := rest.take 2
  if ¬ inFormat ∧ (doubled = ['\x7b', '\x7b'] ∨ doubled = ['\x7d', '\x7d']) then
    .ok ⟨(doubled.take 1 ++ read).reverse, rest.drop 2, true⟩
  else if ¬ inFormat ∧ rest.head? = some '\x7d' then .error .loneBrace
  else .ok ⟨read.reverse, rest, false⟩

/-- How many characters a backslash takes with it, of those behind it: one that is no brace, and for
the letter `N` the name in braces behind it, or else one more character. -/
def escapeLength (rest : List Char) : Nat :=
  match rest with
  | 'N' :: '\x7b' :: spelling => (spelling.takeWhile (· ≠ '\x7d')).length + 3
  | 'N' :: _ => 2
  | c :: _ => if c = '\x7b' ∨ c = '\x7d' then 0 else 1
  | [] => 0

/-- The text up to a brace or the end, behind the text `read`, which is in reverse. -/
def literal (raw inFormat : Bool) (read : List Char) : List Char → Except TemplateFault Literal
  | [] => .ok ⟨read.reverse, [], false⟩
  | c :: rest =>
    if c = '\x7b' ∨ c = '\x7d' then Literal.atBrace inFormat read (c :: rest)
    else if ¬ raw ∧ c = '\\' then
      let length := escapeLength rest
      if length = 0 ∧ rest ≠ [] then Literal.atBrace inFormat (c :: read) rest
      else literal raw inFormat ((rest.take length).reverse ++ c :: read) (rest.drop length)
    else literal raw inFormat (c :: read) rest
  termination_by text => text.length
  decreasing_by all_goals (simp only [List.length_cons, List.length_drop]; omega)

/-- The expression behind a brace, and what follows it: the first mark outside of quotations and
brackets that no expression holds, or the end. The brackets that are open and a quotation mark, if
there is one, with whether it is tripled, say where one is; `read` is in reverse. -/
def expression (quote : Option (Char × Bool)) (brackets read : List Char) :
    List Char → Except TemplateFault (List Char × List Char)
  | [] =>
    match quote, brackets with
    | some _, _ => .error .openQuotation
    | none, opening :: _ => .error (.unmatched opening)
    | none, [] => .ok (read.reverse, [])
  | c :: rest =>
    let go (quote : Option (Char × Bool)) (brackets : List Char) (more : Nat) :=
      expression quote brackets ((rest.take more).reverse ++ c :: read) (rest.drop more)
    if c = '\\' then .error .backslash
    else
      match quote with
      | some (mark, long) =>
        if c ≠ mark then go quote brackets 0
        else if ¬ long then go none brackets 0
        else if [c, c].isPrefixOf rest then go none brackets 2
        else go quote brackets 0
      | none =>
        if c = '\'' ∨ c = '"' then
          let long := [c, c].isPrefixOf rest
          go (some (c, long)) brackets (if long then 2 else 0)
        else if c = '(' ∨ c = '[' ∨ c = '\x7b' then
          if 200 ≤ brackets.length then .error .tooManyBrackets else go none (c :: brackets) 0
        else if c = '#' then .error .comment
        else if brackets = [] ∧ ['!', ':', '\x7d', '=', '<', '>'].contains c then
          if ['!', '=', '<', '>'].contains c ∧ rest.head? = some '=' then go none [] 1
          else if c = '<' ∨ c = '>' then go none [] 0
          else .ok (read.reverse, c :: rest)
        else if c = ')' ∨ c = ']' ∨ c = '\x7d' then
          match brackets with
          | [] => .error (.unmatched c)
          | opening :: outer =>
            if [('(', ')'), ('[', ']'), ('\x7b', '\x7d')].contains (opening, c) then go none outer 0
            else .error (.mismatched c opening)
        else go none brackets 0
  termination_by text => text.length
  decreasing_by all_goals (simp only [List.length_cons, List.length_drop]; omega)

/-- Reads the expression behind a brace and its conversion, and gives what follows them. -/
def field (read : List Char → Except Fault Unit) (text : List Char) :
    Except Fault (List Char) := do
  let (inside, rest) ← (expression none [] [] text).mapError .template
  let some mark := rest.head? | throw (.template .unfinished)
  if inside.all fun c => c = ' ' ∨ c = '\t' ∨ c = '\n' ∨ c = '\x0c' then
    throw (.template (if mark = '\x7d' then .empty else .emptyBefore mark))
  read inside
  let rest := if mark = '=' then (rest.drop 1).dropWhile isPlainBlank else rest
  match rest with
  | '!' :: conversion :: rest =>
    if ['s', 'r', 'a'].contains conversion then return rest
    else throw (.template .badConversion)
  | ['!'] => throw (.template .unfinished)
  | rest => return rest

/-- Checks the text of a quotation, or of a format in it, and gives what follows it. The expressions
are read by `read`; `depth` counts the formats around. -/
def check (raw : Bool) (read : List Char → Except Fault Unit) (depth : Nat) :
    Nat → List Char → Except Fault (List Char)
  | 0, text => .ok text
  | fuel + 1, text => do
    let part ← (literal raw (0 < depth) [] text).mapError .template
    if ¬ raw then (Quotation.checkText part.text).mapError .quotation
    if part.endsDoubled then check raw read depth fuel part.rest
    else
      match part.rest with
      | '\x7b' :: inside =>
        if 2 ≤ depth then throw (.template .tooDeep)
        let rest ← field read inside
        let rest ←
          match rest with
          | [':'] => throw (.template .unfinished)
          | ':' :: format => check raw read (depth + 1) fuel format
          | rest => pure rest
        if rest.head? ≠ some '\x7d' then throw (.template .unfinished)
        check raw read depth fuel (rest.drop 1)
      | rest =>
        if 0 < depth ∧ rest.head? ≠ some '\x7d' then throw (.template .unfinished)
        return rest

end ProtoSchema.Expression.Template
