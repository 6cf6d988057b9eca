import ProtoSchema.Expression.Numeral
import ProtoSchema.Text.Identifier

/-!
# Reading the tokens of an expression

Reading goes on token by token. At the beginning of a line that holds more than a comment, its
indentation is compared with those of the lines around it, unless a bracket is open. A backslash at
the end of a line joins it with the next one.
-/

namespace ProtoSchema.Expression

/-- How far a line is indented: in columns with a tab stop at every eighth one, and in columns with
a tab taken as a single one. -/
structure Indentation where
  wide : Nat
  narrow : Nat
  deriving DecidableEq, Repr

/-- The unread part of a text, its line, the brackets that are open and the indentations of the
lines around, the innermost ones first. -/
structure Cursor where
  rest : List Char
  line : Nat
  brackets : List Bracket
  indentations : List Indentation
  beginsLine : Bool
  deriving DecidableEq, Repr

namespace Cursor

/-- The beginning of a text. -/
def ofText (text : List Char) : Cursor := ⟨text, 1, [], [], true⟩

/-- What follows the first so many characters, none of which ends a line. -/
def skip (c : Cursor) (count : Nat) : Cursor := { c with rest := c.rest.drop count }

/-- A stop at a fault. -/
def stop (c : Cursor) (fault : TokenFault) : Stop := ⟨fault, c.brackets⟩

/-- The stop at the end of the text, where a token has to follow. -/
def endStop (c : Cursor) : Stop :=
  c.stop <|
    match c.brackets with
    | [] => .endAfterBackslash
    | bracket :: _ => .neverClosed bracket.mark

/-- The cursor behind a backslash and the line end that follows it. -/
def nextLine (c : Cursor) : Except Stop Cursor :=
  match c.rest with
  | '\\' :: '\n' :: [] => .error c.endStop
  | '\\' :: '\n' :: rest => .ok { c with rest, line := c.line + 1 }
  | _ => .error (c.stop .strayBackslash)

/-- The token that the first so many characters make, and the cursor behind it. -/
def take (c : Cursor) (kind : TokenKind) (count : Nat) : Token × Cursor :=
  let next := c.skip count
  (⟨kind, c.rest.take count, c.line, c.brackets.length, next.rest.isEmpty⟩, next)

/-- A token without characters. -/
def mark (c : Cursor) (kind : TokenKind) : Token := ⟨kind, [], c.line, c.brackets.length, false⟩

end Cursor

namespace Lexer

/-! ## Indentation -/

/-- There may be this many indentations within each other, the one of the text included. -/
def maxIndentations : Nat := 100

/-- The cursor behind the blanks at the beginning of a line, and how far they indent it. Where lines
are joined, the blanks before the first backslash count. -/
def indentation (here : Indentation) (joined : Nat) (c : Cursor) :
    Nat → Except Stop (Indentation × Cursor)
  | 0 => .ok (here, c)
  | fuel + 1 =>
    match c.rest with
    | ' ' :: _ => indentation ⟨here.wide + 1, here.narrow + 1⟩ joined (c.skip 1) fuel
    | '\t' :: _ =>
      indentation ⟨(here.wide / 8 + 1) * 8, here.narrow + 1⟩ joined (c.skip 1) fuel
    | '\x0c' :: _ => indentation ⟨0, 0⟩ joined (c.skip 1) fuel
    | '\\' :: _ =>
      match c.nextLine with
      | .ok next => indentation here (if joined = 0 then here.wide else joined) next fuel
      | .error stop => .error stop
    | _ => .ok (if joined = 0 then here else ⟨joined, joined⟩, c)

/-- The tokens for an indentation, and the cursor that remembers it. -/
def indent (here : Indentation) (c : Cursor) : Except Stop (List Token × Cursor) :=
  let around := c.indentations.head?.getD ⟨0, 0⟩
  if here.wide = around.wide then
    if here.narrow = around.narrow then .ok ([], c) else .error (c.stop .mixedIndentation)
  else if around.wide < here.wide then
    if maxIndentations ≤ c.indentations.length + 1 then .error (c.stop .tooManyIndentations)
    else if here.narrow ≤ around.narrow then .error (c.stop .mixedIndentation)
    else .ok ([c.mark .indent], { c with indentations := here :: c.indentations })
  else
    let left := c.indentations.takeWhile (here.wide < ·.wide)
    let outer := c.indentations.drop left.length
    let around := outer.head?.getD ⟨0, 0⟩
    if here.wide ≠ around.wide then .error (c.stop .looseIndentation)
    else if here.narrow ≠ around.narrow then .error (c.stop .mixedIndentation)
    else .ok (List.replicate left.length (c.mark .dedent), { c with indentations := outer })

/-- The tokens at the beginning of a line, and the cursor behind its indentation. A line that holds
a comment or nothing is skipped. -/
def lineStart (c : Cursor) : Except Stop (List Token × Cursor) := do
  let (here, c) ← indentation ⟨0, 0⟩ 0 c (c.rest.length + 1)
  match c.rest.head? with
  | some '#' | some '\n' =>
    match c.rest.dropWhile (· ≠ '\n') with
    | _ :: rest => return ([], { c with rest, line := c.line + 1 })
    | [] => return ([], { c with rest := [], beginsLine := false })
  | _ =>
    let c := { c with beginsLine := false }
    if c.brackets = [] then indent here c else return ([], c)

/-! ## Names, quotations and marks -/

/-- The words that are no names. -/
def keywords : List String := ["False", "None", "True", "and", "as", "assert", "async", "await",
  "break", "class", "continue", "def", "del", "elif", "else", "except", "finally", "for", "from",
  "global", "if", "import", "in", "is", "lambda", "nonlocal", "not", "or", "pass", "raise",
  "return", "try", "while", "with", "yield"]

/-- The first character that cannot stand where it does in a name. -/
def badCharacter? : List Char → Option Char
  | [] => none
  | c :: rest => if beginsIdentifier c then rest.find? (¬ extendsIdentifier ·) else some c

/-- Reads a name or a keyword. -/
def word (c : Cursor) : Except Stop (Token × Cursor) :=
  let spelling := c.rest.takeWhile isOfName
  match badCharacter? spelling with
  | some bad => .error (c.stop (.badCharacter bad))
  | none =>
    let kind := if keywords.contains (String.ofList spelling) then .keyword else .name
    .ok (c.take kind spelling.length)

/-- How many letters stand before the quotation mark of a quotation with which the text begins. -/
def quotationPrefix? (text : List Char) : Option Nat :=
  let isQuote (c : Char) : Bool := c = '\'' ∨ c = '"'
  let letters := (text.take 2).takeWhile fun c => ¬ isQuote c
  let isPrefix := ["", "b", "f", "r", "u", "br", "fr", "rb", "rf"].contains
    (String.ofList (letters.map Char.toLower))
  if isPrefix ∧ (text.drop letters.length).head?.any isQuote then some letters.length else none

/-- The text behind the closing quotation mark, which is three of them for a long quotation, or the
text at which the quotation breaks off. A character behind a backslash closes nothing. -/
def afterQuotation (quote : Char) (long : Bool) : List Char → Except (List Char) (List Char)
  | [] => .error []
  | ['\\'] => .error []
  | '\\' :: _ :: rest => afterQuotation quote long rest
  | c :: rest =>
    if c = quote then
      if ¬ long then .ok rest
      else if [quote, quote].isPrefixOf rest then .ok (rest.drop 2)
      else afterQuotation quote long rest
    else if c = '\n' ∧ ¬ long then .error (c :: rest)
    else afterQuotation quote long rest

/-- The line on which the last of some characters stands. -/
def lastLine (line : Nat) (read rest : List Char) : Nat :=
  let line := line + read.count '\n'
  if rest.isEmpty ∧ read.getLast? = some '\n' then line - 1 else line

/-- Reads a quotation that has so many letters before its quotation mark. -/
def quotation (c : Cursor) (letters : Nat) : Except Stop (Token × Cursor) :=
  match c.rest.drop letters with
  | [] => .error c.endStop
  | quote :: body =>
    let long := [quote, quote].isPrefixOf body
    let empty := ¬ long ∧ body.head? = some quote
    let inside := if long then body.drop 2 else body
    match afterQuotation quote long inside with
    | .ok rest =>
      let (token, next) := c.take .quotation (c.rest.length - rest.length)
      .ok ({ token with meetsEnd := empty && token.meetsEnd },
        { next with line := next.line + token.text.count '\n' })
    | .error rest =>
      let line := lastLine c.line (inside.take (inside.length - rest.length)) rest
      .error (c.stop (if long then .openLongQuotation line else .openQuotation line))

/-- The marks of more than one character, the longer ones first. -/
def longMarks : List String := ["**=", "...", "//=", "<<=", ">>=", "!=", "%=", "&=", "**", "*=",
  "+=", "-=", "->", "//", "/=", ":=", "<<", "<=", "<>", "==", ">=", ">>", "@=", "^=", "|="]

/-- The bracket that closes another one. -/
def closing? : Char → Option Char
  | '(' => some ')'
  | '[' => some ']'
  | '\x7b' => some '\x7d'
  | _ => none

/-- So many brackets may be open at once. -/
def maxBrackets : Nat := 200

/-- The brackets that are open behind a mark. -/
def bracketsBehind (c : Cursor) (mark : Char) : Except TokenFault (List Bracket) :=
  if (closing? mark).isSome then
    if maxBrackets ≤ c.brackets.length then .error .tooManyBrackets
    else .ok (⟨mark, c.line⟩ :: c.brackets)
  else if mark = ')' ∨ mark = ']' ∨ mark = '\x7d' then
    match c.brackets with
    | [] => .error (.unmatched mark)
    | opening :: outer =>
      if closing? opening.mark = some mark then .ok outer
      else .error (.mismatched mark opening c.line)
  else .ok c.brackets

/-- Reads a mark. No mark has more than three characters. -/
def mark (c : Cursor) (first : Char) : Except Stop (Token × Cursor) :=
  match longMarks.find? (·.toList.isPrefixOf c.rest) with
  | some spelling =>
    let (token, next) := c.take .mark spelling.length
    .ok ({ token with meetsEnd := token.meetsEnd && spelling.length < 3 }, next)
  | none =>
    match bracketsBehind c first with
    | .error fault => .error (c.stop fault)
    | .ok brackets =>
      if isPrintable first then .ok ({ c with brackets }.take .mark 1)
      else .error (c.stop (.badCharacter first))

/-! ## Tokens -/

/-- The text behind blanks and a comment. -/
def skipBlanks (text : List Char) : List Char :=
  let text := text.dropWhile fun c => c = ' ' ∨ c = '\t' ∨ c = '\x0c'
  if text.head? = some '#' then text.dropWhile (· ≠ '\n') else text

/-- Reads the tokens at a cursor that are to be read together: those for an indentation or a single
one, or none where a line end does not count. The cursor behind them is missing at the end. -/
def step (c : Cursor) : Except Stop (List Token × Option Cursor) :=
  if c.beginsLine then (lineStart c).map fun (tokens, next) => (tokens, some next)
  else
    let c := { c with rest := skipBlanks c.rest }
    let one (read : Except Stop (Token × Cursor)) : Except Stop (List Token × Option Cursor) :=
      read.map fun (token, next) => ([token], some next)
    match c.rest with
    | [] => if c.brackets = [] then .ok ([c.mark .finish], none) else .error c.endStop
    | '\n' :: rest =>
      let next := { c with rest, line := c.line + 1, beginsLine := true }
      -- Between brackets the line goes on.
      .ok (if c.brackets = [] then [c.mark .lineEnd] else [], some next)
    | '\\' :: _ => c.nextLine.map fun next => ([], some next)
    | first :: rest =>
      match quotationPrefix? c.rest with
      | some letters => one (quotation c letters)
      | none =>
        if first.isDigit ∨ (first = '.' ∧ rest.head?.any Char.isDigit) then
          match Number.after c.rest with
          | .ok rest => one (.ok (c.take .numeral (c.rest.length - rest.length)))
          | .error fault => .error (c.stop fault)
        else if isOfName first then one (word c)
        else one (mark c first)

/-- The tokens of a text, with the given ones before them. -/
def readFrom (tokens : Array Token) (c : Cursor) : Nat → Source
  | 0 => ⟨tokens, none⟩
  | fuel + 1 =>
    match step c with
    | .error stop => ⟨tokens, some stop⟩
    | .ok (more, none) => ⟨tokens ++ more, none⟩
    | .ok (more, some next) => readFrom (tokens ++ more) next fuel

end Lexer

/-- The tokens of a text. Each step but those for indentations reads a character, and no two steps
for indentations follow each other without a line end. -/
def Source.ofText (text : List Char) : Source :=
  Lexer.readFrom #[] (.ofText text) (2 * text.length + 2)

end ProtoSchema.Expression
