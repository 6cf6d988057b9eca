import ProtoSchema.Text.Quoted

/-!
# Tokens of an expression

An expression is read as tokens: names, keywords, numerals, quotations, marks, and the ends and
indentations of its lines. Between brackets line ends do not count. This module says what a token
is, and what stops the reading of tokens.
-/

namespace ProtoSchema.Expression

/-- What a token is. -/
inductive TokenKind
  | name
  | keyword
  | mark
  | numeral
  | quotation
  | lineEnd
  | indent
  | dedent
  | finish
  deriving DecidableEq, Repr

/-- A token with the line on which it begins and the number of brackets that are open behind it. -/
structure Token where
  kind : TokenKind
  text : List Char
  line : Nat
  depth : Nat
  /-- Whether one had to look at the end of the text to see where the token ends. -/
  meetsEnd : Bool
  deriving DecidableEq, Repr

/-- A bracket that is open, and its line. -/
structure Bracket where
  mark : Char
  line : Nat
  deriving DecidableEq, Repr

/-- The sorts of numerals. -/
inductive NumeralSort
  | decimal
  | hexadecimal
  | octal
  | binary
  | imaginary
  deriving DecidableEq, Repr

/-- The word for a sort of numerals. -/
def NumeralSort.word : NumeralSort → String
  | decimal => "decimal"
  | hexadecimal => "hexadecimal"
  | octal => "octal"
  | binary => "binary"
  | imaginary => "imaginary"

/-- Why no token can be read. -/
inductive TokenFault
  | badNumeral (sort : NumeralSort)
  | badDigit (digit : Char) (sort : NumeralSort)
  | leadingZeros
  | badCharacter (c : Char)
  | openQuotation (line : Nat)
  | openLongQuotation (line : Nat)
  | unmatched (bracket : Char)
  | mismatched (closing : Char) (opening : Bracket) (line : Nat)
  | tooManyBrackets
  | neverClosed (bracket : Char)
  | endAfterBackslash
  | strayBackslash
  | mixedIndentation
  | tooManyIndentations
  | looseIndentation
  deriving DecidableEq, Repr

/-- The wording of a fault. -/
def TokenFault.message : TokenFault → String
  | badNumeral sort => s!"invalid {sort.word} literal"
  | badDigit digit sort => s!"invalid digit '{digit}' in {sort.word} literal"
  | leadingZeros => "leading zeros in decimal integer literals are not permitted; " ++
      "use an 0o prefix for octal integers"
  | badCharacter c =>
    let digits := (Nat.toDigits 16 c.toNat).map Char.toUpper
    let code := String.ofList (List.replicate (4 - digits.length) '0' ++ digits)
    if isPrintable c then s!"invalid character '{c}' (U+{code})"
    else s!"invalid non-printable character U+{code}"
  | openQuotation line => s!"unterminated string literal (detected at line {line})"
  | openLongQuotation line =>
    s!"unterminated triple-quoted string literal (detected at line {line})"
  | unmatched bracket => s!"unmatched '{bracket}'"
  | mismatched closing opening line =>
    s!"closing parenthesis '{closing}' does not match opening parenthesis '{opening.mark}'" ++
      if opening.line = line then "" else s!" on line {opening.line}"
  | tooManyBrackets => "too many nested parentheses"
  | neverClosed bracket => s!"'{bracket}' was never closed"
  | endAfterBackslash => "unexpected EOF while parsing"
  | strayBackslash => "unexpected character after line continuation character"
  | mixedIndentation => "inconsistent use of tabs and spaces in indentation"
  | tooManyIndentations => "too many levels of indentation"
  | looseIndentation => "unindent does not match any outer indentation level"

/-- Whether a fault matters only where the token is needed. -/
def TokenFault.isQuiet : TokenFault → Bool
  | neverClosed _ | endAfterBackslash | strayBackslash => true
  | mixedIndentation | tooManyIndentations | looseIndentation => true
  | _ => false

/-- What stops the reading of tokens: a fault, and the brackets that are open there. -/
structure Stop where
  fault : TokenFault
  brackets : List Bracket
  deriving DecidableEq, Repr

/-- The tokens of a text, up to what stops their reading. -/
structure Source where
  tokens : Array Token
  stop? : Option Stop
  deriving Repr

end ProtoSchema.Expression
