import ProtoSchema.Expression.Token
import ProtoSchema.Literal.Integer

/-!
# Numerals

A numeral is a decimal integer, an integer in base 16, 8 or 2 after its marker, a number with a
point or an exponent, or one of these with the imaginary unit. Single underscores may stand between
digits. Behind a numeral no name may follow directly, but some keywords may.
-/

namespace ProtoSchema.Expression

/-- The value of a numeral, as far as it matters: only the size of integers does. -/
inductive Number
  | integer (n : Nat)
  | real
  | imaginary
  deriving DecidableEq, Repr

/-- Whether a character may stand in a name. Beyond the first 128 characters all are taken to be of
a name before they are looked at more closely. -/
def isOfName (c : Char) : Bool := c.isAlphanum ∨ c = '_' ∨ 128 ≤ c.toNat

namespace Number

/-- Whether the text begins with a keyword that may follow a numeral directly. -/
def endsHere (rest : List Char) : Bool :=
  (["if", "in", "is"].any fun word => word.toList.isPrefixOf rest) ∨
    ["and", "else", "for", "not", "or"].any fun word =>
      word.toList.isPrefixOf rest ∧ ¬ (rest.drop word.length).head?.any isOfName

/-- The text behind a numeral, which has to end there. -/
def ended (sort : NumeralSort) (rest : List Char) : Except TokenFault (List Char) :=
  if rest.head?.any isOfName ∧ ¬ endsHere rest then .error (.badNumeral sort) else .ok rest

/-- The text behind digits with single underscores before them, or the text at which an underscore
stands before no digit. -/
def digits (isDigit : Char → Bool) : List Char → Except (List Char) (List Char)
  | [] => .ok []
  | ['_'] => .error []
  | '_' :: c :: rest => if isDigit c then digits isDigit rest else .error (c :: rest)
  | c :: rest => if isDigit c then digits isDigit rest else .ok (c :: rest)

/-- The text behind decimal digits. -/
def decimals (rest : List Char) : Except TokenFault (List Char) :=
  (digits Char.isDigit rest).mapError fun _ => .badNumeral .decimal

/-- The text behind an integer in another base, of which the marker was read. -/
def marked (sort : NumeralSort) (base : Nat) (rest : List Char) : Except TokenFault (List Char) :=
  let fault (rest : List Char) : TokenFault :=
    match rest.head?.filter fun c => sort ≠ .hexadecimal ∧ c.isDigit with
    | some digit => .badDigit digit sort
    | none => .badNumeral sort
  if rest.head?.any fun c => c = '_' ∨ ProtoSchema.Numeral.isDigit base c then do
    let rest ← (digits (ProtoSchema.Numeral.isDigit base) rest).mapError fault
    if rest.head?.any Char.isDigit then .error (fault rest) else ended sort rest
  else .error (fault rest)

/-- The text behind the imaginary unit, if there is one. -/
def afterUnit : List Char → Except TokenFault (List Char)
  | [] => .ok []
  | c :: rest => if c = 'j' ∨ c = 'J' then ended .imaginary rest else ended .decimal (c :: rest)

/-- The text behind an exponent and the imaginary unit, if there are any. -/
def afterExponent : List Char → Except TokenFault (List Char)
  | [] => .ok []
  | c :: rest =>
    if c = 'e' ∨ c = 'E' then
      if rest.head?.any fun s => s = '+' ∨ s = '-' then
        if (rest.drop 1).head?.any Char.isDigit then decimals (rest.drop 1) >>= afterUnit
        else .error (.badNumeral .decimal)
      else if rest.head?.any Char.isDigit then decimals rest >>= afterUnit
      else ended .decimal (c :: rest)
    else afterUnit (c :: rest)

/-- The text behind digits that stand behind a point, an exponent and the imaginary unit. -/
def afterPoint (rest : List Char) : Except TokenFault (List Char) :=
  if rest.head?.any Char.isDigit then decimals rest >>= afterExponent else afterExponent rest

/-- The text behind a numeral that begins with a digit or with a point before one. -/
def after : List Char → Except TokenFault (List Char)
  | '.' :: rest => afterPoint rest
  | '0' :: 'x' :: rest => marked .hexadecimal 16 rest
  | '0' :: 'X' :: rest => marked .hexadecimal 16 rest
  | '0' :: 'o' :: rest => marked .octal 8 rest
  | '0' :: 'O' :: rest => marked .octal 8 rest
  | '0' :: 'b' :: rest => marked .binary 2 rest
  | '0' :: 'B' :: rest => marked .binary 2 rest
  | text => do
    match ← decimals text with
    | '.' :: rest => afterPoint rest
    | rest =>
      let lexeme := text.take (text.length - rest.length)
      let isZero := lexeme.all fun c => c = '0' ∨ c = '_'
      let isLonger := rest.head?.any fun c => c = 'e' ∨ c = 'E' ∨ c = 'j' ∨ c = 'J'
      if lexeme.head? = some '0' ∧ ¬ isZero ∧ ¬ isLonger then .error .leadingZeros
      else afterExponent rest

/-- An integer may have this many decimal digits. -/
def maxDigits : Nat := 4300

/-- The value of a numeral. -/
def ofNumeral (numeral : List Char) : Number :=
  let numeral := numeral.filter (· ≠ '_')
  match numeral with
  | '0' :: m :: digits =>
    if m = 'x' ∨ m = 'X' then .integer (ProtoSchema.Numeral.value 16 digits)
    else if m = 'o' ∨ m = 'O' then .integer (ProtoSchema.Numeral.value 8 digits)
    else if m = 'b' ∨ m = 'B' then .integer (ProtoSchema.Numeral.value 2 digits)
    else plain numeral
  | _ => plain numeral
where
  /-- The value of a numeral without a marker. -/
  plain (numeral : List Char) : Number :=
    if numeral.all Char.isDigit then .integer (ProtoSchema.Numeral.value 10 numeral)
    else if numeral.getLast?.any fun c => c = 'j' ∨ c = 'J' then .imaginary
    else .real

/-- The number of digits of a decimal integer that has too many. -/
def tooManyDigits? (numeral : List Char) : Option Nat :=
  let numeral := numeral.filter (· ≠ '_')
  if numeral.all Char.isDigit ∧ maxDigits < numeral.length then some numeral.length else none

end Number

end ProtoSchema.Expression
