import ProtoSchema.Literal.Integer
import ProtoSchema.Text.Utf8

/-!
# String literals

What stands between the delimiters of a string literal denotes bytes: an escape its own byte or the
bytes of a code point, any other character its UTF-8 bytes. Bytes are written between double quotes:
the quote and the backslash are escaped, printable ASCII stands for itself, and every other byte is
written as three octal digits.
-/

namespace ProtoSchema

/-- Why a string literal denotes nothing. -/
inductive EscapeError
  /-- No hexadecimal digit follows `\x`. -/
  | missingHex
  /-- Too few hexadecimal digits follow the given letter. -/
  | shortCodePoint (letter : Char) (width : Nat)
  /-- The digits exceed the last code point. -/
  | beyondCodePoints (letter : Char) (digits : List Char)
  /-- No escape has this letter. -/
  | unknown (letter : Char)
  /-- The literal ends in a backslash. -/
  | unfinished
  deriving DecidableEq, Repr

/-- The wording for a bad escape. -/
def EscapeError.message : EscapeError → String
  | .missingHex => "\\x must be followed by hex digits"
  | .shortCodePoint letter width => s!"\\{letter} must be followed by {width} hex digits"
  | .beyondCodePoints letter digits =>
    s!"\\{letter}" ++ String.ofList digits ++ " is not a valid code point"
  | .unknown letter => s!"Invalid escape sequence \\{letter}"
  | .unfinished => "string index out of range"

namespace Escape

/-- The byte of an escape of one letter. -/
def simple? : Char → Option UInt8
  | 'a' => some 0x07
  | 'b' => some 0x08
  | 'f' => some 0x0C
  | 'n' => some 0x0A
  | 'r' => some 0x0D
  | 't' => some 0x09
  | 'v' => some 0x0B
  | '\\' => some 0x5C
  | '\'' => some 0x27
  | '"' => some 0x22
  | '?' => some 0x3F
  | _ => none

/-- The digits below `base` at the front of a text, at most `limit` of them. -/
def leadingDigits (base limit : Nat) (cs : List Char) : List Char :=
  (cs.take limit).takeWhile (Numeral.isDigit base)

/-- The bytes of the escape with the given letter, and how many further characters belong to it. -/
def read (letter : Char) (rest : List Char) : Except EscapeError (List UInt8 × Nat) :=
  match simple? letter with
  | some b => .ok ([b], 0)
  | none =>
    if letter = 'x' ∨ letter = 'X' then
      let digits := leadingDigits 16 2 rest
      if digits.isEmpty then .error .missingHex
      else .ok ([(Numeral.value 16 digits).toUInt8], digits.length)
    else if Numeral.isDigit 8 letter then
      let digits := letter :: leadingDigits 8 2 rest
      .ok ([(Numeral.value 8 digits).toUInt8], digits.length - 1)
    else if letter = 'u' ∨ letter = 'U' then
      let width := if letter = 'u' then 4 else 8
      let digits := leadingDigits 16 width rest
      if digits.length ≠ width then .error (.shortCodePoint letter width)
      else if 0x10FFFF < Numeral.value 16 digits then .error (.beyondCodePoints letter digits)
      else .ok (Utf8.encodeCodePoint (Numeral.value 16 digits), width)
    else .error (.unknown letter)

end Escape

/-- The bytes of a string literal without its delimiters. -/
def unescapeBody : List Char → Except EscapeError (List UInt8)
  | [] => .ok []
  | '\\' :: [] => .error .unfinished
  | '\\' :: letter :: rest =>
    match Escape.read letter rest with
    | .error e => .error e
    | .ok (bytes, used) => (unescapeBody (rest.drop used)).map (bytes ++ ·)
  | c :: rest => (unescapeBody rest).map (Utf8.encodeChar c ++ ·)
  termination_by cs => cs.length
  decreasing_by all_goals (simp only [List.length_cons, List.length_drop]; omega)

/-- The bytes of a string literal; its first and last character are taken to be the delimiters. -/
def unescape (literal : List Char) : Except EscapeError (List UInt8) :=
  unescapeBody (literal.drop 1).dropLast

end ProtoSchema

namespace ProtoSchema.Literal

/-! ## Written literals -/

/-- An octal digit. -/
def octalDigit (n : Nat) : Char := Char.ofNat ('0'.toNat + n % 8)

/-- A byte inside a written literal. -/
def quotedByte (b : UInt8) : List Char :=
  let n := b.toNat
  let c := Char.ofNat n
  if c = '"' ∨ c = '\\' then ['\\', c]
  else if 0x20 ≤ n ∧ n < 0x7F then [c]
  else ['\\', octalDigit (n / 64), octalDigit (n / 8), octalDigit n]

/-- The string literal for some bytes. -/
def quote (bytes : List UInt8) : String :=
  String.ofList ('"' :: (bytes.flatMap quotedByte ++ ['"']))

end ProtoSchema.Literal
