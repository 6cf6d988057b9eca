import ProtoSchema.Expression.Token
import ProtoSchema.Literal.Integer

/-!
# Quotations

A quotation stands for text or for bytes, with letters before its quotation mark that say which, and
whether backslashes are taken as they are. This module tells which quotations are in order.

An escape of text is looked for in the plain form of a quotation, in which each character beyond the
first 128 is spelled by its number; a fault is told by its place there.
-/

namespace ProtoSchema.Expression

/-- Why an escape of text stands for nothing. -/
inductive EscapeFault
  | truncated (letter : Char) (width : Nat)
  | noCharacter
  | malformedName
  | unknownName
  deriving DecidableEq, Repr

/-- The wording of a fault. -/
def EscapeFault.message : EscapeFault → String
  | truncated letter width =>
    s!"truncated \\{letter}" ++ String.ofList (List.replicate width 'X') ++ " escape"
  | noCharacter => "illegal Unicode character"
  | malformedName => "malformed \\N character escape"
  | unknownName => "unknown Unicode character name"

/-- Why a quotation stands for nothing. -/
inductive QuotationFault
  | escape (first last : Nat) (fault : EscapeFault)
  | byteEscape (position : Nat)
  | characterAmongBytes
  | mixed
  deriving DecidableEq, Repr

/-- The wording of a fault. -/
def QuotationFault.message : QuotationFault → String
  | escape first last fault =>
    s!"(unicode error) 'unicodeescape' codec can't decode bytes in position {first}-{last}: " ++
      fault.message
  | byteEscape position => s!"(value error) invalid \\x escape at position {position}"
  | characterAmongBytes => "bytes can only contain ASCII literal characters"
  | mixed => "cannot mix bytes and nonbytes literals"

/-- A quotation: the letters before it, in small, and what stands between its quotation marks. -/
structure Quotation where
  letters : List Char
  body : List Char
  deriving DecidableEq, Repr

namespace Quotation

/-- The quotation that a token spells. -/
def ofToken (text : List Char) : Quotation :=
  let letters := text.takeWhile fun c => c ≠ '\'' ∧ c ≠ '"'
  let quoted := text.drop letters.length
  let width := if 6 ≤ quoted.length ∧ (quoted.take 3).all (some · = quoted.head?) then 3 else 1
  ⟨letters.map Char.toLower, (quoted.drop width).take (quoted.length - 2 * width)⟩

/-- Whether a quotation stands for bytes. -/
def isBytes (q : Quotation) : Bool := q.letters.contains 'b'

/-- Whether backslashes are taken as they are. -/
def isRaw (q : Quotation) : Bool := q.letters.contains 'r'

/-- Whether a quotation holds expressions. -/
def isTemplate (q : Quotation) : Bool := q.letters.contains 'f'

/-- A character in its plain form. -/
def plainChar (c : Char) : List Char :=
  if c.toNat < 128 then [c] else '\\' :: 'U' :: (Quoted.hex 8 c.toNat).toList

/-- Text in its plain form. A backslash before a character that is spelled by its number, or at the
end, is spelled so as well. -/
def plainForm : List Char → List Char
  | [] => []
  | ['\\'] => "\\u005c".toList
  | '\\' :: c :: rest =>
    if c.toNat < 128 then '\\' :: c :: plainForm rest
    else "\\u005c".toList ++ plainChar c ++ plainForm rest
  | c :: rest => plainChar c ++ plainForm rest

/-- How many characters belong to the escape of a letter, apart from that letter. A fault comes with
the number of those up to it. No name of a character is known. -/
def escapeLength (letter : Char) (rest : List Char) : Except (Nat × EscapeFault) Nat :=
  match [('x', 2), ('u', 4), ('U', 8)].find? (·.1 = letter) with
  | some (_, width) =>
    let digits := (rest.take width).takeWhile (ProtoSchema.Numeral.isDigit 16)
    if digits.length < width then .error (digits.length, .truncated letter width)
    else if 0x10FFFF < ProtoSchema.Numeral.value 16 digits then .error (width, .noCharacter)
    else .ok width
  | none =>
    if letter ≠ 'N' then .ok 0
    else if rest.head? ≠ some '\x7b' then .error (0, .malformedName)
    else
      let name := (rest.drop 1).takeWhile (· ≠ '\x7d')
      if name.length + 1 = rest.length ∨ name = [] then .error (name.length + 1, .malformedName)
      else .error (name.length + 2, .unknownName)

/-- Checks the escapes of text in its plain form, from a position on. -/
def checkEscapes (position : Nat) : List Char → Except QuotationFault Unit
  | [] => .ok ()
  | ['\\'] => .ok ()
  | '\\' :: letter :: rest =>
    match escapeLength letter rest with
    | .ok length => checkEscapes (position + 2 + length) (rest.drop length)
    | .error (length, fault) => .error (.escape position (position + 1 + length) fault)
  | _ :: rest => checkEscapes (position + 1) rest
  termination_by text => text.length
  decreasing_by all_goals (simp only [List.length_cons, List.length_drop]; omega)

/-- Checks the escapes of text. -/
def checkText (text : List Char) : Except QuotationFault Unit := checkEscapes 0 (plainForm text)

/-- Checks the escapes of bytes, from a position on: two digits have to follow an `x`. -/
def checkByteEscapes (position : Nat) : List Char → Except QuotationFault Unit
  | [] => .ok ()
  | ['\\'] => .ok ()
  | '\\' :: letter :: rest =>
    if letter = 'x' ∧ ((rest.take 2).takeWhile (ProtoSchema.Numeral.isDigit 16)).length < 2 then
      .error (.byteEscape position)
    else checkByteEscapes (position + 2) rest
  | _ :: rest => checkByteEscapes (position + 1) rest

/-- Checks a quotation without expressions. -/
def check (q : Quotation) : Except QuotationFault Unit :=
  if q.isBytes ∧ q.body.any (128 ≤ ·.toNat) then .error .characterAmongBytes
  else if q.isRaw then .ok ()
  else if q.isBytes then checkByteEscapes 0 q.body
  else checkText q.body

end Quotation

end ProtoSchema.Expression
