import ProtoSchema.Text.Blank
import ProtoSchema.Text.Quoted

/-!
# Integer literals

An integer literal is decimal, hexadecimal after `0x`, or octal after a leading zero. `parseInt`
also takes what surrounds a numeral outside of schema text: blanks, a sign, single underscores
between digits, the digits of other scripts, and a second base marker (`0x` or `0o`) in front of
the digits of its base.
-/

namespace ProtoSchema

/-- A text that is no numeral in a base. -/
structure BadNumeral where
  base : Nat
  text : List Char
  deriving DecidableEq, Repr

/-- The wording for a bad numeral; of a long text only the first 200 quoted characters are shown. -/
def BadNumeral.message (e : BadNumeral) : String :=
  s!"invalid literal for int() with base {e.base}: " ++
    String.ofList ((Quoted.string (String.ofList e.text)).toList.take 200)

namespace Numeral

/-- The value of a digit below 16. -/
def hexDigit? (c : Char) : Option Nat :=
  if '0' ≤ c ∧ c ≤ '9' then some (c.toNat - '0'.toNat)
  else if 'a' ≤ c ∧ c ≤ 'f' then some (c.toNat - 'a'.toNat + 10)
  else if 'A' ≤ c ∧ c ≤ 'F' then some (c.toNat - 'A'.toNat + 10)
  else none

/-- The value of a digit below `base`. -/
def digit? (base : Nat) (c : Char) : Option Nat :=
  (hexDigit? c).filter (· < base)

/-- Whether a character is a digit below `base`. -/
def isDigit (base : Nat) (c : Char) : Bool := (digit? base c).isSome

/-- The value of a run of digits; characters that are no digit count as zero. -/
def value (base : Nat) (digits : List Char) : Nat :=
  digits.foldl (fun n c => n * base + (digit? base c).getD 0) 0

/-- A character of any script in its plain form: a digit as `0`–`9`, a blank as a space. -/
def plain (c : Char) : Char :=
  if c.toNat < 0x7F then c
  else if isWideBlank c then ' '
  else
    match decimalDigit? c with
    | some d => Char.ofNat ('0'.toNat + d)
    | none => '?'

/-- Digits with single underscores between them, as digits only. -/
def joinGroups? (base : Nat) : List Char → Option (List Char)
  | [] => none
  | [c] => if isDigit base c then some [c] else none
  | c :: '_' :: rest => if isDigit base c then (joinGroups? base rest).map (c :: ·) else none
  | c :: rest => if isDigit base c then (joinGroups? base rest).map (c :: ·) else none

/-- Drops the marker of the base, and one underscore behind it. -/
def dropMarker (base : Nat) : List Char → List Char
  | '0' :: m :: rest =>
    if (base = 16 ∧ (m = 'x' ∨ m = 'X')) ∨ (base = 8 ∧ (m = 'o' ∨ m = 'O')) then
      match rest with
      | '_' :: rest => rest
      | _ => rest
    else '0' :: m :: rest
  | cs => cs

/-- Reads a numeral in a base, with blanks around it and a sign before it. -/
def read? (base : Nat) (text : List Char) : Option Int :=
  let body := (text.map plain).dropWhile isPlainBlank
  let body := (body.reverse.dropWhile isPlainBlank).reverse
  let magnitude? (digits : List Char) : Option Nat :=
    (joinGroups? base (dropMarker base digits)).map (value base)
  match body with
  | '-' :: rest => (magnitude? rest).map fun n => -(n : Int)
  | '+' :: rest => (magnitude? rest).map Int.ofNat
  | rest => (magnitude? rest).map Int.ofNat

end Numeral

/-- The value of an integer literal. -/
def parseInt (literal : List Char) : Except BadNumeral Int :=
  let read (base : Nat) (text : List Char) : Except BadNumeral Int :=
    match Numeral.read? base text with
    | some i => .ok i
    | none => .error ⟨base, text⟩
  match literal with
  | '0' :: 'x' :: digits => read 16 digits
  | '0' :: 'X' :: digits => read 16 digits
  | '0' :: c :: digits => read 8 (c :: digits)
  | digits => read 10 digits

end ProtoSchema
