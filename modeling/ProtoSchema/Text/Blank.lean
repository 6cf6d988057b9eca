/-!
# Blanks, digits and line ends

A numeral may be given in the decimal digits of any script, between blanks of any sort, and the
words of a line stand between blanks. A file may end its lines with a carriage return, with a line
feed, or with both in this order. This module holds what is needed for this.
-/

namespace ProtoSchema

/-!
## Runs of code points

A property of characters is given as the runs of code points that have it, in increasing order.
-/

/-- Whether a number lies in one of some runs, given by their first and last numbers in increasing
order. -/
def inRanges (ranges : List (Nat × Nat)) (n : Nat) : Bool :=
  (ranges.takeWhile (·.1 ≤ n)).any (n ≤ ·.2)

/-! ## Line ends -/

/-- A text with every line end as a line feed. -/
def unifyLineEnds : List Char → List Char
  | [] => []
  | '\r' :: '\n' :: cs => '\n' :: unifyLineEnds cs
  | '\r' :: cs => '\n' :: unifyLineEnds cs
  | c :: cs => c :: unifyLineEnds cs

/-! ## Blanks and digits of all scripts -/

/-- The digit zero of each script that has decimal digits; the other nine follow it. -/
def zeroDigits : List Nat := [
  0x30, 0x660, 0x6F0, 0x7C0, 0x966, 0x9E6, 0xA66, 0xAE6, 0xB66, 0xBE6, 0xC66, 0xCE6, 0xD66, 0xDE6,
  0xE50, 0xED0, 0xF20, 0x1040, 0x1090, 0x17E0, 0x1810, 0x1946, 0x19D0, 0x1A80, 0x1A90, 0x1B50,
  0x1BB0, 0x1C40, 0x1C50, 0xA620, 0xA8D0, 0xA900, 0xA9D0, 0xA9F0, 0xAA50, 0xABF0, 0xFF10, 0x104A0,
  0x10D30, 0x11066, 0x110F0, 0x11136, 0x111D0, 0x112F0, 0x11450, 0x114D0, 0x11650, 0x116C0, 0x11730,
  0x118E0, 0x11950, 0x11C50, 0x11D50, 0x11DA0, 0x16A60, 0x16AC0, 0x16B50, 0x1D7CE, 0x1D7D8, 0x1D7E2,
  0x1D7EC, 0x1D7F6, 0x1E140, 0x1E2F0, 0x1E950, 0x1FBF0]

/-- The value of a decimal digit of any script. -/
def decimalDigit? (c : Char) : Option Nat :=
  (zeroDigits.find? fun z => z ≤ c.toNat ∧ c.toNat < z + 10).map (c.toNat - ·)

/-- Blanks among the first 128 characters: tab, line ends and space. -/
def isPlainBlank (c : Char) : Bool :=
  (0x9 ≤ c.toNat ∧ c.toNat ≤ 0xD) ∨ c = ' '

/-- Blanks beyond the first 128 characters. -/
def isWideBlank (c : Char) : Bool :=
  [0x85, 0xA0, 0x1680, 0x2028, 0x2029, 0x202F, 0x205F, 0x3000].contains c.toNat ∨
    (0x2000 ≤ c.toNat ∧ c.toNat ≤ 0x200A)

/-- Blanks between words: all of the above, and the four separators of files, groups, records and
units. -/
def isBlank (c : Char) : Bool :=
  isPlainBlank c ∨ isWideBlank c ∨ (0x1C ≤ c.toNat ∧ c.toNat ≤ 0x1F)

end ProtoSchema
