import ProtoSchema.Text.Utf8

/-!
# Text with stray bytes

A string literal of a schema denotes bytes, and these need not be UTF-8. `Text` is what such bytes
read as: characters where the bytes form characters, and each other byte kept as itself, so that
`toBytes (ofBytes b) = b`. File names, import paths and the wording of diagnostics are texts too,
because they may quote such a literal.
-/

namespace ProtoSchema

/-- One unit of a text: a character, or a byte that belongs to no character. -/
inductive TextUnit
  | char (c : Char)
  | stray (b : UInt8)
  deriving DecidableEq, Repr

/-- The bytes of a unit. -/
def TextUnit.toBytes : TextUnit → List UInt8
  | .char c => Utf8.encodeChar c
  | .stray b => [b]

/-- The character of a unit that is one. -/
def TextUnit.char? : TextUnit → Option Char
  | .char c => some c
  | .stray _ => none

/-- The number by which units are ordered: that of the character, or `DC00` plus the stray byte. -/
def TextUnit.code : TextUnit → Nat
  | .char c => c.toNat
  | .stray b => 0xDC00 + b.toNat

/-- A sequence of characters and stray bytes. -/
structure Text where
  units : List TextUnit
  deriving DecidableEq, Repr

namespace Text

instance : Inhabited Text := ⟨⟨[]⟩⟩

instance : Append Text := ⟨fun a b => ⟨a.units ++ b.units⟩⟩

/-- A text of characters only. -/
def ofChars (cs : List Char) : Text := ⟨cs.map .char⟩

/-- A string is a text without stray bytes. -/
def ofString (s : String) : Text := ofChars s.toList

instance : Coe String Text := ⟨ofString⟩

/-- The units that bytes read as: where no character can be read, one byte is kept as it is and
reading goes on behind it. -/
def unitsOfBytes : List UInt8 → List TextUnit
  | [] => []
  | b :: bs =>
    match h : Utf8.readChar b bs with
    | .char c rest =>
      have := Utf8.length_le_of_readChar h
      .char c :: unitsOfBytes rest
    | .flaw _ _ => .stray b :: unitsOfBytes bs
  termination_by bs => bs.length
  decreasing_by all_goals (simp only [List.length_cons]; omega)

/-- The text that bytes read as. -/
def ofBytes (bytes : List UInt8) : Text := ⟨unitsOfBytes bytes⟩

/-- The bytes of a text. -/
def toBytes (t : Text) : List UInt8 := t.units.flatMap TextUnit.toBytes

/-- The characters of a text that holds no stray byte. -/
def chars? (t : Text) : Option (List Char) := t.units.mapM TextUnit.char?

/-- The string of a text that holds no stray byte. -/
def toString? (t : Text) : Option String := t.chars?.map String.ofList

/-- The numbers by which texts are ordered, unit by unit. -/
def codes (t : Text) : List Nat := t.units.map TextUnit.code

/-- Whether a text comes before another one, unit by unit. -/
def isBefore (s t : Text) : Bool := s.codes.lex t.codes fun a b => decide (a < b)

/-- Whether a text has no unit at all. -/
def isEmpty (t : Text) : Bool := t.units.isEmpty

/-- Texts joined with a separator between neighbours. -/
def intercalate (separator : Text) (texts : List Text) : Text :=
  ⟨separator.units.intercalate (texts.map Text.units)⟩

end Text

end ProtoSchema
