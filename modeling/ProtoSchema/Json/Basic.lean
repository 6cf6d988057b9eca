import ProtoSchema.Decimal.Shortest
import ProtoSchema.Text.Basic
import ProtoSchema.Text.Quoted

/-!
# Plain data

Declarations and descriptors are handed out as plain data: trees of numbers, texts, lists and
objects whose entries keep their order. It is printed in ASCII, one item or entry a line, each level
indented by two more blanks. A character beyond ASCII is spelled by its code unit or its two
surrogates, and a stray byte by the surrogate `DC00` plus the byte. Numbers that are not finite are
printed as words.
-/

namespace ProtoSchema

/-- A tree of plain data. -/
inductive Json
  | null
  | bool (b : Bool)
  | int (i : Int)
  | float (x : Float)
  | text (t : Text)
  | array (items : List Json)
  | object (entries : List (String × Json))

namespace Json

instance : Inhabited Json := ⟨null⟩

/-- A string as data. -/
def string (s : String) : Json := text s

/-- Data that may be absent. -/
def ofOption {α : Type} (data : α → Json) : Option α → Json
  | none => null
  | some a => data a

/-- The list of the data of some items. -/
def ofList {α : Type} (data : α → Json) (items : List α) : Json := array (items.map data)

end Json

end ProtoSchema

namespace ProtoSchema.Json

/-! ## Printed data -/

/-- A code unit of sixteen bits as an escape. -/
def unitEscape (n : Nat) : String := "\\u" ++ Quoted.hex 4 n

/-- A character inside a printed text. -/
def escapedChar (c : Char) : String :=
  if c = '"' ∨ c = '\\' then String.ofList ['\\', c]
  else if c = '\n' then "\\n"
  else if c = '\r' then "\\r"
  else if c = '\t' then "\\t"
  else if c = '\x0c' then "\\f"
  else if c = '\x08' then "\\b"
  else if ' ' ≤ c ∧ c ≤ '~' then c.toString
  else if c.toNat < 0x10000 then unitEscape c.toNat
  else
    let n := c.toNat - 0x10000
    unitEscape (0xD800 + n / 0x400) ++ unitEscape (0xDC00 + n % 0x400)

/-- A unit of a text inside a printed text. -/
def escapedUnit : TextUnit → String
  | .char c => escapedChar c
  | .stray b => unitEscape (0xDC00 + b.toNat)

/-- A text between its quotes. -/
def printText (t : Text) : String := "\"" ++ String.join (t.units.map escapedUnit) ++ "\""

/-- A number with a fraction. -/
def printFloat (x : Float) : String :=
  match Decimal.classify x with
  | .notANumber => "NaN"
  | .infinite negative => if negative then "-Infinity" else "Infinity"
  | .finite .. => Decimal.floatText x

/-- How much deeper each level is indented. -/
def indentStep : Nat := 2

/-- A new line at a depth of indentation. -/
def lineBreak (depth : Nat) : String := String.ofList ('\n' :: List.replicate depth ' ')

/-- Printed parts between brackets, one a line at the given depth; without parts the brackets close
at once. -/
def enclosed (opening closing : String) (depth : Nat) (parts : List String) : String :=
  if parts.isEmpty then opening ++ closing
  else
    let inner := lineBreak (depth + indentStep)
    opening ++ inner ++ ("," ++ inner).intercalate parts ++ lineBreak depth ++ closing

mutual

/-- Data printed at a depth of indentation. -/
def printAt (depth : Nat) : Json → String
  | null => "null"
  | bool b => if b then "true" else "false"
  | int i => toString i
  | float x => printFloat x
  | text t => printText t
  | array items => enclosed "[" "]" depth (printItems (depth + indentStep) items)
  | object entries => enclosed "\x7b" "\x7d" depth (printEntries (depth + indentStep) entries)

/-- The printed items of a list. -/
def printItems (depth : Nat) : List Json → List String
  | [] => []
  | item :: items => printAt depth item :: printItems depth items

/-- The printed entries of an object. -/
def printEntries (depth : Nat) : List (String × Json) → List String
  | [] => []
  | (key, value) :: entries =>
    (printText key ++ ": " ++ printAt depth value) :: printEntries depth entries

end

/-- Printed data, without a line end behind it. -/
def print (data : Json) : String := printAt 0 data

end ProtoSchema.Json
