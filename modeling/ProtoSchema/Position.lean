/-!
# Positions in a source text

Lines are ended by the line feed alone and columns count characters; both start at one.
-/

namespace ProtoSchema

/-- A place between two characters of a source text. -/
structure Position where
  line : Nat
  column : Nat
  deriving DecidableEq, Repr

namespace Position

/-- The place before the first character. -/
def start : Position := ⟨1, 1⟩

/-- The place behind a character that stands at `p`. -/
def next (p : Position) (c : Char) : Position :=
  if c = '\n' then ⟨p.line + 1, 1⟩ else ⟨p.line, p.column + 1⟩

/-- The place behind a text that starts at `p`. -/
def advance (p : Position) (cs : List Char) : Position := cs.foldl next p

end Position

end ProtoSchema
