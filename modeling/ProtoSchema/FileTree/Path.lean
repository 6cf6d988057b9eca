import ProtoSchema.Text.Basic

/-!
# Paths

A path is read component by component. Empty components and single points are dropped, while two
points stay: they lead to the directory above. A path that starts with a slash is absolute.
-/

namespace ProtoSchema

/-- A path as it is written, without what has no effect. -/
structure Path where
  absolute : Bool
  components : List Text
  deriving DecidableEq, Repr

namespace Path

/-- Whether a component has an effect. -/
def isEffective (component : List TextUnit) : Bool :=
  component ≠ [] ∧ component ≠ [.char '.']

/-- The path that a text spells. -/
def ofText (t : Text) : Path :=
  ⟨t.units.head? = some (.char '/'),
    ((t.units.splitOn (.char '/')).filter isEffective).map Text.mk⟩

/-- The component that leads nowhere else. -/
def here : Text := "."

/-- The component that leads to the directory above. -/
def up : Text := ".."

/-- The path that a text spells, with single points kept: before one there has to be a directory,
and likewise before a slash at the end. -/
def verbatim (t : Text) : Path :=
  let components := ((t.units.splitOn (.char '/')).filter (· ≠ [])).map Text.mk
  ⟨t.units.head? = some (.char '/'),
    if t.units.getLast? = some (.char '/') then components ++ [here] else components⟩

/-- The text of a path; a path without components is the current directory. -/
def text (p : Path) : Text :=
  let components := Text.intercalate "/" p.components
  if p.absolute then ("/" : Text) ++ components
  else if p.components.isEmpty then "."
  else components

/-- The path that leads on from the end of another one; an absolute path leads on from nothing. -/
def join (p q : Path) : Path :=
  if q.absolute then q else ⟨p.absolute, p.components ++ q.components⟩

/-- The last component, which is empty for a path without components. -/
def name (p : Path) : Text := p.components.getLastD ⟨[]⟩

/-- The path without its last component. -/
def parent (p : Path) : Path := ⟨p.absolute, p.components.dropLast⟩

/-- The greatest number of bytes in a component that leads somewhere. -/
def longestName : Nat := 255

/-- The greatest number of bytes in a path that leads somewhere. -/
def longestPath : Nat := 4095

/-- Whether a text holds a zero character, which no path can. -/
def hasZero (t : Text) : Bool := t.units.contains (.char (Char.ofNat 0))

/-- Whether a text is too long for a path. -/
def isTooLong (t : Text) : Bool := longestPath < t.toBytes.length

end Path

/-- Where a path leads, seen from the working directory: so many directories above it, and from
there down the given components. -/
structure Location where
  above : Nat
  components : List Text
  deriving DecidableEq, Repr

namespace Location

/-- The working directory. -/
def start : Location := ⟨0, []⟩

/-- Where one more component leads. -/
def step (l : Location) (component : Text) : Location :=
  if component = Path.up then
    if l.components.isEmpty then ⟨l.above + 1, []⟩ else ⟨l.above, l.components.dropLast⟩
  else ⟨l.above, l.components ++ [component]⟩

/-- How a location is reached from another one that it lies below. -/
def below? (root l : Location) : Option (List Text) :=
  if root.above = l.above ∧ root.components.isPrefixOf l.components then
    some (l.components.drop root.components.length)
  else none

end Location

/-- Where a path leads if all its components are directories; an absolute path leads away from the
working directory. -/
def Path.location? (p : Path) : Option Location :=
  if p.absolute then none else some (p.components.foldl Location.step .start)

/-- The path from one place to another that lies below it. A path that can lead nowhere has nothing
below it. -/
def Path.relative? (root p : Path) : Option Path := do
  if Path.hasZero root.text then none
  let components ← (← root.location?).below? (← p.location?)
  return ⟨false, components⟩

end ProtoSchema
