import ProtoSchema.Screen.PictographNames
import ProtoSchema.Text.Columns
import ProtoSchema.Text.Words

/-!
# Pictographs by name

A name between two colons is shown as its pictograph. The name may end in a wish for the form in
which the pictograph is to be shown, as a letter or as a picture. What is no name stays as it is.
-/

namespace ProtoSchema.Screen

/-- The form in which a pictograph is to be shown. -/
inductive PictographForm
  | letter
  | picture
  deriving DecidableEq, Repr

namespace PictographForm

/-- The ending by which a name asks for a form. -/
def ending : PictographForm → Text
  | letter => "-text"
  | picture => "-emoji"

/-- The selector that stands behind the pictograph. -/
def selector : PictographForm → Char
  | letter => Char.ofNat 0xFE0E
  | picture => pictographSelector

/-- The form that a name asks for, with the name itself. -/
def split (name : List TextUnit) : List TextUnit × Option PictographForm :=
  match [letter, picture].find? fun f => f.ending.units.isSuffixOf name with
  | some f => (name.take (name.length - f.ending.units.length), some f)
  | none => (name, none)

end PictographForm

/-- The number that hexadecimal digits spell. -/
def codePoint (digits : List Char) : Nat :=
  let digit (c : Char) : Nat := if c.isDigit then c.toNat - 48 else c.toNat - 55
  digits.foldl (fun n c => 16 * n + digit c) 0

/-- A name with its pictograph, as an entry of the table of names spells them. -/
def readPictograph (entry : List Char) : String × List Char :=
  let name := entry.takeWhile (· ≠ '=')
  let codes := (entry.drop (name.length + 1)).splitOn '-'
  (String.ofList name, codes.map fun digits => Char.ofNat (codePoint digits))

/-- All names with their pictographs. -/
def pictographs : List (String × List Char) :=
  ((pictographNames.toList.splitOnP Char.isWhitespace).filter (· ≠ [])).map readPictograph

/-- The pictograph of a name, in whatever letters it is written. -/
def pictograph? (name : List TextUnit) : Option (List Char) := do
  pictographs.lookup (← Text.toString? ⟨smallUnits name⟩)

/-- What is shown for a name between colons. -/
def shownName (name : List TextUnit) : List TextUnit :=
  let (bare, form) := PictographForm.split name
  match pictograph? bare with
  | some cs => (cs ++ (form.map PictographForm.selector).toList).map .char
  | none => .char ':' :: name ++ [.char ':']

/-- Whether a unit may stand in a name: no colon and no blank may. -/
def isOfName (u : TextUnit) : Bool := u ≠ .char ':' ∧ ¬ u.isBlank

/-- Units with a pictograph instead of each name of one between two colons. Colons are paired from
the left. -/
def showPictographs : List TextUnit → List TextUnit
  | [] => []
  | u :: rest =>
    if u = .char ':' then
      let name := rest.takeWhile isOfName
      if (rest.drop name.length).head? = some (.char ':') then
        shownName name ++ showPictographs (rest.drop (name.length + 1))
      else u :: showPictographs rest
    else u :: showPictographs rest
  termination_by units => units.length
  decreasing_by all_goals (simp only [List.length_cons, List.length_drop]; omega)

end ProtoSchema.Screen
